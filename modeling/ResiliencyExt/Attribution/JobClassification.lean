import ResiliencyExt.Attribution.JobTable

set_option autoImplicit false

/-!
# Tracked jobs: each job is classified once

What the threads owe the counters.  A job that has been promoted, expired or
demoted is counted some steps later, and a new job that is not pending is
counted before it is there; with what the threads owe the counters always add
up (`Invariant.accounts`), and between operations nothing is owed.  The calls of
`initialize_job` that are due are balanced in the same way.

All of this rests on the tests in `Rechecked`.  The code tests under the lock
that the job is still the registered one, but not that it is still pending, so
two checks that took the same snapshot promote the same job, and a job that is
promoted during a GET request is demoted again by it.
-/

namespace ResiliencyExt.Attribution.Tracking

open Foundation

/-! ## What a thread owes -/

/-- A job that is counted and not yet there. -/
def Pc.prepaid : Pc → Nat
  | .registering _ .pending => 0
  | .registering _ _ => 1
  | _ => 0

/-- Jobs that are no longer pending and not yet counted. -/
def Pc.owed : Pc → Nat
  | .checking _ expired _ => expired
  | .expiring _ _ expired _ => expired
  | .promoting _ _ expired _ => expired
  | .initializing _ _ expired _ => expired + 1
  | .counting _ expired _ => expired + 1
  | .recording => 1
  | _ => 0

/-- A call of `initialize_job` that is under way for a job. -/
def Pc.initializes (j : Nat) : Pc → Nat
  | .initializingNew k => if k = j then 1 else 0
  | .initializing k _ _ _ => if k = j then 1 else 0
  | _ => 0

namespace TrackedJobs

/-- All that is counted, with the jobs that are pending. -/
def counted (t : TrackedJobs) : Nat :=
  t.totalSplitlog + t.totalSingle + t.table.pendingJobCount + t.pendingExpired

/-- What a run keeps. -/
structure Invariant (members : Finset Nat) (t : TrackedJobs) : Prop where
  sound : t.table.Sound
  due : ∀ j, t.table.initializedOf j + ∑ q ∈ members, (t.threads q).initializes j =
    t.table.splitlogOf j
  accounts : t.table.jobs.length + ∑ q ∈ members, (t.threads q).prepaid =
    t.counted + ∑ q ∈ members, (t.threads q).owed
  cleaning : ∀ p paths, t.threads p = .cleaning paths → p = 0 ∧ t.MayCleanUp paths

variable {members : Finset Nat} {t u : TrackedJobs} {p : Nat} {next : Pc}

variable {path : String} {mode : JobMode} {j : Nat}

/-- A step of one thread that is balanced on its own. -/
theorem Invariant.of_step (h : t.Invariant members) (hp : p ∈ members)
    (hthreads : u.threads = Function.update t.threads p next) (hsound : u.table.Sound)
    (hdue : ∀ j, u.table.initializedOf j + next.initializes j + t.table.splitlogOf j =
      t.table.initializedOf j + (t.threads p).initializes j + u.table.splitlogOf j)
    (haccounts : u.table.jobs.length + next.prepaid + t.counted + (t.threads p).owed =
      t.table.jobs.length + (t.threads p).prepaid + u.counted + next.owed)
    (hclean : ∀ paths, next = .cleaning paths → p = 0 ∧ u.MayCleanUp paths)
    (hkeep : p ≠ 0 → ∀ path, t.table.HoldsSplitlog path → u.table.HoldsSplitlog path) :
    u.Invariant members where
  sound := hsound
  due j := by
    have hsum := sum_update (Pc.initializes j) t.threads next hp
    have hbefore := h.due j
    have hnow := hdue j
    rw [hthreads]
    omega
  accounts := by
    have hprepaid := sum_update Pc.prepaid t.threads next hp
    have howed := sum_update Pc.owed t.threads next hp
    have hbefore := h.accounts
    rw [hthreads]
    omega
  cleaning q paths hq := by
    rw [hthreads] at hq
    by_cases heq : q = p
    · subst heq
      rw [Function.update_self] at hq
      exact hclean paths hq
    · rw [Function.update_of_ne heq] at hq
      obtain ⟨hzero, hnodup, hall⟩ := h.cleaning q paths hq
      exact ⟨hzero, hnodup, fun path hpath =>
        hkeep (fun hp0 => heq (hzero.trans hp0.symm)) path (hall path hpath)⟩

/-- A step of one thread that leaves the table and the counters alone. -/
theorem Invariant.moves (h : t.Invariant members) (hp : p ∈ members)
    (hinitializes : ∀ j, next.initializes j = (t.threads p).initializes j)
    (haccounts : next.prepaid + (t.threads p).owed = (t.threads p).prepaid + next.owed)
    (hclean : ∀ paths, next = .cleaning paths → p = 0 ∧ t.MayCleanUp paths) :
    (t.move p next).Invariant members := by
  refine h.of_step hp rfl h.sound (fun j => ?_) ?_ hclean fun _ _ hholds => hholds
  · rw [hinitializes]
    rfl
  · change t.table.jobs.length + next.prepaid + t.counted + (t.threads p).owed =
      t.table.jobs.length + (t.threads p).prepaid + t.counted + next.owed
    omega

/-! ## The steps that change the table -/

theorem Invariant.register (h : t.Invariant members) (hp : p ∈ members)
    (hpc : t.threads p = .registering path mode) (hfree : t.table.registered.get? path = none) :
    ((t.withTable (t.table.register path mode)).move p
      (if mode = .splitlog then .initializingNew t.table.jobs.length else .idle)).Invariant
        members := by
  refine h.of_step hp rfl (h.sound.register hfree mode) (fun j => ?_) ?_ (fun paths hnow => ?_)
    fun _ other hholds => ?_
  · change (t.table.register path mode).initializedOf j + _ + _ =
      _ + _ + (t.table.register path mode).splitlogOf j
    rw [hpc, JobTable.initializedOf_register, JobTable.splitlogOf, JobTable.splitlogOf,
      JobTable.modeOf_register]
    by_cases hj : j = t.table.jobs.length
    · have hnone : t.table.modeOf j = none := by
        rw [JobTable.modeOf, hj, List.getElem?_eq_none (Nat.le_refl _)]
        rfl
      rw [hnone, if_pos hj, hj]
      cases mode <;> simp [Pc.initializes]
    · rw [if_neg hj]
      cases mode <;> simp [Pc.initializes, Ne.symm hj]
  · change (t.table.register path mode).jobs.length + _ + _ + _ =
      _ + _ + (_ + (t.table.register path mode).pendingJobCount + _) + _
    rw [hpc, JobTable.length_register, JobTable.pendingJobCount_register h.sound hfree, counted]
    cases mode <;> simp only [Pc.prepaid, Pc.owed, move, withTable, reduceCtorEq, if_true,
      if_false] <;> omega
  · split at hnow <;> cases hnow
  · refine hholds.mono fun k hk hmode => ⟨?_, ?_⟩
    · refine (Dict.get?_set_of_ne _ _ ?_).trans hk
      rintro rfl
      rw [hfree] at hk
      cases hk
    · obtain ⟨job, hjob, -⟩ := h.sound.linked other k hk
      exact (JobTable.modeOf_register path mode k).trans
        ((if_neg (Nat.ne_of_lt (JobTable.lt_length_of_getElem? hjob))).trans hmode)

/-- A split-log job keeps its place when a pending job gets another mode. -/
theorem holdsSplitlog_classify {d : JobTable} {outcome : Outcome}
    (hpending : d.modeOf j = some .pending) (hholds : d.HoldsSplitlog path) :
    (d.classify j mode outcome).HoldsSplitlog path := by
  refine hholds.mono fun k hk hmode => ⟨hk, ?_⟩
  rw [JobTable.modeOf_classify (by rw [hpending]; simp), if_neg ?_]
  · exact hmode
  · rintro rfl
    rw [hpending] at hmode
    cases hmode

section

variable (h : t.Invariant members) (hp : p ∈ members)
include h hp

theorem Invariant.classify {outcome : Outcome} (hregistered : t.table.IsRegistered j)
    (hpending : t.table.modeOf j = some .pending)
    (hmatch : mode = .splitlog ∧ outcome = .splitlog ∨ mode = .single ∧ outcome = .single)
    (hinitializes : ∀ k, next.initializes k =
      (t.threads p).initializes k + if mode = .splitlog ∧ j = k then 1 else 0)
    (haccounts : next.prepaid + (t.threads p).owed + 1 = (t.threads p).prepaid + next.owed)
    (hclean : ∀ paths, next ≠ .cleaning paths) :
    ((t.withTable (t.table.classify j mode outcome)).move p next).Invariant members := by
  have hmode : mode ≠ .pending := by
    rcases hmatch with ⟨rfl, -⟩ | ⟨rfl, -⟩ <;> simp
  refine h.of_step hp rfl (h.sound.classify hregistered hpending hmatch) (fun k => ?_) ?_
    (fun paths hnow => absurd hnow (hclean paths)) fun _ path => holdsSplitlog_classify hpending
  · change (t.table.classify j mode outcome).initializedOf k + _ + _ =
      _ + _ + (t.table.classify j mode outcome).splitlogOf k
    rw [JobTable.splitlogOf, JobTable.splitlogOf,
      JobTable.modeOf_classify (by rw [hpending]; simp), hinitializes,
      JobTable.initializedOf_classify]
    by_cases hk : k = j
    · subst hk
      rw [hpending]
      rcases hmatch with ⟨rfl, -⟩ | ⟨rfl, -⟩
      · simp [Nat.add_assoc]
      · simp
    · rw [if_neg hk, if_neg fun hboth => hk hboth.2.symm]
      omega
  · have hcount : (t.table.classify j mode outcome).pendingJobCount + 1 =
        t.table.pendingJobCount :=
      JobTable.pendingJobCount_modify h.sound hregistered hpending fun _ => hmode
    have hlength : (t.table.classify j mode outcome).jobs.length = t.table.jobs.length :=
      JobTable.length_modify
    change (t.table.classify j mode outcome).jobs.length + _ + _ + _ =
      _ + _ + (_ + (t.table.classify j mode outcome).pendingJobCount + _) + _
    simp only [counted, move, withTable]
    omega

theorem Invariant.expire {remaining : List Nat} {expired : Nat} {after : After}
    (hpc : t.threads p = .expiring j remaining expired after)
    (hregistered : t.table.IsRegistered j) (hpending : t.table.modeOf j = some .pending) :
    ((t.withTable (t.table.expire j)).move p (.checking remaining (expired + 1) after)).Invariant
      members := by
  refine h.of_step hp rfl (h.sound.expire hregistered hpending) (fun k => ?_) ?_
    (fun paths hnow => by cases hnow) fun _ path hholds => ?_
  · change (t.table.expire j).initializedOf k + _ + _ =
      _ + _ + (t.table.expire j).splitlogOf k
    rw [hpc, JobTable.splitlogOf, JobTable.splitlogOf, JobTable.modeOf_expire,
      JobTable.initializedOf_expire]
    rfl
  · have hcount := JobTable.pendingJobCount_expire h.sound hregistered hpending
    have hlength : (t.table.expire j).jobs.length = t.table.jobs.length := by
      simp [JobTable.expire]
    change (t.table.expire j).jobs.length + _ + _ + _ =
      _ + _ + (_ + (t.table.expire j).pendingJobCount + _) + _
    rw [hpc]
    simp only [counted, move, withTable, Pc.prepaid, Pc.owed]
    omega
  · obtain ⟨job, hjob, hpath⟩ := JobTable.isRegistered_iff.mp hregistered
    refine hholds.mono fun k hk hmode => ⟨?_, (congrFun JobTable.modeOf_expire k).trans hmode⟩
    change (t.table.expire j).registered.get? path = some k
    rw [JobTable.expire_eq hjob]
    refine (Dict.get?_erase_of_ne _ ?_).trans hk
    rintro rfl
    rw [hpath] at hk
    obtain rfl := Option.some.inj hk
    rw [hpending] at hmode
    cases hmode

theorem Invariant.initializeJob
    (hpc : ∀ k, (t.threads p).initializes k = next.initializes k + if k = j then 1 else 0)
    (haccounts : next.prepaid + (t.threads p).owed = (t.threads p).prepaid + next.owed)
    (hclean : ∀ paths, next ≠ .cleaning paths) :
    ((t.withTable (t.table.initializeJob j)).move p next).Invariant members := by
  have hexists : t.table.modeOf j ≠ none := by
    -- The thread's own call is due, so the job is a split-log job.
    intro hnone
    have hdue := h.due j
    have hself := Finset.single_le_sum (f := fun q => (t.threads q).initializes j)
      (fun _ _ => Nat.zero_le _) hp
    have hone := hpc j
    rw [if_pos rfl] at hone
    rw [JobTable.splitlogOf, hnone, if_neg (by simp)] at hdue
    omega
  refine h.of_step hp rfl h.sound.initializeJob (fun k => ?_) ?_
    (fun paths hnow => absurd hnow (hclean paths)) fun _ path hholds => ?_
  · change (t.table.initializeJob j).initializedOf k + _ + _ =
      _ + _ + (t.table.initializeJob j).splitlogOf k
    rw [JobTable.splitlogOf, JobTable.splitlogOf, JobTable.modeOf_initializeJob,
      JobTable.initializedOf_initializeJob hexists, hpc]
    omega
  · have hlength : (t.table.initializeJob j).jobs.length = t.table.jobs.length :=
      JobTable.length_modify
    have hcount : (t.table.initializeJob j).pendingJobCount = t.table.pendingJobCount := by
      rw [JobTable.pendingJobCount_eq, JobTable.pendingJobCount_eq,
        JobTable.modeOf_initializeJob]
      rfl
    change (t.table.initializeJob j).jobs.length + _ + _ + _ =
      _ + _ + (_ + (t.table.initializeJob j).pendingJobCount + _) + _
    simp only [counted, move, withTable]
    omega
  · exact hholds.mono fun k hk hmode => ⟨hk,
      (congrFun JobTable.modeOf_initializeJob k).trans hmode⟩

theorem Invariant.cleanupJob {paths : List String}
    (hpc : t.threads p = .cleaning (path :: paths)) :
    ((t.withTable (t.table.cleanupJob path)).move p (.cleaning paths)).Invariant members := by
  obtain ⟨hzero, hnodup, hall⟩ := h.cleaning p _ hpc
  have hpath := hall path List.mem_cons_self
  refine h.of_step hp rfl (h.sound.cleanupJob hpath) (fun k => ?_) ?_ (fun rest hnow => ?_)
    fun hnot => absurd hzero hnot
  · rw [hpc]
    rfl
  · have hcount := JobTable.pendingJobCount_cleanupJob hpath
    rw [hpc]
    simp only [counted, move, withTable, Pc.prepaid, Pc.owed]
    change t.table.jobs.length + _ + _ + _ = _
    omega
  · cases hnow
    obtain ⟨hnew, hrest⟩ := List.nodup_cons.mp hnodup
    refine ⟨hzero, hrest, fun other hother => ?_⟩
    refine (hall other (List.mem_cons_of_mem path hother)).mono fun k hk hmode => ⟨?_, hmode⟩
    refine (Dict.get?_erase_of_ne _ ?_).trans hk
    rintro rfl
    exact hnew hother

/-- A step that only counts. -/
theorem Invariant.counts (htable : u.table = t.table) (hthreads : u.threads = t.threads)
    (hinitializes : ∀ j, next.initializes j = (t.threads p).initializes j)
    (haccounts : next.prepaid + t.counted + (t.threads p).owed =
      (t.threads p).prepaid + u.counted + next.owed)
    (hclean : ∀ paths, next ≠ .cleaning paths) : (u.move p next).Invariant members := by
  have hmove : (u.move p next).threads = Function.update t.threads p next := by
    rw [move, hthreads]
  refine h.of_step hp hmove (htable ▸ h.sound)
    (fun j => ?_) ?_ (fun paths hnow => absurd hnow (hclean paths)) fun _ path hholds => ?_
  · change u.table.initializedOf j + _ + _ = _ + _ + u.table.splitlogOf j
    rw [hinitializes, htable]
  · change u.table.jobs.length + next.prepaid + t.counted + (t.threads p).owed =
      t.table.jobs.length + (t.threads p).prepaid + u.counted + next.owed
    rw [htable]
    omega
  · change u.table.HoldsSplitlog path
    rw [htable]
    exact hholds

/-! ## Steps -/

theorem Invariant.start (hpc : t.threads p = .idle) {choice : Choice}
    (hstep : t.start p choice = some u) : u.Invariant members := by
  have hmoves : ∀ next : Pc, next.prepaid = 0 → next.owed = 0 →
      (∀ j, next.initializes j = 0) →
      (∀ paths, next = .cleaning paths → p = 0 ∧ t.MayCleanUp paths) →
      (t.move p next).Invariant members := fun next hprepaid howed hinit hclean =>
    h.moves hp (fun j => by rw [hpc, hinit]; rfl) (by rw [hpc, hprepaid, howed]; rfl) hclean
  unfold TrackedJobs.start at hstep
  split at hstep
  · split at hstep <;> cases hstep
    · exact hmoves _ rfl rfl (fun _ => rfl) fun _ hnow => by cases hnow
    · exact hmoves _ rfl rfl (fun _ => rfl) fun _ hnow => by cases hnow
  · split at hstep <;> cases hstep
    · exact hmoves _ rfl rfl (fun _ => rfl) fun _ hnow => by cases hnow
    · exact h
  · cases hstep
    exact hmoves _ rfl rfl (fun _ => rfl) fun _ hnow => by cases hnow
  · split at hstep <;> cases hstep
    rename_i hmay
    refine hmoves _ rfl rfl (fun _ => rfl) fun paths hnow => ?_
    injection hnow with hnow
    exact hnow ▸ hmay
  · cases hstep

/-- A thread that owes nothing goes on and still owes nothing. -/
theorem Invariant.goesOn
    (hpc : (t.threads p).prepaid = 0 ∧ (t.threads p).owed = 0 ∧
      ∀ j, (t.threads p).initializes j = 0)
    (hnext : next.prepaid = 0 ∧ next.owed = 0 ∧ ∀ j, next.initializes j = 0)
    (hclean : ∀ paths, next ≠ .cleaning paths) : (t.move p next).Invariant members :=
  h.moves hp (fun j => by rw [hpc.2.2, hnext.2.2]) (by rw [hpc.1, hpc.2.1, hnext.1, hnext.2.1])
    fun paths hnow => absurd hnow (hclean paths)

theorem Invariant.go (hcond : t.Rechecked (p, .go)) (hstep : t.go p = some u) :
    u.Invariant members := by
  unfold TrackedJobs.go at hstep
  unfold Rechecked at hcond
  split at hstep
  · -- `existing`
    rename_i hpc
    cases hstep
    refine h.goesOn hp (by rw [hpc]; exact ⟨rfl, rfl, fun _ => rfl⟩) ?_ ?_ <;> split <;>
      simp [Pc.prepaid, Pc.owed, Pc.initializes]
  · -- `existingPending`
    rename_i hpc
    cases hstep
    refine h.goesOn hp (by rw [hpc]; exact ⟨rfl, rfl, fun _ => rfl⟩) ?_ ?_ <;> split <;>
      simp [Pc.prepaid, Pc.owed, Pc.initializes]
  · -- `registering`
    rename_i hpc
    cases hstep
    rw [hpc] at hcond
    exact h.register hp hpc hcond
  · -- `initializingNew`
    rename_i hpc
    cases hstep
    refine h.initializeJob hp (fun k => ?_) (by rw [hpc]; rfl) fun _ hnow => by cases hnow
    rw [hpc]
    simp [Pc.initializes, eq_comm]
  · -- `snapshot`
    rename_i hpc
    cases hstep
    exact h.goesOn hp (by rw [hpc]; exact ⟨rfl, rfl, fun _ => rfl⟩) ⟨rfl, rfl, fun _ => rfl⟩
      fun _ hnow => by cases hnow
  · -- The end of the check.
    rename_i expired after hpc
    cases hstep
    refine h.counts hp rfl rfl (fun j => ?_) ?_ (fun paths => ?_)
    · rw [hpc]
      cases after <;> rfl
    · rw [hpc]
      simp only [counted, countExpired]
      cases after <;> (simp only [Pc.prepaid, Pc.owed]; omega)
    · cases after <;> simp
  · -- `expiring`
    rename_i hpc
    cases hstep
    rw [hpc] at hcond
    split
    · rename_i hregistered
      exact h.expire hp hpc hregistered (hcond hregistered)
    · exact h.moves hp (fun _ => by rw [hpc]; rfl) (by rw [hpc]; rfl) fun _ hnow => by cases hnow
  · -- `promoting`
    rename_i j remaining expired after hpc
    cases hstep
    rw [hpc] at hcond
    split
    · rename_i hregistered
      refine h.classify hp hregistered (hcond hregistered) (.inl ⟨rfl, rfl⟩) (fun k => ?_) ?_
        fun _ hnow => by cases hnow
      · rw [hpc]
        simp [Pc.initializes]
      · rw [hpc]
        simp only [Pc.prepaid, Pc.owed]
        omega
    · exact h.moves hp (fun _ => by rw [hpc]; rfl) (by rw [hpc]; rfl) fun _ hnow => by cases hnow
  · -- `initializing`
    rename_i hpc
    cases hstep
    refine h.initializeJob hp (fun k => ?_) (by rw [hpc]; rfl) fun _ hnow => by cases hnow
    rw [hpc]
    simp [Pc.initializes, eq_comm]
  · -- `counting`
    rename_i hpc
    cases hstep
    refine h.counts hp rfl rfl (fun _ => by rw [hpc]; rfl) ?_ fun _ hnow => by cases hnow
    rw [hpc]
    simp only [counted, countPromoted, Pc.prepaid, Pc.owed]
    omega
  · -- `reading`
    rename_i hpc
    cases hstep
    refine h.goesOn hp (by rw [hpc]; exact ⟨rfl, rfl, fun _ => rfl⟩) ?_ ?_ <;> split <;>
      simp [Pc.prepaid, Pc.owed, Pc.initializes]
  · -- `looking`
    rename_i hpc
    cases hstep
    refine h.goesOn hp (by rw [hpc]; exact ⟨rfl, rfl, fun _ => rfl⟩) ?_ ?_ <;> split <;>
      simp [Pc.prepaid, Pc.owed, Pc.initializes]
  · -- `rereading`
    rename_i hpc
    cases hstep
    refine h.goesOn hp (by rw [hpc]; exact ⟨rfl, rfl, fun _ => rfl⟩) ?_ ?_ <;> split <;>
      simp [Pc.prepaid, Pc.owed, Pc.initializes]
  · -- `demoting`
    rename_i hpc
    cases hstep
    rw [hpc] at hcond
    refine h.classify hp hcond.1 hcond.2 (.inr ⟨rfl, rfl⟩) (fun k => ?_) ?_
      fun _ hnow => by cases hnow
    · rw [hpc]
      simp [Pc.initializes]
    · rw [hpc]
      rfl
  · -- `recording`
    rename_i hpc
    cases hstep
    refine h.counts hp rfl rfl (fun _ => by rw [hpc]; rfl) ?_ fun _ hnow => by cases hnow
    rw [hpc]
    simp only [counted, recordDeferredSingleDemotion, Pc.prepaid, Pc.owed]
    omega
  · -- The end of the clean-up.
    rename_i hpc
    cases hstep
    exact h.goesOn hp (by rw [hpc]; exact ⟨rfl, rfl, fun _ => rfl⟩) ⟨rfl, rfl, fun _ => rfl⟩
      fun _ hnow => by cases hnow
  · rename_i hpc
    cases hstep
    exact h.cleanupJob hp hpc
  · cases hstep

end

theorem Invariant.step (h : t.Invariant members) {choice : Choice}
    (hcond : t.Rechecked (p, choice)) (hstep : (system members).step t (p, choice) = some u) :
    u.Invariant members := by
  simp only [system] at hstep
  split at hstep
  · rename_i hp
    unfold stepThread at hstep
    split at hstep
    · exact h.go hp hcond hstep
    · rename_i hpc
      cases hstep
      exact h.goesOn hp (by rw [hpc]; exact ⟨rfl, rfl, fun _ => rfl⟩) ⟨rfl, rfl, fun _ => rfl⟩
        fun _ hnow => by cases hnow
    · -- A new job that is not pending is counted in advance.
      rename_i mode path hpc
      cases hstep
      refine h.counts hp (by cases mode <;> rfl) (by cases mode <;> rfl)
        (fun _ => by rw [hpc]; rfl) ?_ fun _ hnow => by cases hnow
      rw [hpc]
      cases mode <;> simp only [counted, countNew, Pc.prepaid, Pc.owed] <;> omega
    · rename_i hpc
      cases hstep
      exact h.moves hp (fun _ => by rw [hpc]; rfl) (by rw [hpc]; rfl) fun _ hnow => by cases hnow
    · rename_i hpc
      cases hstep
      exact h.moves hp (fun _ => by rw [hpc]; rfl) (by rw [hpc]; rfl) fun _ hnow => by cases hnow
    · rename_i hpc
      cases hstep
      exact h.moves hp (fun _ => by rw [hpc]; rfl) (by rw [hpc]; rfl) fun _ hnow => by cases hnow
    · exact absurd hcond (by simp [Rechecked])
    · exact absurd hcond (by simp [Rechecked])
    · exact h.start hp ‹t.threads p = .idle› hstep
    · cases hstep
  · cases hstep

theorem invariant_fresh : fresh.Invariant members where
  sound := ⟨fun _ _ h => absurd h (by simp [fresh, JobTable.empty, Dict.get?, Dict.empty]),
    fun _ _ h => absurd h (by simp [fresh, JobTable.empty])⟩
  due _ := (Nat.zero_add _).trans (Finset.sum_eq_zero fun _ _ => rfl)
  accounts := by
    have hprepaid : ∑ q ∈ members, (fresh.threads q).prepaid = 0 :=
      Finset.sum_eq_zero fun _ _ => rfl
    have howed : ∑ q ∈ members, (fresh.threads q).owed = 0 :=
      Finset.sum_eq_zero fun _ _ => rfl
    rw [hprepaid, howed]
    rfl
  cleaning _ _ h := by cases h

/-- In a run in which the tests that the code leaves out would have come out well, each job is
classified once and the counters add up. -/
theorem classified_once_of_rechecked
    (h : (system members).Reachable Rechecked t) : t.ClassifiedOnce members := by
  have hinv : t.Invariant members :=
    h.invariant (fun _ hinit => hinit ▸ invariant_fresh) fun _ _ _ ht hcond hstep =>
      ht.step hcond hstep
  have hidle : t.Quiescent members → ∀ w : Pc → Nat, w .idle = 0 →
      ∑ q ∈ members, w (t.threads q) = 0 := fun hquiet w hw =>
    Finset.sum_eq_zero fun q hq => by rw [hquiet q hq, hw]
  refine ⟨hinv.sound.classified, fun j => ?_, fun hquiet j => ?_, fun hquiet => ?_⟩
  · have hdue := hinv.due j
    omega
  · have hdue := hinv.due j
    rwa [hidle hquiet (Pc.initializes j) rfl, Nat.add_zero] at hdue
  · have haccounts := hinv.accounts
    rw [hidle hquiet Pc.prepaid rfl, hidle hquiet Pc.owed rfl] at haccounts
    exact haccounts.symm

theorem init_fresh : (system members).init fresh :=
  rfl

/-- Thread 1 submits a log and the polling thread promotes the job; another log is submitted and
asked for, so that its job becomes a single job. -/
def inTurn : List (Nat × Choice) :=
  [(1, .submit "a.out"), (1, .create (some .pending)), (1, .go),
    (0, .check), (0, .go), (0, .promote), (0, .go), (0, .go), (0, .go), (0, .go),
    (1, .submit "b.out"), (1, .create (some .pending)), (1, .go),
    (1, .analyze "b.out"), (1, .go), (1, .go), (1, .keep), (1, .go), (1, .go), (1, .go),
    (1, .go), (1, .go)]

/-- Both jobs are classified once. -/
theorem classified_once_inTurn : ∃ t, (system {0, 1}).Reachable Rechecked t ∧
    (t.totalSplitlog = 1 ∧ t.totalSingle = 1) ∧ t.ClassifiedOnce {0, 1} := by
  have hrun : ((system {0, 1}).execute Rechecked fresh inTurn).any (fun t =>
      decide (t.totalSplitlog = 1) && decide (t.totalSingle = 1)) = true := by
    decide +kernel
  obtain ⟨t, hreach, htest⟩ := System.exists_reachable_of_execute init_fresh hrun
  simp only [Bool.and_eq_true, decide_eq_true_eq] at htest
  exact ⟨t, hreach, htest, classified_once_of_rechecked hreach⟩

/-- A job is submitted, and two checks take it into their snapshots. -/
def twoSnapshots (second : List (Nat × Choice)) : List (Nat × Choice) :=
  [(1, .submit "a.out"), (1, .create (some .pending)), (1, .go), (0, .check), (0, .go)] ++ second

/-- Both checks promote the job. -/
def promotedTwice : List (Nat × Choice) :=
  twoSnapshots [(1, .analyze "a.out"), (1, .go), (1, .go), (1, .promote), (0, .promote),
    (1, .go), (0, .go), (1, .go), (0, .go), (1, .go), (0, .go), (1, .go), (0, .go), (1, .go),
    (1, .go)]

/-- The polling thread promotes the job after the GET request has read that it is pending. -/
def demotedAgain : List (Nat × Choice) :=
  twoSnapshots [(1, .analyze "a.out"), (1, .go), (1, .go), (1, .keep), (1, .go), (1, .go),
    (1, .go), (0, .promote), (0, .go), (0, .go), (0, .go), (0, .go), (1, .go), (1, .go)]

/-- A job that is promoted twice is initialized twice and counted twice; one that is demoted
after it has been promoted is counted for both modes. -/
theorem not_classified_once :
    (∃ t, (system {0, 1}).Reachable (fun _ _ => True) t ∧ t.table.jobs.length = 1 ∧
      t.totalSplitlog = 2 ∧ t.table.initializedOf 0 = 2 ∧ ¬ t.ClassifiedOnce {0, 1}) ∧
    ∃ t, (system {0, 1}).Reachable (fun _ _ => True) t ∧
      t.table.jobs[0]?.map Job.outcomes = some [.splitlog, .single] ∧
      t.totalSplitlog + t.totalSingle = 2 ∧ ¬ t.ClassifiedOnce {0, 1} := by
  constructor
  · have hrun : ((system {0, 1}).execute (fun _ _ => True) fresh promotedTwice).any (fun t =>
        decide (t.table.jobs.length = 1) && decide (t.totalSplitlog = 2) &&
          decide (t.table.initializedOf 0 = 2)) = true := by
      decide +kernel
    obtain ⟨t, hreach, htest⟩ := System.exists_reachable_of_execute init_fresh hrun
    simp only [Bool.and_eq_true, decide_eq_true_eq] at htest
    refine ⟨t, hreach, htest.1.1, htest.1.2, htest.2, fun hclassified => ?_⟩
    have hle := hclassified.initialized_le 0
    rw [htest.2, JobTable.splitlogOf] at hle
    split at hle <;> omega
  · have hrun : ((system {0, 1}).execute (fun _ _ => True) fresh demotedAgain).any (fun t =>
        decide (t.table.jobs[0]?.map Job.outcomes = some [.splitlog, .single]) &&
          decide (t.totalSplitlog + t.totalSingle = 2)) = true := by
      decide +kernel
    obtain ⟨t, hreach, htest⟩ := System.exists_reachable_of_execute init_fresh hrun
    simp only [Bool.and_eq_true, decide_eq_true_eq] at htest
    refine ⟨t, hreach, htest.1, htest.2, fun hclassified => ?_⟩
    obtain ⟨job, hjob, houtcomes⟩ := Option.map_eq_some_iff.mp htest.1
    have hjobs := hclassified.classified 0 job hjob
    unfold Job.Classified at hjobs
    rw [houtcomes] at hjobs
    split at hjobs <;> simp at hjobs

end TrackedJobs

end ResiliencyExt.Attribution.Tracking
