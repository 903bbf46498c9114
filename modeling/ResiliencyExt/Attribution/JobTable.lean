import ResiliencyExt.Attribution.TrackedJobs

set_option autoImplicit false

/-!
# Tracked jobs: what an operation does to the table

Each operation on the table of jobs by itself: it keeps the table sound where its
job is pending, and it changes the number of pending jobs by what it does to its
own job, because a job is registered under no path but its own.
-/

namespace ResiliencyExt.Attribution.Tracking

open Foundation List

namespace JobTable

theorem isRegistered_iff {d : JobTable} {j : Nat} :
    d.IsRegistered j ↔
      ∃ job, d.jobs[j]? = some job ∧ d.registered.get? job.path = some j := by
  rw [IsRegistered, Option.bind_eq_some_iff]

/-- Every registered job is registered under its own path, and every job is classified. -/
structure Sound (d : JobTable) : Prop where
  linked : ∀ (path : String) (j : Nat), d.registered.get? path = some j →
    ∃ job, d.jobs[j]? = some job ∧ job.path = path
  classified : ∀ (j : Nat) (job : Job), d.jobs[j]? = some job →
    job.Classified (d.IsRegistered j)

/-- A job that is registered and pending is one of which nothing has been made yet. -/
theorem origin_of_pending {job : Job} {isRegistered : Prop} (h : job.Classified isRegistered)
    (hregistered : isRegistered) (hmode : job.mode = .pending) :
    job.origin = .pending ∧ job.outcomes = [] := by
  unfold Job.Classified at h
  split at h
  · rename_i horigin
    rcases h with ⟨hnil, -, -⟩ | ⟨-, hother⟩ | ⟨-, hother⟩ | ⟨-, -, hnot⟩
    · exact ⟨horigin, hnil⟩
    · rw [hmode] at hother
      cases hother
    · rw [hmode] at hother
      cases hother
    · exact absurd hregistered hnot
  · rename_i hother
    exact absurd (h.2.symm.trans hmode) hother

/-! ## Changing one job -/

/-- A change of a job's record. -/
def modify (d : JobTable) (j : Nat) (f : Job → Job) : JobTable :=
  { d with jobs := d.jobs.modify j f }

variable {d : JobTable} {j : Nat} {f : Job → Job}

variable {job : Job} {path : String} (k : Nat) (mode : JobMode)

theorem getElem?_modify_self : (d.modify j f).jobs[j]? = d.jobs[j]?.map f := by
  rw [modify, getElem?_modify]
  simp

theorem getElem?_modify_of_ne {k : Nat} (h : k ≠ j) :
    (d.modify j f).jobs[k]? = d.jobs[k]? := by
  rw [modify, getElem?_modify]
  simp [Ne.symm h]

theorem length_modify : (d.modify j f).jobs.length = d.jobs.length := by
  simp [modify]

/-- A change that keeps the path leaves the same jobs registered. -/
theorem isRegistered_modify (hpath : ∀ job, (f job).path = job.path) (k : Nat) :
    (d.modify j f).IsRegistered k ↔ d.IsRegistered k := by
  rw [isRegistered_iff, isRegistered_iff]
  by_cases heq : k = j
  · subst heq
    rw [getElem?_modify_self]
    constructor
    · rintro ⟨job, hjob, hregistered⟩
      obtain ⟨old, hold, rfl⟩ := Option.map_eq_some_iff.mp hjob
      exact ⟨old, hold, hpath old ▸ hregistered⟩
    · rintro ⟨job, hjob, hregistered⟩
      exact ⟨f job, by rw [hjob]; rfl, (hpath job).symm ▸ hregistered⟩
  · rw [getElem?_modify_of_ne heq]
    exact Iff.rfl

theorem Sound.modify (h : d.Sound) (hpath : ∀ job, (f job).path = job.path)
    (hjob : ∀ job, d.jobs[j]? = some job → job.Classified (d.IsRegistered j) →
      (f job).Classified (d.IsRegistered j)) : (d.modify j f).Sound where
  linked path k hk := by
    obtain ⟨job, hjobs, rfl⟩ := h.linked path k hk
    by_cases heq : k = j
    · subst heq
      exact ⟨f job, by rw [getElem?_modify_self, hjobs]; rfl, hpath job⟩
    · exact ⟨job, by rw [getElem?_modify_of_ne heq, hjobs], rfl⟩
  classified k job hk := by
    rw [propext (isRegistered_modify hpath k)]
    by_cases heq : k = j
    · subst heq
      rw [getElem?_modify_self] at hk
      obtain ⟨old, hold, rfl⟩ := Option.map_eq_some_iff.mp hk
      exact hjob old hold (h.classified k old hold)
    · rw [getElem?_modify_of_ne heq] at hk
      exact h.classified k job hk

/-- A change that sets the mode. -/
theorem modeOf_modify :
    (d.modify j f).modeOf k = if k = j then (d.jobs[j]?.map f).map Job.mode else d.modeOf k := by
  unfold modeOf
  split
  · rename_i heq
    rw [heq, getElem?_modify_self]
  · rename_i hne
    rw [getElem?_modify_of_ne hne]

theorem modeOf_modify_of_same (hmode : ∀ job, (f job).mode = job.mode) :
    (d.modify j f).modeOf = d.modeOf := by
  funext k
  rw [modeOf_modify]
  split
  · rename_i heq
    rw [heq, modeOf, Option.map_map]
    exact congrArg (Option.map · _) (funext hmode)
  · rfl

theorem initializedOf_modify_of_same (hinit : ∀ job, (f job).initialized = job.initialized)
    (k : Nat) : (d.modify j f).initializedOf k = d.initializedOf k := by
  unfold initializedOf
  by_cases heq : k = j
  · rw [heq, getElem?_modify_self, Option.map_map]
    exact congrArg (fun g => (Option.map g _).getD 0) (funext hinit)
  · rw [getElem?_modify_of_ne heq]

/-! ## The number of pending jobs -/

theorem pendingJobCount_eq (d : JobTable) :
    d.pendingJobCount =
      d.registered.entries.countP fun e => d.modeOf e.2 = some .pending := by
  rw [pendingJobCount, pendingJobs, ← countP_eq_length_filter, countP_map]
  rfl

/-- A registered job's entry, and the other entries, which are for other jobs. -/
theorem Sound.exists_entries (h : d.Sound) (hjob : d.jobs[j]? = some job)
    (hregistered : d.registered.get? job.path = some j) : ∃ front back,
      d.registered.entries = front ++ (job.path, j) :: back ∧
      (d.registered.erase job.path).entries = front ++ back ∧
      ∀ e ∈ front ++ back, e.2 ≠ j := by
  obtain ⟨front, back, hentries, herase, hothers⟩ := Dict.exists_split_of_get? hregistered
  refine ⟨front, back, hentries, herase, fun e he heq => hothers e he ?_⟩
  have hmem : e ∈ d.registered.entries := by
    rw [hentries]
    rcases mem_append.mp he with hfront | hback
    · exact mem_append_left _ hfront
    · exact mem_append_right _ (mem_cons_of_mem _ hback)
  obtain ⟨other, hother, hpath⟩ := h.linked e.1 e.2 (Dict.get?_eq_some_of_mem hmem)
  rw [heq, hjob] at hother
  rw [← hpath, Option.some.inj hother]

/-- The other entries count the same when only the job's mode changes. -/
theorem countP_of_ne {entries : List (String × Nat)} {mode mode' : Nat → Option JobMode}
    (hothers : ∀ e ∈ entries, e.2 ≠ j) (hmode : ∀ k, k ≠ j → mode' k = mode k) :
    entries.countP (fun e => mode' e.2 = some .pending) =
      entries.countP fun e => mode e.2 = some .pending := by
  refine countP_congr fun e he => ?_
  rw [hmode e.2 (hothers e he)]

/-- A registered pending job that gets another mode is one pending job less. -/
theorem pendingJobCount_modify (h : d.Sound) (hregistered : d.IsRegistered j)
    (hpending : d.modeOf j = some .pending) (hmode : ∀ job, (f job).mode ≠ .pending) :
    (d.modify j f).pendingJobCount + 1 = d.pendingJobCount := by
  obtain ⟨job, hjob, hpath⟩ := isRegistered_iff.mp hregistered
  obtain ⟨front, back, hentries, -, hothers⟩ := h.exists_entries hjob hpath
  have hnow : (d.modify j f).modeOf j ≠ some .pending := by
    rw [modeOf_modify, if_pos rfl, hjob]
    exact fun heq => hmode job (Option.some.inj heq)
  have hsame : ∀ k, k ≠ j → (d.modify j f).modeOf k = d.modeOf k := fun k hk => by
    rw [modeOf_modify, if_neg hk]
  rw [pendingJobCount_eq, pendingJobCount_eq]
  change countP _ d.registered.entries + 1 = _
  rw [hentries, countP_append, countP_append,
    countP_cons_of_neg (by simpa using hnow), countP_cons_of_pos (by simpa using hpending),
    countP_of_ne (fun e he => hothers e (mem_append_left _ he)) hsame,
    countP_of_ne (fun e he => hothers e (mem_append_right _ he)) hsame]
  omega

/-! ## The operations -/

theorem classify_eq (outcome : Outcome) :
    d.classify j mode outcome = d.modify j fun job =>
      { job with mode := mode, outcomes := job.outcomes ++ [outcome] } :=
  rfl

theorem initializeJob_eq : d.initializeJob j = d.modify j fun job =>
    { job with initialized := job.initialized + 1 } :=
  rfl

/-- A pending job becomes a split-log job or a single job. -/
theorem Sound.classify (h : d.Sound) (hregistered : d.IsRegistered j)
    (hpending : d.modeOf j = some .pending) {mode : JobMode} {outcome : Outcome}
    (hmatch : mode = .splitlog ∧ outcome = .splitlog ∨ mode = .single ∧ outcome = .single) :
    (d.classify j mode outcome).Sound := by
  rw [classify_eq]
  refine h.modify (fun _ => rfl) fun job hjob hclassified => ?_
  have hmode : job.mode = .pending := by
    rw [modeOf, hjob] at hpending
    exact Option.some.inj hpending
  obtain ⟨horigin, hnil⟩ := origin_of_pending hclassified hregistered hmode
  unfold Job.Classified
  simp only [horigin, hnil, nil_append]
  rcases hmatch with ⟨rfl, rfl⟩ | ⟨rfl, rfl⟩
  · exact .inr (.inl ⟨rfl, rfl⟩)
  · exact .inr (.inr (.inl ⟨rfl, rfl⟩))

theorem modeOf_classify {mode : JobMode} {outcome : Outcome} (hexists : d.modeOf j ≠ none)
    (k : Nat) :
    (d.classify j mode outcome).modeOf k = if k = j then some mode else d.modeOf k := by
  rw [classify_eq, modeOf_modify]
  split
  · cases hjob : d.jobs[j]? with
    | none =>
      rw [modeOf, hjob] at hexists
      exact absurd rfl hexists
    | some job => rfl
  · rfl

theorem initializedOf_classify (outcome : Outcome) (k : Nat) :
    (d.classify j mode outcome).initializedOf k = d.initializedOf k :=
  initializedOf_modify_of_same (f := fun job =>
    { job with mode := mode, outcomes := job.outcomes ++ [outcome] }) (fun _ => rfl) k

/-- The initialization of a job changes no more than its record. -/
theorem Sound.initializeJob (h : d.Sound) : (d.initializeJob j).Sound :=
  h.modify (fun _ => rfl) fun _ _ hclassified => hclassified

theorem modeOf_initializeJob : (d.initializeJob j).modeOf = d.modeOf :=
  modeOf_modify_of_same fun _ => rfl

theorem initializedOf_initializeJob (hexists : d.modeOf j ≠ none) (k : Nat) :
    (d.initializeJob j).initializedOf k = d.initializedOf k + if k = j then 1 else 0 := by
  unfold initializedOf
  rw [initializeJob_eq]
  by_cases heq : k = j
  · subst heq
    rw [getElem?_modify_self, if_pos rfl]
    cases hjob : d.jobs[k]? with
    | none =>
      rw [modeOf, hjob] at hexists
      exact absurd rfl hexists
    | some job => rfl
  · rw [getElem?_modify_of_ne heq, if_neg heq, Nat.add_zero]

/-- Taking a path out leaves the jobs of the other paths registered. -/
theorem isRegistered_erase {k : Nat} (hjob : d.jobs[k]? = some job) :
    ({ d with registered := d.registered.erase path } : JobTable).IsRegistered k ↔
      d.IsRegistered k ∧ job.path ≠ path := by
  rw [isRegistered_iff, isRegistered_iff]
  constructor
  · rintro ⟨other, hother, hregistered⟩
    obtain rfl : other = job := Option.some.inj (hother.symm.trans hjob)
    refine ⟨⟨other, hjob, Dict.get?_of_get?_erase hregistered⟩, ?_⟩
    rintro rfl
    change (d.registered.erase other.path).get? other.path = some k at hregistered
    rw [Dict.get?_erase_self] at hregistered
    cases hregistered
  · rintro ⟨⟨other, hother, hregistered⟩, hne⟩
    obtain rfl : other = job := Option.some.inj (hother.symm.trans hjob)
    exact ⟨other, hjob, (Dict.get?_erase_of_ne _ hne).trans hregistered⟩

/-- An expired job's record, with the job taken out. -/
theorem expire_eq (hjob : d.jobs[j]? = some job) :
    d.expire j =
      { d.modify j (fun job => { job with outcomes := job.outcomes ++ [.expired] }) with
        registered := d.registered.erase job.path } := by
  unfold expire
  rw [hjob]
  rfl

theorem Sound.expire (h : d.Sound) (hregistered : d.IsRegistered j)
    (hpending : d.modeOf j = some .pending) : (d.expire j).Sound := by
  obtain ⟨job, hjob, hpath⟩ := isRegistered_iff.mp hregistered
  have hmode : job.mode = .pending := by
    rw [modeOf, hjob] at hpending
    exact Option.some.inj hpending
  obtain ⟨horigin, hnil⟩ := origin_of_pending (h.classified j job hjob) hregistered hmode
  let e := d.modify j fun job => { job with outcomes := job.outcomes ++ [.expired] }
  have hself : e.jobs[j]? = some { job with outcomes := job.outcomes ++ [.expired] } := by
    rw [getElem?_modify_self, hjob]
    rfl
  rw [expire_eq hjob]
  constructor
  · intro path k hk
    have hold := Dict.get?_of_get?_erase hk
    obtain ⟨other, hother, rfl⟩ := h.linked path k hold
    by_cases heq : k = j
    · subst heq
      obtain rfl : other = job := Option.some.inj (hother.symm.trans hjob)
      exact ⟨_, hself, rfl⟩
    · exact ⟨other, (getElem?_modify_of_ne heq).trans hother, rfl⟩
  · intro k other hk
    change e.jobs[k]? = some other at hk
    change other.Classified
      (({ e with registered := e.registered.erase job.path } : JobTable).IsRegistered k)
    rw [propext (isRegistered_erase hk)]
    by_cases heq : k = j
    · subst heq
      obtain rfl := Option.some.inj (hself.symm.trans hk)
      unfold Job.Classified
      simp only [horigin, hnil, nil_append]
      exact .inr (.inr (.inr ⟨trivial, hmode, fun hnot => hnot.2 rfl⟩))
    · have hk' := (getElem?_modify_of_ne heq).symm.trans hk
      have hothers : e.IsRegistered k ∧ other.path ≠ job.path ↔ d.IsRegistered k := by
        rw [propext (isRegistered_modify (d := d) (j := j)
          (f := fun job => { job with outcomes := job.outcomes ++ [.expired] })
          (fun _ => rfl) k)]
        refine ⟨fun hboth => hboth.1, fun hboth => ⟨hboth, fun hsame => heq ?_⟩⟩
        obtain ⟨again, hagain, hwhere⟩ := isRegistered_iff.mp hboth
        obtain rfl : again = other := Option.some.inj (hagain.symm.trans hk')
        rw [hsame, hpath] at hwhere
        exact (Option.some.inj hwhere).symm
      rw [propext hothers]
      exact h.classified k other hk'

theorem modeOf_expire : (d.expire j).modeOf = d.modeOf :=
  modeOf_modify_of_same (f := fun job => { job with outcomes := job.outcomes ++ [.expired] })
    fun _ => rfl

theorem initializedOf_expire : (d.expire j).initializedOf k = d.initializedOf k :=
  initializedOf_modify_of_same
    (f := fun job => { job with outcomes := job.outcomes ++ [.expired] }) (fun _ => rfl) k

theorem pendingJobCount_expire (h : d.Sound) (hregistered : d.IsRegistered j)
    (hpending : d.modeOf j = some .pending) :
    (d.expire j).pendingJobCount + 1 = d.pendingJobCount := by
  obtain ⟨job, hjob, hpath⟩ := isRegistered_iff.mp hregistered
  obtain ⟨front, back, hentries, herase, -⟩ := h.exists_entries hjob hpath
  rw [pendingJobCount_eq, pendingJobCount_eq, modeOf_expire]
  have hentries' : (d.expire j).registered.entries = front ++ back := by
    rw [expire_eq hjob]
    exact herase
  rw [hentries', hentries, countP_append, countP_append,
    countP_cons_of_pos (by simpa using hpending)]
  omega

/-! ## New jobs and old ones -/

theorem getElem?_register (path : String) (mode : JobMode) (k : Nat) :
    (d.register path mode).jobs[k]? =
      if k = d.jobs.length then some ⟨path, mode, mode, [], 0⟩ else d.jobs[k]? := by
  change (d.jobs ++ [_])[k]? = _
  split
  · rename_i heq
    rw [heq, getElem?_concat_length]
  · rename_i hne
    rcases Nat.lt_or_gt_of_ne hne with hlt | hgt
    · exact getElem?_append_left hlt
    · rw [getElem?_eq_none (by simp; omega), getElem?_eq_none (by omega)]

theorem lt_length_of_getElem? (h : d.jobs[j]? = some job) : j < d.jobs.length :=
  (List.getElem?_eq_some_iff.mp h).1

/-- A job under a free path is registered beside the others. -/
theorem Sound.register (h : d.Sound) (hfree : d.registered.get? path = none) (mode : JobMode) :
    (d.register path mode).Sound := by
  have hget : ∀ p, (d.register path mode).registered.get? p =
      if p = path then some d.jobs.length else d.registered.get? p := fun p =>
    Dict.get?_set _ _ _ _
  constructor
  · intro p k hk
    rw [hget] at hk
    split at hk
    · rename_i heq
      obtain rfl := Option.some.inj hk
      exact ⟨_, by rw [getElem?_register, if_pos rfl], heq.symm⟩
    · obtain ⟨job, hjob, hpath⟩ := h.linked p k hk
      refine ⟨job, ?_, hpath⟩
      rw [getElem?_register, if_neg (Nat.ne_of_lt (lt_length_of_getElem? hjob))]
      exact hjob
  · intro k job hk
    by_cases heq : k = d.jobs.length
    · -- The new job.
      rw [getElem?_register, if_pos heq] at hk
      obtain rfl := Option.some.inj hk
      have hregistered : (d.register path mode).IsRegistered k := by
        rw [isRegistered_iff]
        exact ⟨_, by rw [getElem?_register, if_pos heq], by rw [hget, if_pos rfl, heq]⟩
      unfold Job.Classified
      cases mode with
      | pending => exact .inl ⟨rfl, rfl, hregistered⟩
      | single => exact ⟨rfl, rfl⟩
      | splitlog => exact ⟨rfl, rfl⟩
    · rw [getElem?_register, if_neg heq] at hk
      have hothers : (d.register path mode).IsRegistered k ↔ d.IsRegistered k := by
        rw [isRegistered_iff, isRegistered_iff, getElem?_register, if_neg heq]
        refine exists_congr fun other => and_congr_right fun _ => ?_
        rw [hget]
        split
        · rename_i hpath
          rw [hpath, hfree]
          exact iff_of_false (fun hnew => heq (Option.some.inj hnew).symm) (by simp)
        · exact Iff.rfl
      rw [propext hothers]
      exact h.classified k job hk

theorem modeOf_register (path : String) (mode : JobMode) (k : Nat) :
    (d.register path mode).modeOf k =
      if k = d.jobs.length then some mode else d.modeOf k := by
  rw [modeOf, getElem?_register]
  split <;> rfl

theorem initializedOf_register (path : String) (mode : JobMode) (k : Nat) :
    (d.register path mode).initializedOf k = d.initializedOf k := by
  rw [initializedOf, getElem?_register]
  split
  · rename_i heq
    rw [initializedOf, heq, getElem?_eq_none (Nat.le_refl _)]
    rfl
  · rfl

theorem length_register (path : String) (mode : JobMode) :
    (d.register path mode).jobs.length = d.jobs.length + 1 :=
  length_append

theorem pendingJobCount_register (h : d.Sound) (hfree : d.registered.get? path = none)
    (mode : JobMode) :
    (d.register path mode).pendingJobCount =
      d.pendingJobCount + if mode = .pending then 1 else 0 := by
  have hnotMem : path ∉ d.registered.keys := fun hmem => by
    obtain ⟨k, hk⟩ := Dict.exists_get?_of_mem hmem
    rw [hfree] at hk
    cases hk
  have hentries : (d.register path mode).registered.entries =
      d.registered.entries ++ [(path, d.jobs.length)] :=
    Dict.entries_alter_of_not_mem _ _ hnotMem
  rw [pendingJobCount_eq, pendingJobCount_eq, hentries, countP_append, countP_singleton,
    modeOf_register, if_pos rfl]
  congr 1
  · refine countP_congr fun e he => ?_
    obtain ⟨job, hjob, -⟩ := h.linked e.1 e.2 (Dict.get?_eq_some_of_mem he)
    rw [modeOf_register, if_neg (Nat.ne_of_lt (lt_length_of_getElem? hjob))]
  · simp

/-- Where a split-log job is registered stays so when another mode or path is concerned. -/
theorem HoldsSplitlog.mono {e : JobTable} (h : d.HoldsSplitlog path)
    (hget : ∀ k, d.registered.get? path = some k → d.modeOf k = some .splitlog →
      e.registered.get? path = some k ∧ e.modeOf k = some .splitlog) :
    e.HoldsSplitlog path := by
  obtain ⟨k, hk, hmode⟩ := Option.bind_eq_some_iff.mp h
  obtain ⟨hk', hmode'⟩ := hget k hk hmode
  exact Option.bind_eq_some_iff.mpr ⟨k, hk', hmode'⟩

/-- A job that is no pending job is cleaned up. -/
theorem Sound.cleanupJob (h : d.Sound) (hholds : d.HoldsSplitlog path) :
    (d.cleanupJob path).Sound := by
  obtain ⟨j, hj, hmode⟩ := Option.bind_eq_some_iff.mp hholds
  constructor
  · exact fun p k hk => h.linked p k (Dict.get?_of_get?_erase hk)
  · intro k job hk
    change d.jobs[k]? = some job at hk
    have hclassified := h.classified k job hk
    change job.Classified
      (({ d with registered := d.registered.erase path } : JobTable).IsRegistered k)
    rw [propext (isRegistered_erase hk)]
    by_cases hpath : job.path = path
    · -- A job that is registered here is the split-log job.
      have hother : d.IsRegistered k → job.mode = .splitlog := by
        intro hregistered
        obtain ⟨again, hagain, hwhere⟩ := isRegistered_iff.mp hregistered
        obtain rfl : again = job := Option.some.inj (hagain.symm.trans hk)
        rw [hpath, hj] at hwhere
        obtain rfl := Option.some.inj hwhere
        rw [modeOf, hk] at hmode
        exact Option.some.inj hmode
      unfold Job.Classified at hclassified ⊢
      split
      · rename_i horigin
        rw [horigin] at hclassified
        rcases hclassified with ⟨-, hpending, hregistered⟩ | hrest
        · rw [hother hregistered] at hpending
          cases hpending
        · rcases hrest with hsplit | hsingle | ⟨hexpired, hpending, -⟩
          · exact .inr (.inl hsplit)
          · exact .inr (.inr (.inl hsingle))
          · exact .inr (.inr (.inr ⟨hexpired, hpending, fun hboth => hboth.2 hpath⟩))
      · split at hclassified
        · rename_i hnot _ horigin
          exact absurd horigin hnot
        · exact hclassified
    · rw [propext (and_iff_left hpath)]
      exact hclassified

theorem pendingJobCount_cleanupJob (hholds : d.HoldsSplitlog path) :
    (d.cleanupJob path).pendingJobCount = d.pendingJobCount := by
  obtain ⟨j, hj, hmode⟩ := Option.bind_eq_some_iff.mp hholds
  obtain ⟨front, back, hentries, herase, -⟩ := Dict.exists_split_of_get? hj
  rw [pendingJobCount_eq, pendingJobCount_eq]
  change countP _ (d.registered.erase path).entries = _
  rw [herase, hentries, countP_append, countP_append,
    countP_cons_of_neg (by simp [hmode])]
  rfl

end JobTable

end ResiliencyExt.Attribution.Tracking
