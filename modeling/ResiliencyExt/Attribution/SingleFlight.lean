import ResiliencyExt.Attribution.RequestCoalescer

set_option autoImplicit false

/-!
# One compute for each key

An in-flight entry belongs to the task that has created its future: the task is on its way
to the compute function, in it, or on its way from it, and the future is still open.  A task
that owns a key and has an open future has the entry.

A clean-up that finds a stuck entry removes it and resolves its future with a `TimeoutError`.
From then on the owner is given up, and another request may compute.  An owner removes the
entry of its key, whose ever it is: what is proved here is about runs in which an owner that
was given up does not come to its end while the key has the entry of another task.
-/

namespace ResiliencyExt.Attribution

open Foundation

variable {Key Value Exc : Type}

/-- The key that a task owns. -/
def Task.owned : Task Key Value Exc → Option Key
  | .owning key | .computing key _ | .storing key _ _ => some key
  | _ => none

namespace CoalescerState

variable {cfg : CoalescerConfig} {s u : CoalescerState Key Value Exc}

/-- What holds of a task at a place. -/
def Placed (s : CoalescerState Key Value Exc) (task : Nat) : Task Key Value Exc → Prop
  | .idle | .checking _ | .looking _ => s.futures task = none ∧ s.computed task = none
  | .deleting _ expired =>
    (s.futures task = none ∧ s.computed task = none) ∧ expired.leaked = []
  | .owning _ | .computing _ _ => s.computed task = none
  | .storing _ _ outcome => s.computed task = some outcome
  | .waiting future _ => (s.tasks future).owned ≠ none ∨ s.futures future ≠ none
  | .received future answer => s.futures future = some answer ∨ answer = .timeoutError
  | .answered _ | .gone => True

/-- The clean-up has removed the entry of the task. -/
def GivenUp (s : CoalescerState Key Value Exc) (task : Nat) : Prop :=
  s.futures task = some .timeoutError

/-- A resolved future stays as it is. -/
theorem resolve_of_some {futures : Nat → Option (Answer Value Exc)} {f : Nat}
    {before : Answer Value Exc} (hf : futures f = some before) (future : Nat)
    (answer : Answer Value Exc) : resolve futures future answer f = some before := by
  unfold resolve
  split
  · rw [hf, Option.some_or]
  · exact hf

theorem goTo_tasks_of_ne {t task : Nat} (hne : t ≠ task) (place : Task Key Value Exc) :
    (s.goTo task place).tasks t = s.tasks t :=
  if_neg hne

/-- What holds of a task at its place is about the task's own future and result, and about
the future that it waits for. -/
theorem Placed.frame {task : Nat} {place : Task Key Value Exc} (h : s.Placed task place)
    (hfuture : place.owned = none → s.futures task = none → u.futures task = none)
    (hcomputed : u.computed task = s.computed task)
    (howned : ∀ t, (s.tasks t).owned ≠ none → (u.tasks t).owned ≠ none ∨ u.futures t ≠ none)
    (hanswer : ∀ t answer, s.futures t = some answer → u.futures t = some answer) :
    u.Placed task place := by
  cases place with
  | waiting future since =>
    rcases h with hne | hne
    · exact howned future hne
    · obtain ⟨answer, hsome⟩ := Option.ne_none_iff_exists'.mp hne
      exact .inr (Option.ne_none_iff_exists'.mpr ⟨answer, hanswer _ _ hsome⟩)
  | received future answer => exact h.imp_left (hanswer _ _)
  | answered _ | gone => trivial
  | idle | checking _ | looking _ => exact ⟨hfuture rfl h.1, hcomputed.trans h.2⟩
  | deleting _ _ => exact ⟨⟨hfuture rfl h.1.1, hcomputed.trans h.1.2⟩, h.2⟩
  | owning _ | computing _ _ | storing _ _ _ => exact hcomputed.trans h

variable [DecidableEq Key]

@[simp]
theorem deleteStuck_tasks (s : CoalescerState Key Value Exc) (key : Key) :
    (s.deleteStuck key).tasks = s.tasks := by
  unfold deleteStuck
  split <;> rfl

theorem deleteExpiredKeys_tasks (s : CoalescerState Key Value Exc) (expired : Expired Key) :
    (s.deleteExpiredKeys expired).tasks = s.tasks := by
  have hfold : ∀ (keys : List Key) (s : CoalescerState Key Value Exc),
      (keys.foldl deleteStuck s).tasks = s.tasks := by
    intro keys
    induction keys with
    | nil => exact fun _ => rfl
    | cons key keys ih => exact fun s => (ih _).trans (deleteStuck_tasks s key)
  exact hfold expired.stuck _

/-- Entries and owners belong together. -/
structure Flight (s : CoalescerState Key Value Exc) : Prop where
  entry : ∀ {key entry}, s.inFlight.get? key = some entry →
    (s.tasks entry.future).owned = some key ∧ s.futures entry.future = none
  registered : ∀ {task key}, (s.tasks task).owned = some key → s.futures task = none →
    ∃ startedAt, s.inFlight.get? key = some ⟨task, startedAt⟩
  resolved : ∀ {task answer}, s.futures task = some answer →
    answer = .timeoutError ∨ ∃ outcome, s.computed task = some outcome ∧ outcome.answer = answer
  placed : ∀ task, s.Placed task (s.tasks task)

namespace Flight

/-- A task that owns the same as before goes to a place where it may be. -/
theorem goTo (h : s.Flight) {task : Nat} {place : Task Key Value Exc}
    (howned : place.owned = (s.tasks task).owned) (hplaced : s.Placed task place) :
    (s.goTo task place).Flight := by
  have hsame : ∀ t, ((s.goTo task place).tasks t).owned = (s.tasks t).owned := by
    intro t
    by_cases heq : t = task
    · subst heq
      simpa only [CoalescerState.goTo, if_true] using howned
    · simp only [CoalescerState.goTo, if_neg heq]
  refine ⟨fun hget => ?_, fun hown hopen => ?_, h.resolved, fun t => Placed.frame (s := s) ?_
    (fun _ => id) rfl (fun t hne => .inl ((hsame t).symm ▸ hne)) fun _ _ => id⟩
  · rw [hsame]
    exact h.entry hget
  · rw [hsame] at hown
    exact h.registered hown hopen
  · by_cases heq : t = task
    · subst heq
      simpa only [CoalescerState.goTo, if_true] using hplaced
    · simpa only [CoalescerState.goTo, if_neg heq] using h.placed t

/-- One key of the clean-up. -/
theorem deleteStuck (h : s.Flight) (key : Key) : (s.deleteStuck key).Flight := by
  unfold CoalescerState.deleteStuck
  split
  · exact h
  · rename_i entry hget
    obtain ⟨howner, hopen⟩ := h.entry hget
    have hfutures : ∀ f, f ≠ entry.future →
        resolve s.futures entry.future .timeoutError f = s.futures f :=
      fun f hne => if_neg hne
    have hself : resolve s.futures entry.future .timeoutError entry.future =
        some .timeoutError := by
      simp only [resolve, if_true, hopen, Option.none_or]
    refine ⟨fun hget' => ?_, fun {t k} hown hnone => ?_, fun {t answer} hsome => ?_,
      fun t => ?_⟩
    · have hbefore := Dict.get?_of_get?_erase hget'
      obtain ⟨howner', hopen'⟩ := h.entry hbefore
      refine ⟨howner', ?_⟩
      rename_i k entry'
      have hne : entry'.future ≠ entry.future := by
        intro heq
        rw [heq, howner] at howner'
        cases howner'
        exact (Dict.mem_keys_erase.mp (Dict.mem_keys_of_get? hget')).2 rfl
      exact (hfutures _ hne).trans hopen'
    · have hne : t ≠ entry.future := by
        intro heq
        rw [heq] at hnone
        exact absurd (hself.symm.trans hnone) (by simp)
      obtain ⟨startedAt, hreg⟩ := h.registered hown ((hfutures t hne).symm.trans hnone)
      have hkey : k ≠ key := by
        intro heq
        rw [heq, hget] at hreg
        cases hreg
        exact hne rfl
      exact ⟨startedAt, (Dict.get?_erase_of_ne _ hkey).trans hreg⟩
    · by_cases heq : t = entry.future
      · rw [heq] at hsome
        exact .inl (Option.some.inj (hself.symm.trans hsome)).symm
      · exact h.resolved ((hfutures t heq).symm.trans hsome)
    · refine (h.placed t).frame (fun hunowned hnone => ?_) rfl (fun _ => .inl)
        fun _ _ hsome => resolve_of_some hsome _ _
      refine (hfutures t fun heq => ?_).trans hnone
      rw [heq, howner] at hunowned
      cases hunowned

theorem foldl_deleteStuck (h : s.Flight) (keys : List Key) :
    (keys.foldl CoalescerState.deleteStuck s).Flight := by
  induction keys generalizing s with
  | nil => exact h
  | cons key keys ih => exact ih (h.deleteStuck key)

theorem deleteExpiredKeys (h : s.Flight) {expired : Expired Key} (hleaked : expired.leaked = []) :
    (s.deleteExpiredKeys expired).Flight := by
  have hs : Flight { s with
      cache := expired.cache.foldl Dict.erase s.cache
      inFlight := ([] : List Key).foldl Dict.erase s.inFlight } :=
    ⟨h.entry, h.registered, h.resolved, h.placed⟩
  unfold CoalescerState.deleteExpiredKeys
  rw [hleaked]
  exact hs.foldl_deleteStuck expired.stuck

/-- The future of an in-flight entry is open. -/
theorem leaked_eq_nil (h : s.Flight) : (s.collectExpiredKeys cfg).leaked = [] := by
  simp only [collectExpiredKeys, List.map_eq_nil_iff, List.filter_eq_nil_iff]
  intro e he
  rw [(h.entry (Dict.get?_eq_some_of_mem he)).2]
  exact Bool.false_ne_true

/-- A task creates an entry. -/
theorem create (h : s.Flight) {task : Nat} {key : Key} (hplace : s.tasks task = .looking key)
    (hget : s.inFlight.get? key = none) (startedAt : Nat) :
    ({ s with inFlight := s.inFlight.set key ⟨task, startedAt⟩ }.goTo task
      (.owning key)).Flight := by
  have hplaced := h.placed task
  rw [hplace] at hplaced
  have hunowned : (s.tasks task).owned = none := by
    rw [hplace]
    rfl
  have hother : ∀ t, t ≠ task → (if t = task then Task.owning key else s.tasks t) = s.tasks t :=
    fun t hne => if_neg hne
  refine ⟨fun {k entry} hget' => ?_, fun {t k} hown hopen => ?_, h.resolved, fun t => ?_⟩
  · change (s.inFlight.set key ⟨task, startedAt⟩).get? k = some entry at hget'
    rw [Dict.get?_set] at hget'
    split at hget'
    · rename_i heq
      cases hget'
      exact ⟨by simp only [CoalescerState.goTo, if_true, Task.owned, heq], hplaced.1⟩
    · obtain ⟨howner, hopen⟩ := h.entry hget'
      refine ⟨?_, hopen⟩
      have hne : entry.future ≠ task := by
        intro heq
        rw [heq, hunowned] at howner
        cases howner
      exact (congrArg Task.owned (hother _ hne)).trans howner
  · change (if t = task then Task.owning key else s.tasks t).owned = some k at hown
    change ∃ startedAt', (s.inFlight.set key ⟨task, startedAt⟩).get? k = some ⟨t, startedAt'⟩
    rw [Dict.get?_set]
    by_cases heq : t = task
    · subst heq
      rw [if_pos rfl] at hown
      cases hown
      exact ⟨startedAt, if_pos rfl⟩
    · rw [hother t heq] at hown
      obtain ⟨startedAt', hreg⟩ := h.registered hown hopen
      have hkey : k ≠ key := by
        intro hk
        rw [hk, hget] at hreg
        cases hreg
      exact ⟨startedAt', (if_neg hkey).trans hreg⟩
  · change CoalescerState.Placed _ t (if t = task then Task.owning key else s.tasks t)
    by_cases heq : t = task
    · subst heq
      rw [if_pos rfl]
      exact hplaced.2
    · rw [hother t heq]
      refine (h.placed t).frame (fun _ => id) rfl (fun future hne => .inl ?_) fun _ _ => id
      change (if future = task then Task.owning key else s.tasks future).owned ≠ none
      split
      · exact Option.some_ne_none key
      · exact hne

theorem look (h : s.Flight) {task : Nat} {key : Key} (hplace : s.tasks task = .looking key) :
    (s.look cfg task key).Flight := by
  have hs : Flight { s with cache := (s.validCachedResult cfg key).1 } :=
    ⟨h.entry, h.registered, h.resolved, h.placed⟩
  have hunowned : (s.tasks task).owned = none := by
    rw [hplace]
    rfl
  unfold CoalescerState.look
  simp only
  split
  · exact hs.goTo hunowned.symm trivial
  · rename_i entry _ hget
    refine hs.goTo hunowned.symm (.inl ?_)
    rw [(h.entry hget).1]
    exact Option.some_ne_none key
  · rename_i hget
    exact hs.create hplace hget s.now

/-- The end of an owner, when the key has no entry of another task. -/
theorem store (h : s.Flight) {task : Nat} {key : Key} {fileMetadata : Option FileMetadata}
    {outcome : Outcome Value Exc} (hplace : s.tasks task = .storing key fileMetadata outcome)
    (hentry : ∀ entry, s.inFlight.get? key = some entry → entry.future = task) :
    (s.store task key fileMetadata outcome).Flight := by
  have hplaced := h.placed task
  rw [hplace] at hplaced
  have howned : (s.tasks task).owned = some key := by
    rw [hplace]
    rfl
  have htasks : ∀ t, t ≠ task →
      (s.store task key fileMetadata outcome).tasks t = s.tasks t :=
    fun t hne => if_neg hne
  have hself : (s.store task key fileMetadata outcome).tasks task = .answered outcome.answer :=
    if_pos rfl
  have hfutures : ∀ f, f ≠ task →
      (s.store task key fileMetadata outcome).futures f = s.futures f :=
    fun f hne => if_neg hne
  have hfuture : (s.store task key fileMetadata outcome).futures task =
      (s.futures task).or (some outcome.answer) := if_pos rfl
  refine ⟨fun {k entry} hget => ?_, fun {t k} hown hopen => ?_, fun {t answer} hsome => ?_,
    fun t => ?_⟩
  · change (s.inFlight.erase key).get? k = some entry at hget
    have hkey : k ≠ key := (Dict.mem_keys_erase.mp (Dict.mem_keys_of_get? hget)).2
    obtain ⟨howner, hopen⟩ := h.entry (Dict.get?_of_get?_erase hget)
    have hne : entry.future ≠ task := by
      intro heq
      rw [heq, howned] at howner
      cases howner
      exact hkey rfl
    rw [htasks _ hne, hfutures _ hne]
    exact ⟨howner, hopen⟩
  · by_cases heq : t = task
    · rw [heq, hself] at hown
      cases hown
    · rw [htasks t heq] at hown
      rw [hfutures t heq] at hopen
      obtain ⟨startedAt, hreg⟩ := h.registered hown hopen
      have hkey : k ≠ key := by
        intro hk
        rw [hk] at hreg
        exact heq (hentry _ hreg)
      exact ⟨startedAt, (Dict.get?_erase_of_ne _ hkey).trans hreg⟩
  · by_cases heq : t = task
    · subst heq
      rw [hfuture] at hsome
      cases hbefore : s.futures t with
      | none =>
        rw [hbefore, Option.none_or] at hsome
        cases hsome
        exact .inr ⟨outcome, hplaced, rfl⟩
      | some answer' =>
        rw [hbefore, Option.some_or] at hsome
        cases hsome
        exact h.resolved hbefore
    · rw [hfutures t heq] at hsome
      exact h.resolved hsome
  · by_cases heq : t = task
    · subst heq
      rw [hself]
      trivial
    · rw [htasks t heq]
      refine (h.placed t).frame (fun _ => (hfutures t heq).trans) rfl (fun future hne => ?_)
        fun future answer hsome => ?_
      · by_cases hf : future = task
        · subst hf
          rw [hfuture]
          exact .inr (by simp)
        · rw [htasks future hf]
          exact .inl hne
      · by_cases hf : future = task
        · subst hf
          rw [hfuture, hsome, Option.some_or]
        · exact (hfutures future hf).trans hsome

/-- A compute function ends. -/
theorem computeEnds (h : s.Flight) {task : Nat} {key : Key} {fileMetadata : Option FileMetadata}
    (hplace : s.tasks task = .computing key fileMetadata) (outcome : Outcome Value Exc) :
    ({ s with computed := fun t => if t = task then some outcome else s.computed t }.goTo task
      (.storing key fileMetadata outcome)).Flight := by
  have hplaced := h.placed task
  rw [hplace] at hplaced
  have hother : ∀ {t}, t ≠ task →
      (if t = task then some outcome else s.computed t) = s.computed t :=
    fun hne => if_neg hne
  have howned : ∀ t, (if t = task then Task.storing key fileMetadata outcome
      else s.tasks t).owned = (s.tasks t).owned := by
    intro t
    split
    · rename_i heq
      rw [heq, hplace]
      rfl
    · rfl
  refine ⟨fun {k entry} hget => ?_, fun {t k} hown hopen => ?_, fun {t answer} hsome => ?_,
    fun t => ?_⟩
  · obtain ⟨howner, hopen⟩ := h.entry hget
    exact ⟨(howned _).trans howner, hopen⟩
  · exact h.registered ((howned t).symm.trans hown) hopen
  · rcases h.resolved hsome with htimeout | ⟨before, hbefore, hanswer⟩
    · exact .inl htimeout
    · refine .inr ⟨before, (hother ?_).trans hbefore, hanswer⟩
      intro heq
      rw [heq, hplaced] at hbefore
      cases hbefore
  · change CoalescerState.Placed _ t
      (if t = task then Task.storing key fileMetadata outcome else s.tasks t)
    by_cases heq : t = task
    · rw [if_pos heq]
      exact if_pos heq
    · rw [if_neg heq]
      exact (h.placed t).frame (fun _ => id) (hother heq)
        (fun future hne => .inl ((howned future).symm ▸ hne)) fun _ _ => id

/-- No task of a process that has ended owns anything. -/
theorem restart (h : s.Flight) (now : Nat) :
    Flight { s with
      now := now
      lastCleanup := now
      cache := .empty
      inFlight := .empty
      tasks := fun t => (s.tasks t).ended } := by
  have hunowned : ∀ t, (s.tasks t).ended.owned = none := by
    intro t
    cases s.tasks t <;> rfl
  refine ⟨nofun, fun {t k} hown _ => ?_, h.resolved, fun t => ?_⟩
  · cases (hunowned t).symm.trans hown
  · have ht := h.placed t
    change CoalescerState.Placed _ t (s.tasks t).ended
    cases hplace : s.tasks t with
    | idle | received _ _ =>
      rw [hplace] at ht
      exact ht
    | _ => trivial

end Flight

/-! ## Steps -/

/-- A step that neither cancels an owner where it has no `try` block around it, nor ends an
owner while its key has the entry of another task. -/
def undisturbed (s : CoalescerState Key Value Exc) : CoalescerEvent Key Value Exc → Bool
  | .cancel task =>
    match s.tasks task with
    | .owning _ | .storing _ _ _ => false
    | _ => true
  | .run task =>
    match s.tasks task with
    | .storing key _ _ => (s.inFlight.get? key).all fun entry => entry.future = task
    | _ => true
  | _ => true

theorem Flight.runTask (h : s.Flight) {task : Nat} (hcond : s.undisturbed (.run task) = true)
    (hrun : s.runTask cfg task = some u) : u.Flight := by
  have hplaced := h.placed task
  unfold CoalescerState.runTask at hrun
  split at hrun
  all_goals rename_i hplace
  case h_1 key =>
    rw [hplace] at hplaced
    split at hrun
    · cases hrun
      have hs : Flight { s with lastCleanup := s.now } :=
        ⟨h.entry, h.registered, h.resolved, h.placed⟩
      exact hs.goTo (congrArg Task.owned hplace).symm ⟨hplaced, h.leaked_eq_nil⟩
    · cases hrun
      exact h.goTo (congrArg Task.owned hplace).symm hplaced
  case h_2 key expired =>
    rw [hplace] at hplaced
    cases hrun
    have hdeleted := h.deleteExpiredKeys hplaced.2
    have hplace' : (s.deleteExpiredKeys expired).tasks task = .deleting key expired :=
      (congrFun (deleteExpiredKeys_tasks s expired) task).trans hplace
    have hplaced' := hdeleted.placed task
    rw [hplace'] at hplaced'
    exact hdeleted.goTo (congrArg Task.owned hplace').symm hplaced'.1
  case h_3 key =>
    cases hrun
    exact h.look hplace
  case h_4 key =>
    rw [hplace] at hplaced
    cases hrun
    exact h.goTo (congrArg Task.owned hplace).symm hplaced
  case h_5 key fileMetadata outcome =>
    cases hrun
    refine h.store hplace fun entry hget => ?_
    simp only [undisturbed, hplace, hget, Option.all_some, decide_eq_true_eq] at hcond
    exact hcond
  case h_6 future since =>
    obtain ⟨answer, hanswer, rfl⟩ := Option.map_eq_some_iff.mp hrun
    exact h.goTo (congrArg Task.owned hplace).symm (.inl hanswer)
  case h_7 => cases hrun

theorem Flight.cancelTask (h : s.Flight) {task : Nat}
    (hcond : s.undisturbed (.cancel task) = true) (hcancel : s.cancelTask task = some u) :
    u.Flight := by
  have hgone : (s.tasks task).owned = none → (s.goTo task .gone).Flight :=
    fun hunowned => h.goTo hunowned.symm trivial
  unfold CoalescerState.cancelTask at hcancel
  simp only [undisturbed] at hcond
  split at hcancel
  all_goals rename_i hplace
  case h_1 | h_2 | h_3 =>
    cases hcancel
    exact hgone (congrArg Task.owned hplace)
  case h_4 | h_6 =>
    rw [hplace] at hcond
    cases hcond
  case h_5 =>
    cases hcancel
    exact h
  case h_7 =>
    rw [hplace] at hcond
    cases hcond
  case h_8 future since =>
    split at hcancel
    · cases hcancel
      exact hgone (congrArg Task.owned hplace)
    · cases hcancel
      exact hgone (congrArg Task.owned hplace)
    · rename_i hanswer
      cases hcancel
      exact h.goTo (congrArg Task.owned hplace).symm (.inl hanswer)
  case h_9 => cases hcancel

theorem Flight.step {event : CoalescerEvent Key Value Exc} (h : s.Flight)
    (hcond : s.undisturbed event = true) (hstep : s.step cfg event = some u) : u.Flight := by
  cases event with
  | request task key =>
    simp only [CoalescerState.step] at hstep
    split at hstep
    · rename_i hplace
      have hplaced := h.placed task
      rw [hplace] at hplaced
      cases hstep
      exact h.goTo (congrArg Task.owned hplace).symm hplaced
    · cases hstep
  | run task => exact h.runTask hcond hstep
  | computeEnds task outcome =>
    simp only [CoalescerState.step] at hstep
    split at hstep
    · rename_i hplace
      cases hstep
      exact h.computeEnds hplace outcome
    · cases hstep
  | cancel task => exact h.cancelTask hcond hstep
  | waitTimeout task =>
    simp only [CoalescerState.step] at hstep
    split at hstep
    · rename_i hplace
      split at hstep
      · cases hstep
        exact h.goTo (congrArg Task.owned hplace).symm (.inr rfl)
      · cases hstep
    · cases hstep
  | restart now =>
    cases hstep
    exact h.restart now
  | peek _ | exportCache | importCache _ | fileChange _ _ | clock _ _ =>
    cases hstep
    exact ⟨h.entry, h.registered, h.resolved, h.placed⟩

theorem flight_of_reachable
    (hs : (system cfg).Reachable (fun s event => s.undisturbed event = true) s) : s.Flight := by
  refine System.Reachable.invariant (P := Flight) ?_ (fun _ _ _ h hcond => h.step hcond) hs
  rintro s ⟨_, hinFlight, hfutures, htasks, hcomputed, _⟩
  refine ⟨fun hget => ?_, fun {t k} hown _ => ?_, fun {t answer} hsome => ?_, fun t => ?_⟩
  · rw [hinFlight] at hget
    cases hget
  · rw [htasks] at hown
    cases hown
  · cases (hfutures t).symm.trans hsome
  · rw [htasks]
    exact ⟨hfutures t, hcomputed t⟩

/-! ## Single flight -/

theorem look_tasks_of_ne {t task : Nat} (hne : t ≠ task) (key : Key) :
    (s.look cfg task key).tasks t = s.tasks t := by
  unfold look
  simp only
  split <;> exact if_neg hne

theorem runTask_tasks_of_ne {task : Nat} (hrun : s.runTask cfg task = some u) {t : Nat}
    (hne : t ≠ task) : u.tasks t = s.tasks t := by
  unfold runTask at hrun
  split at hrun
  case h_1 =>
    split at hrun
    · cases hrun
      exact goTo_tasks_of_ne hne _
    · cases hrun
      exact goTo_tasks_of_ne hne _
  case h_2 key expired _ =>
    cases hrun
    exact (goTo_tasks_of_ne hne _).trans (congrFun (deleteExpiredKeys_tasks s expired) t)
  case h_3 =>
    cases hrun
    exact look_tasks_of_ne hne _
  case h_4 =>
    cases hrun
    exact goTo_tasks_of_ne hne _
  case h_5 =>
    cases hrun
    exact if_neg hne
  case h_6 =>
    obtain ⟨_, _, rfl⟩ := Option.map_eq_some_iff.mp hrun
    exact goTo_tasks_of_ne hne _
  case h_7 => cases hrun

omit [DecidableEq Key] in
theorem cancelTask_tasks_of_ne {task : Nat} (hcancel : s.cancelTask task = some u) {t : Nat}
    (hne : t ≠ task) : u.tasks t = s.tasks t := by
  unfold cancelTask at hcancel
  split at hcancel
  case h_8 =>
    split at hcancel
    all_goals
      cases hcancel
      exact goTo_tasks_of_ne hne _
  case h_9 => cases hcancel
  case h_5 =>
    cases hcancel
    rfl
  all_goals
    cases hcancel
    exact goTo_tasks_of_ne hne _

/-- The place of a task that waits, after a step: it still waits, or it is cancelled, or it has
the answer of the future, or it has waited for too long. -/
theorem waiting_step {event : CoalescerEvent Key Value Exc} (hstep : s.step cfg event = some u)
    {task future since : Nat} (hplace : s.tasks task = .waiting future since) :
    u.tasks task = .waiting future since ∨ u.tasks task = .gone ∨
      (∃ answer, u.tasks task = .received future answer ∧ s.futures future = some answer) ∨
      (u.tasks task = .received future .timeoutError ∧
        since + cfg.computeTimeout + 60 * cfg.second ≤ s.now) := by
  cases event with
  | request t key =>
    simp only [step] at hstep
    split at hstep
    · rename_i hidle
      cases hstep
      have hne : task ≠ t := by
        intro heq
        rw [heq, hidle] at hplace
        cases hplace
      exact .inl ((goTo_tasks_of_ne hne _).trans hplace)
    · cases hstep
  | run t =>
    by_cases heq : task = t
    · subst heq
      simp only [step, runTask, hplace] at hstep
      obtain ⟨answer, hanswer, rfl⟩ := Option.map_eq_some_iff.mp hstep
      exact .inr (.inr (.inl ⟨answer, if_pos rfl, hanswer⟩))
    · exact .inl ((runTask_tasks_of_ne hstep heq).trans hplace)
  | computeEnds t outcome =>
    simp only [step] at hstep
    split at hstep
    · rename_i hcomputing
      cases hstep
      have hne : task ≠ t := by
        intro heq
        rw [heq, hcomputing] at hplace
        cases hplace
      exact .inl ((goTo_tasks_of_ne hne _).trans hplace)
    · cases hstep
  | cancel t =>
    by_cases heq : task = t
    · subst heq
      simp only [step, cancelTask, hplace] at hstep
      split at hstep
      · cases hstep
        exact .inr (.inl (if_pos rfl))
      · cases hstep
        exact .inr (.inl (if_pos rfl))
      · rename_i answer _ hanswer
        cases hstep
        exact .inr (.inr (.inl ⟨answer, if_pos rfl, hanswer⟩))
    · exact .inl ((cancelTask_tasks_of_ne hstep heq).trans hplace)
  | waitTimeout t =>
    simp only [step] at hstep
    split at hstep
    · rename_i hwaiting
      split at hstep
      · rename_i hlate
        cases hstep
        by_cases heq : task = t
        · subst heq
          cases hplace.symm.trans hwaiting
          exact .inr (.inr (.inr ⟨if_pos rfl, hlate.2⟩))
        · exact .inl ((goTo_tasks_of_ne heq _).trans hplace)
      · cases hstep
    · cases hstep
  | restart now =>
    cases hstep
    exact .inr (.inl (congrArg Task.ended hplace))
  | peek _ | exportCache | importCache _ | fileChange _ _ | clock _ _ =>
    cases hstep
    exact .inl hplace

theorem deleteStuck_futures_of_some {f : Nat} {answer : Answer Value Exc}
    (hf : s.futures f = some answer) (key : Key) :
    (s.deleteStuck key).futures f = some answer := by
  unfold deleteStuck
  split
  · exact hf
  · exact resolve_of_some hf _ _

theorem foldl_deleteStuck_futures_of_some (keys : List Key) {f : Nat} {answer : Answer Value Exc}
    (hf : s.futures f = some answer) :
    (keys.foldl deleteStuck s).futures f = some answer := by
  induction keys generalizing s with
  | nil => exact hf
  | cons key keys ih => exact ih (deleteStuck_futures_of_some hf key)

/-- The clean-up keeps an entry, or it gives its owner up. -/
theorem Flight.kept_or_givenUp (h : s.Flight) (keys : List Key) {key : Key}
    {entry : InFlightEntry} (hget : s.inFlight.get? key = some entry) :
    (keys.foldl CoalescerState.deleteStuck s).inFlight.get? key = some entry ∨
      (keys.foldl CoalescerState.deleteStuck s).GivenUp entry.future := by
  induction keys generalizing s with
  | nil => exact .inl hget
  | cons k keys ih =>
    by_cases heq : k = key
    · subst heq
      refine .inr (foldl_deleteStuck_futures_of_some keys ?_)
      simp only [CoalescerState.deleteStuck, hget, resolve, if_true, (h.entry hget).2,
        Option.none_or]
    · refine ih (h.deleteStuck k) ?_
      unfold CoalescerState.deleteStuck
      split
      · exact hget
      · exact (Dict.get?_erase_of_ne _ (Ne.symm heq)).trans hget

/-- An entry that a task takes out is its own. -/
theorem Flight.kept_of_runTask (h : s.Flight) {task : Nat}
    (hcond : s.undisturbed (.run task) = true) (hrun : s.runTask cfg task = some u) {key : Key}
    {entry : InFlightEntry} (hget : s.inFlight.get? key = some entry) :
    u.inFlight.get? key = some entry ∨ entry.future = task ∨ u.GivenUp entry.future := by
  have hplaced := h.placed task
  unfold CoalescerState.runTask at hrun
  split at hrun
  all_goals rename_i hplace
  case h_1 =>
    split at hrun
    · cases hrun
      exact .inl hget
    · cases hrun
      exact .inl hget
  case h_2 k expired =>
    rw [hplace] at hplaced
    cases hrun
    have hs : Flight { s with cache := expired.cache.foldl Dict.erase s.cache } :=
      ⟨h.entry, h.registered, h.resolved, h.placed⟩
    have hdeleted : s.deleteExpiredKeys expired = expired.stuck.foldl CoalescerState.deleteStuck
        { s with cache := expired.cache.foldl Dict.erase s.cache } := by
      unfold CoalescerState.deleteExpiredKeys
      rw [hplaced.2]
      rfl
    rw [hdeleted]
    exact (hs.kept_or_givenUp expired.stuck hget).imp_right .inr
  case h_3 k =>
    cases hrun
    refine .inl ?_
    unfold CoalescerState.look
    simp only
    split
    · exact hget
    · exact hget
    · rename_i hnone
      have hne : key ≠ k := by
        intro heq
        rw [heq, hnone] at hget
        cases hget
      exact (Dict.get?_set_of_ne _ _ hne).trans hget
  case h_4 =>
    cases hrun
    exact .inl hget
  case h_5 k fileMetadata outcome =>
    cases hrun
    by_cases heq : key = k
    · subst heq
      simp only [undisturbed, hplace, hget, Option.all_some, decide_eq_true_eq] at hcond
      exact .inr (.inl hcond)
    · exact .inl ((Dict.get?_erase_of_ne _ heq).trans hget)
  case h_6 =>
    obtain ⟨_, _, rfl⟩ := Option.map_eq_some_iff.mp hrun
    exact .inl hget
  case h_7 => cases hrun

/-- What a step makes of an entry. -/
theorem Flight.kept (h : s.Flight) {event : CoalescerEvent Key Value Exc}
    (hcond : s.undisturbed event = true) (hstep : s.step cfg event = some u) {key : Key}
    {entry : InFlightEntry} (hget : s.inFlight.get? key = some entry) :
    u.inFlight.get? key = some entry ∨ event = .run entry.future ∨ u.GivenUp entry.future ∨
      ∃ now, event = .restart now := by
  cases event with
  | run task =>
    rcases h.kept_of_runTask hcond hstep hget with hkept | howner | hgivenUp
    · exact .inl hkept
    · exact .inr (.inl (howner ▸ rfl))
    · exact .inr (.inr (.inl hgivenUp))
  | request t k | computeEnds t outcome =>
    simp only [CoalescerState.step] at hstep
    split at hstep
    · cases hstep
      exact .inl hget
    · cases hstep
  | cancel t =>
    have hsame : u.inFlight = s.inFlight := by
      simp only [CoalescerState.step, CoalescerState.cancelTask] at hstep
      split at hstep
      case h_8 => split at hstep <;> cases hstep <;> rfl
      case h_9 => cases hstep
      all_goals
        cases hstep
        rfl
    exact .inl (hsame ▸ hget)
  | waitTimeout t =>
    simp only [CoalescerState.step] at hstep
    split at hstep
    · split at hstep
      · cases hstep
        exact .inl hget
      · cases hstep
    · cases hstep
  | restart now => exact .inr (.inr (.inr ⟨now, rfl⟩))
  | peek _ | exportCache | importCache _ | fileChange _ _ | clock _ _ =>
    cases hstep
    exact .inl hget

/-- Single flight, up to the limits on time that the code sets on purpose. -/
structure SingleFlight (cfg : CoalescerConfig) (s : CoalescerState Key Value Exc) : Prop where
  /-- Of two computes of a key, one has been given up as stuck. -/
  oneCompute : ∀ {key t t' m m'}, s.tasks t = .computing key m → s.tasks t' = .computing key m' →
    t = t' ∨ s.GivenUp t ∨ s.GivenUp t'
  /-- A caller that has joined has the outcome of the compute, or a `TimeoutError`. -/
  received : ∀ {task future answer}, s.tasks task = .received future answer →
    answer = .timeoutError ∨
      ∃ outcome, s.computed future = some outcome ∧ outcome.answer = answer
  /-- It gets the `TimeoutError` when the owner is given up, or when it has waited for longer
  than the compute may take. -/
  timeout : ∀ {event u task future since}, s.step cfg event = some u →
    s.tasks task = .waiting future since → u.tasks task = .received future .timeoutError →
    s.GivenUp future ∨ since + cfg.computeTimeout + 60 * cfg.second ≤ s.now
  /-- A caller waits for an owner, or can go on. -/
  waiting : ∀ {task future since}, s.tasks task = .waiting future since →
    (s.tasks future).owned ≠ none ∨ s.futures future ≠ none
  /-- An entry goes with its owner, or with a clean-up that resolves its future. -/
  removed : ∀ {event u key entry}, s.undisturbed event = true → s.step cfg event = some u →
    s.inFlight.get? key = some entry →
    u.inFlight.get? key = some entry ∨ event = .run entry.future ∨ u.GivenUp entry.future ∨
      ∃ now, event = .restart now
  /-- The owner of an entry is there. -/
  owner : ∀ {key entry}, s.inFlight.get? key = some entry →
    (s.tasks entry.future).owned = some key

/-- The future of a compute that runs is open, or the clean-up has resolved it. -/
theorem Flight.open_or_givenUp (h : s.Flight) {task : Nat} {key : Key}
    {fileMetadata : Option FileMetadata} (hplace : s.tasks task = .computing key fileMetadata) :
    s.futures task = none ∨ s.GivenUp task := by
  have hplaced := h.placed task
  rw [hplace] at hplaced
  cases hfuture : s.futures task with
  | none => exact .inl rfl
  | some answer =>
    rcases h.resolved hfuture with rfl | ⟨outcome, hcomputed, _⟩
    · exact .inr hfuture
    · cases hplaced.symm.trans hcomputed

theorem futures_step {event : CoalescerEvent Key Value Exc} (hstep : s.step cfg event = some u)
    {f : Nat} {answer : Answer Value Exc} (hf : s.futures f = some answer) :
    u.futures f = some answer := by
  cases event
  all_goals
    simp only [step, runTask, cancelTask, look] at hstep
    repeat' split at hstep
    all_goals first
      | cases hstep; done
      | cases hstep; exact hf
      | cases hstep; exact foldl_deleteStuck_futures_of_some _ hf
      | cases hstep; exact resolve_of_some hf _ _
      | obtain ⟨_, _, rfl⟩ := Option.map_eq_some_iff.mp hstep; exact hf

theorem received_step {event : CoalescerEvent Key Value Exc} (hstep : s.step cfg event = some u)
    {t f : Nat} {told : Answer Value Exc} (hplace : u.tasks t = .received f told) :
    s.tasks t = .received f told ∨ told = .timeoutError ∨ s.futures f = some told := by
  cases event with
  | restart now =>
    cases hstep
    cases hbefore : s.tasks t <;> simp_all [Task.ended]
  | _ =>
    simp only [step, runTask, cancelTask, look] at hstep
    repeat' split at hstep
    all_goals grind [goTo, store, deleteExpiredKeys_tasks, Option.map_eq_some_iff]

/-- All requests that join one compute are told one answer, but for a `TimeoutError`, whatever is
cleaned up, cancelled or begun anew in the meantime. -/
theorem joined_agree (hs : (system cfg).Reachable (fun _ _ => True) s) (f : Nat) :
    ∃ answer, ∀ t told, s.tasks t = .received f told → told = .timeoutError ∨ told = answer := by
  have htold : ∀ t told, s.tasks t = .received f told →
      told = .timeoutError ∨ s.futures f = some told := by
    induction hs with
    | init hinit => exact fun t _ ht => nomatch (hinit.2.2.2.1 t).symm.trans ht
    | step _ _ hstep ih =>
      intro t told ht
      rcases received_step hstep ht with hbefore | hnew
      · exact (ih t told hbefore).imp_right (futures_step hstep)
      · exact hnew.imp_right (futures_step hstep)
  refine ⟨(s.futures f).getD .timeoutError, fun t told ht => (htold t told ht).imp_right ?_⟩
  exact fun hf => hf ▸ rfl

theorem joined_agree_two :
    ∃ s : CoalescerState Nat Nat Nat, s.tasks 1 = .received 0 (.result (.value 7)) ∧
      ∃ answer, ∀ t told, s.tasks t = .received 0 told → told = .timeoutError ∨ told = answer := by
  have hrun : ((system smallConfig).execute (fun _ _ => True) newProcess
      (requestFirst 0 ++ [.request 1 0, .run 1, .run 1, .request 2 0, .run 2, .run 2,
        .computeEnds 0 (.value 7), .run 0, .run 1, .run 2])).any
        (fun s => decide (s.tasks 1 = .received 0 (.result (.value 7)))) = true := by
    decide +kernel
  obtain ⟨s, hs, htest⟩ := System.exists_reachable_of_execute init_newProcess hrun
  exact ⟨s, of_decide_eq_true htest, joined_agree hs 0⟩

end CoalescerState

end ResiliencyExt.Attribution
