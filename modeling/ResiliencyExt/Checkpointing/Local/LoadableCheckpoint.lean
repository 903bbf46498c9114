import ResiliencyExt.Checkpointing.Local.LocalSteps

set_option autoImplicit false

/-!
# Local checkpoints: a save keeps a loadable checkpoint

`finalize_fn` looks for the latest complete iteration, and cleans up what is older
or what it takes for a failed save.  Iterations that only increase give the invariant:
an iteration that failed has no writer left and is never completed, and every
iteration that did not fail is covered by a complete one that is at least as new.
-/

namespace ResiliencyExt.Checkpointing.Local

open Foundation List Function

namespace LocalState

variable {cfg : Config} {s t : LocalState}

/-- No clean-up of an executor may remove the file, and no writer is about to rename it. -/
def unshared (s : LocalState) (r : Nat) (name : FileName) : Bool :=
  (s.tasks r).all (fun task => !task.mayRemove name) &&
    s.saves.all fun save => save.openFile r ≠ some name

/-- One incarnation with increasing iterations, in which no `find_latest` has filled the cache
when a save is finalized, and the clean-up of a synchronous save that did not fail lists no
file that is about to be taken away. -/
def Calm (s : LocalState) : Event → Prop
  | .save iteration _ => ∀ k ∈ s.attempts, k < iteration
  | .finalize => s.latestIteration = -1
  | .list r none =>
    ((s.inline r).all fun task =>
      task.failedSave || ((s.dirs r).keys.filter task.removes).all (s.unshared r)) = true
  | .restart => False
  | _ => True

instance (s : LocalState) (e : Event) : Decidable (s.Calm e) :=
  match e with
  | .save iteration _ => inferInstanceAs (Decidable (∀ k ∈ s.attempts, k < iteration))
  | .finalize => inferInstanceAs (Decidable (s.latestIteration = -1))
  | .list _ none => inferInstanceAs (Decidable (_ = true))
  | .restart => inferInstanceAs (Decidable False)
  | .findLatest | .load | .write _ _ | .ioError _ _ | .list _ (some _) | .unlink _ _ _
  | .finish _ _ | .leave => inferInstanceAs (Decidable True)

/-- The invariant of calm runs. -/
structure Kept (cfg : Config) (s : LocalState) : Prop where
  nodup : (s.saves.map PendingSave.iteration).Nodup
  attempted : ∀ save ∈ s.saves, save.iteration ∈ s.attempts
  /-- The iteration of a failed save is not complete and no longer written. -/
  failedTask : ∀ r task, s.HasTask r task → task.failedSave = true →
    task.iteration ∈ s.attempts ∧ (∀ save ∈ s.saves, save.iteration ≠ task.iteration) ∧
      ¬ cfg.Complete s.dirs task.iteration
  doneTask : ∀ r task, s.HasTask r task → task.failedSave = false →
    ∃ m, cfg.Complete s.dirs m ∧ task.iteration ≤ m
  rmCkpts : ∀ r task names, s.HasTask r task → task.rmCkpts = some names →
    names.Nodup ∧ ∀ name ∈ names, task.removes name = true
  inline : ∀ r < cfg.worldSize, ∀ task, s.inline r = some task →
    ∃ lost, s.control = .cleaning task.iteration task.failedSave lost
  /-- A clean-up in the training process finds the files that it has listed. -/
  listed : ∀ r < cfg.worldSize, ∀ task names, s.inline r = some task →
    task.failedSave = false → task.rmCkpts = some names →
      ∀ name ∈ names, name ∈ (s.dirs r).keys ∧ s.unshared r name = true
  control : ∀ iteration raises lost, s.control = .cleaning iteration raises lost → raises = lost
  outcomes : ∀ o ∈ s.outcomes, o.raised = o.lost

theorem unshared_iff {r : Nat} {name : FileName} : s.unshared r name = true ↔
    (∀ task ∈ s.tasks r, task.mayRemove name = false) ∧
      ∀ save ∈ s.saves, save.openFile r ≠ some name := by
  simp [unshared]

theorem Kept.fresh (dirs : Nat → CkptDir Nat) : Kept cfg (fresh dirs) where
  nodup := nodup_nil
  attempted := by simp [LocalState.fresh]
  failedTask := by simp [LocalState.fresh, HasTask]
  doneTask := by simp [LocalState.fresh, HasTask]
  rmCkpts := by simp [LocalState.fresh, HasTask]
  inline := by simp [LocalState.fresh]
  listed := by simp [LocalState.fresh]
  control := by simp [LocalState.fresh]
  outcomes := by simp [LocalState.fresh]

namespace Kept

variable {r : Nat}

/-- Outside of a clean-up the training processes have none. -/
theorem inline_eq_none (h : Kept cfg s) (hcontrol : ∀ i f l, s.control ≠ .cleaning i f l)
    (hr : r < cfg.worldSize) : s.inline r = none := by
  cases hinline : s.inline r with
  | none => rfl
  | some task =>
    obtain ⟨lost, hcleaning⟩ := h.inline r hr task hinline
    exact absurd hcleaning (hcontrol _ _ _)

/-! ## Writers and directories -/

theorem setWriter (h : Kept cfg s) {attempt : Nat} {writer : Writer}
    (hopen : ∀ save ∈ s.saves, save.attempt = attempt →
      ∀ p rest, writer = ⟨p :: rest, true, false⟩ →
      ⟨save.iteration, p, true⟩ ∉ (s.dirs r).keys ∨ save.writer r = writer) :
    Kept cfg (s.setWriter attempt r writer) where
  nodup := by
    rw [map_setWriter PendingSave.iteration fun _ _ => rfl]
    exact h.nodup
  attempted save hsave := by
    obtain ⟨before, hbefore, ⟨_, rfl⟩ | ⟨_, rfl⟩⟩ := exists_of_mem_setWriter hsave
    · exact h.attempted before hbefore
    · exact h.attempted save hbefore
  failedTask r' task htask hfailed := by
    obtain ⟨hattempted, hsaves, hcomplete⟩ := h.failedTask r' task htask hfailed
    refine ⟨hattempted, fun save hsave => ?_, hcomplete⟩
    obtain ⟨before, hbefore, ⟨_, rfl⟩ | ⟨_, rfl⟩⟩ := exists_of_mem_setWriter hsave
    · exact hsaves before hbefore
    · exact hsaves save hbefore
  doneTask := h.doneTask
  rmCkpts := h.rmCkpts
  inline := h.inline
  listed r' hr' task names htask hdone hnames name hname := by
    obtain ⟨hkey, hunshared⟩ := h.listed r' hr' task names htask hdone hnames name hname
    obtain ⟨htasks, hsaves⟩ := unshared_iff.mp hunshared
    refine ⟨hkey, unshared_iff.mpr ⟨htasks, fun save hsave => ?_⟩⟩
    obtain ⟨before, hbefore, ⟨hattempt, rfl⟩ | ⟨_, rfl⟩⟩ := exists_of_mem_setWriter hsave
    · have hbefore_ne := hsaves before hbefore
      rcases eq_or_ne r' r with rfl | hne
      · intro hopened
        unfold PendingSave.openFile at hopened
        simp only [update_self] at hopened
        split at hopened
        · cases hopened
          -- the writer has just opened its file, which was not there
          rcases hopen before hbefore hattempt _ _ rfl with hnew | hsame
          · exact hnew hkey
          · exact hbefore_ne (by rw [PendingSave.openFile, hsame])
        · cases hopened
      · intro hopened
        refine hbefore_ne ?_
        unfold PendingSave.openFile at hopened ⊢
        simpa only [update_of_ne hne] using hopened
    · exact hsaves save hbefore
  control := h.control
  outcomes := h.outcomes

/-- The files of a directory change, as far as the clean-ups allow it. -/
theorem setDir (h : Kept cfg s) {dir : CkptDir Nat}
    (hnew : ∀ k p, ⟨k, p, false⟩ ∈ dir.keys →
      ⟨k, p, false⟩ ∈ (s.dirs r).keys ∨ ∃ save ∈ s.saves, save.iteration = k)
    (hlatest : ∀ task, (∃ r', s.HasTask r' task) → task.failedSave = false →
      ∃ m, cfg.Complete (update s.dirs r dir) m ∧ task.iteration ≤ m)
    (hkept : ∀ task names, s.inline r = some task → task.failedSave = false →
      task.rmCkpts = some names → ∀ name ∈ names, name ∈ dir.keys) :
    Kept cfg (s.setDir r dir) where
  nodup := h.nodup
  attempted := h.attempted
  failedTask r' task htask hfailed := by
    obtain ⟨hattempted, hsaves, hcomplete⟩ := h.failedTask r' task htask hfailed
    refine ⟨hattempted, hsaves, fun hnow => hcomplete (complete_mono (fun q p hmem => ?_) hnow)⟩
    simp only [LocalState.setDir] at hmem
    rcases eq_or_ne q r with rfl | hne
    · rw [update_self] at hmem
      rcases hnew _ _ hmem with hold | ⟨save, hsave, heq⟩
      · exact hold
      · exact absurd heq (hsaves save hsave)
    · rwa [update_of_ne hne] at hmem
  doneTask r' task htask hdone := hlatest task ⟨r', htask⟩ hdone
  rmCkpts := h.rmCkpts
  inline := h.inline
  listed r' hr' task names htask hdone hnames name hname := by
    obtain ⟨hkey, hunshared⟩ := h.listed r' hr' task names htask hdone hnames name hname
    refine ⟨?_, hunshared⟩
    simp only [LocalState.setDir]
    rcases eq_or_ne r' r with rfl | hne
    · rw [update_self]
      exact hkept task names htask hdone hnames name hname
    · rwa [update_of_ne hne]
  control := h.control
  outcomes := h.outcomes

/-! ## Clean-ups -/

/-- A clean-up goes on with the list `names`. -/
theorem putTask (h : Kept cfg s) {place : Place} {task : CleanupTask} {names : List FileName}
    (htask : s.getTask r place = some task) (hnodup : names.Nodup)
    (hremoves : ∀ name ∈ names, task.removes name = true)
    (hless : ∀ name ∈ names, task.mayRemove name = true)
    (hlisted : place = none → task.failedSave = false →
      ∀ name ∈ names, name ∈ (s.dirs r).keys ∧ s.unshared r name = true) :
    Kept cfg (s.putTask r place { task with rmCkpts := some names }) where
  nodup := by
    rw [saves_putTask]
    exact h.nodup
  attempted := by
    rw [saves_putTask, attempts_putTask]
    exact h.attempted
  failedTask r' task' htask' hfailed := by
    rw [attempts_putTask, saves_putTask, dirs_putTask]
    rcases hasTask_putTask htask' with ⟨rfl, rfl⟩ | hbefore
    · exact h.failedTask r' task (hasTask_of_getTask htask) hfailed
    · exact h.failedTask r' task' hbefore hfailed
  doneTask r' task' htask' hdone := by
    rw [dirs_putTask]
    rcases hasTask_putTask htask' with ⟨rfl, rfl⟩ | hbefore
    · exact h.doneTask r' task (hasTask_of_getTask htask) hdone
    · exact h.doneTask r' task' hbefore hdone
  rmCkpts r' task' names' htask' hnames := by
    rcases hasTask_putTask htask' with ⟨rfl, rfl⟩ | hbefore
    · cases hnames
      exact ⟨hnodup, hremoves⟩
    · exact h.rmCkpts r' task' names' hbefore hnames
  inline r' hr' task' htask' := by
    rw [control_putTask]
    cases place with
    | none =>
      simp only [LocalState.putTask] at htask'
      rcases eq_or_ne r' r with rfl | hne
      · rw [update_self] at htask'
        cases htask'
        exact h.inline r' hr' task htask
      · rw [update_of_ne hne] at htask'
        exact h.inline r' hr' task' htask'
    | some i => exact h.inline r' hr' task' htask'
  listed r' hr' task' names' htask' hdone hnames name hname := by
    rw [dirs_putTask]
    cases place with
    | none =>
      simp only [LocalState.putTask] at htask'
      rcases eq_or_ne r' r with rfl | hne
      · rw [update_self] at htask'
        cases htask'
        cases hnames
        exact hlisted rfl hdone name hname
      · rw [update_of_ne hne] at htask'
        exact h.listed r' hr' task' names' htask' hdone hnames name hname
    | some i =>
      obtain ⟨hkey, hunshared⟩ := h.listed r' hr' task' names' htask' hdone hnames name hname
      obtain ⟨htasks, hsaves⟩ := unshared_iff.mp hunshared
      refine ⟨hkey, unshared_iff.mpr ⟨fun other hother => ?_, hsaves⟩⟩
      simp only [LocalState.putTask] at hother
      rcases eq_or_ne r' r with rfl | hne
      · rw [update_self] at hother
        rcases mem_or_eq_of_mem_set hother with hother | rfl
        · exact htasks other hother
        · -- the executor's list has become shorter
          have hmay := htasks task (mem_of_getElem? htask)
          refine decide_eq_false fun hmem => ?_
          exact Bool.false_ne_true (hmay.symm.trans (hless name hmem))
      · rw [update_of_ne hne] at hother
        exact htasks other hother
  control := by
    rw [control_putTask]
    exact h.control
  outcomes := by
    rw [outcomes_putTask]
    exact h.outcomes

/-- A clean-up ends; one that the training process has begun after a save that did not fail
ends without an error. -/
theorem endTask (h : Kept cfg s) {place : Place} {error : Bool} {task : CleanupTask}
    (hr : r < cfg.worldSize) (htask : s.getTask r place = some task)
    (herror : place = none → task.failedSave = false → error = false) :
    Kept cfg (s.endTask r place error) where
  nodup := by
    rw [saves_endTask]
    exact h.nodup
  attempted := by
    rw [saves_endTask, attempts_endTask]
    exact h.attempted
  failedTask r' task' htask' hfailed := by
    rw [attempts_endTask, saves_endTask, dirs_endTask]
    exact h.failedTask r' task' (hasTask_endTask htask') hfailed
  doneTask r' task' htask' hdone := by
    rw [dirs_endTask]
    exact h.doneTask r' task' (hasTask_endTask htask') hdone
  rmCkpts r' task' names htask' hnames := h.rmCkpts r' task' names (hasTask_endTask htask') hnames
  inline r' hr' task' htask' := by
    rw [control_endTask]
    cases place with
    | none =>
      simp only [LocalState.endTask] at htask'
      rcases eq_or_ne r' r with rfl | hne
      · rw [update_self] at htask'
        cases htask'
      · rw [update_of_ne hne] at htask'
        exact h.inline r' hr' task' htask'
    | some i => exact h.inline r' hr' task' htask'
  listed r' hr' task' names htask' hdone hnames name hname := by
    rw [dirs_endTask]
    cases place with
    | none =>
      simp only [LocalState.endTask] at htask'
      rcases eq_or_ne r' r with rfl | hne
      · rw [update_self] at htask'
        cases htask'
      · rw [update_of_ne hne] at htask'
        exact h.listed r' hr' task' names htask' hdone hnames name hname
    | some i =>
      obtain ⟨hkey, hunshared⟩ := h.listed r' hr' task' names htask' hdone hnames name hname
      obtain ⟨htasks, hsaves⟩ := unshared_iff.mp hunshared
      refine ⟨hkey, unshared_iff.mpr ⟨fun other hother => htasks other ?_, hsaves⟩⟩
      simp only [LocalState.endTask] at hother
      rcases eq_or_ne r' r with rfl | hne
      · rw [update_self] at hother
        exact mem_of_mem_eraseIdx hother
      · rwa [update_of_ne hne] at hother
  control := by
    rw [control_endTask]
    exact h.control
  outcomes o ho := by
    cases place with
    | none =>
      obtain ⟨lost, hcontrol⟩ := h.inline r hr task htask
      simp only [LocalState.endTask, hcontrol] at ho
      rcases mem_append.mp ho with ho | ho
      · exact h.outcomes o ho
      · have hlost := h.control _ _ _ hcontrol
        rw [mem_singleton.mp ho]
        simp only [← hlost]
        cases hfailed : task.failedSave with
        | true => exact Bool.true_or error
        | false => exact (Bool.false_or error).trans (herror rfl hfailed)
    | some i => exact h.outcomes o ho

/-! ## The calls -/

theorem findLatest (h : Kept cfg s) : Kept cfg { s with latestIteration := s.findLatest cfg } :=
  { h with }

theorem leave (h : Kept cfg s) (hnone : ∀ r < cfg.worldSize, s.inline r = none) :
    Kept cfg { s with control := .idle } :=
  { h with
    inline := fun r hr task htask => by
      simp only [hnone r hr] at htask
      cases htask
    control := nofun }

/-- A save of a new iteration. -/
theorem save (h : Kept cfg s) {iteration : Nat} {isAsync : Bool} (hidle : s.control = .idle)
    (hnew : ∀ k ∈ s.attempts, k < iteration) :
    Kept cfg { s with
      latestIteration := -1
      control := if isAsync then .idle else .saving
      saves := s.saves ++ [⟨s.attempts.length, iteration, isAsync,
        fun r => ⟨cfg.shards r, false, false⟩⟩]
      attempts := s.attempts ++ [iteration] } where
  nodup := by
    rw [map_append, nodup_append]
    refine ⟨h.nodup, nodup_singleton _, fun k hk k' hk' => ?_⟩
    obtain ⟨save, hsave, rfl⟩ := mem_map.mp hk
    rw [mem_singleton.mp hk']
    exact Nat.ne_of_lt (hnew _ (h.attempted save hsave))
  attempted save hsave := by
    rcases mem_append.mp hsave with hsave | hsave
    · exact mem_append_left _ (h.attempted save hsave)
    · rw [mem_singleton.mp hsave]
      exact mem_append_right _ (mem_singleton_self _)
  failedTask r task htask hfailed := by
    obtain ⟨hattempted, hsaves, hcomplete⟩ := h.failedTask r task htask hfailed
    refine ⟨mem_append_left _ hattempted, fun save hsave => ?_, hcomplete⟩
    rcases mem_append.mp hsave with hsave | hsave
    · exact hsaves save hsave
    · rw [mem_singleton.mp hsave]
      exact (Nat.ne_of_lt (hnew _ hattempted)).symm
  doneTask := h.doneTask
  rmCkpts := h.rmCkpts
  inline r hr task htask := by
    simp only [h.inline_eq_none (by simp [hidle]) hr] at htask
    cases htask
  listed r hr task names htask := by
    simp only [h.inline_eq_none (by simp [hidle]) hr] at htask
    cases htask
  control := by
    intro k raises lost hcontrol
    cases isAsync <;> simp at hcontrol
  outcomes := h.outcomes

/-- `finalize_fn` looks at the directories and is right about the save. -/
theorem finalizeSave (h : Kept cfg s) (hworld : cfg.InWorld s.dirs) {save : PendingSave}
    (hnext : s.nextToFinalize = some save) (hcache : s.latestIteration = -1) :
    Kept cfg (s.finalizeSave cfg save) := by
  have hsave := mem_of_nextToFinalize hnext
  have hfound : s.findLatest cfg = cfg.latest s.dirs := if_neg fun hne => hne hcache
  have hraises : decide (s.findLatest cfg < save.iteration) =
      decide (cfg.Lost s.dirs save.iteration) := by
    rw [hfound]
    exact decide_eq_decide.mpr (cfg.latest_lt_iff hworld)
  have hcontrol : ∀ i f l, s.control ≠ .cleaning i f l := fun i f l heq => by
    simp only [nextToFinalize, heq] at hnext
    cases hnext
  have hothers : ∀ other ∈ s.saves.filter (fun other => other.attempt ≠ save.attempt),
      other ∈ s.saves ∧ other.iteration ≠ save.iteration := fun other hother => by
    obtain ⟨hmem, hne⟩ := mem_filter.mp hother
    refine ⟨hmem, fun heq => of_decide_eq_true hne ?_⟩
    rw [inj_on_of_nodup_map h.nodup hmem hsave heq]
  refine
    { nodup := ?_, attempted := ?_, failedTask := ?_, doneTask := ?_, rmCkpts := ?_,
      inline := ?_, listed := ?_, control := ?_, outcomes := ?_ }
  · rw [saves_finalizeSave]
    exact h.nodup.sublist (filter_sublist.map _)
  · rw [saves_finalizeSave, attempts_finalizeSave]
    exact fun other hother => h.attempted other (hothers other hother).1
  · intro r task htask hfailed
    rw [attempts_finalizeSave, saves_finalizeSave, dirs_finalizeSave]
    rcases hasTask_finalizeSave htask with rfl | hbefore
    · refine ⟨h.attempted save hsave, fun other hother => (hothers other hother).2, ?_⟩
      have hlost : cfg.Lost s.dirs save.iteration :=
        of_decide_eq_true (hraises.symm.trans hfailed)
      exact hlost save.iteration (Nat.le_refl _)
    · obtain ⟨hattempted, hsaves, hcomplete⟩ := h.failedTask r task hbefore hfailed
      exact ⟨hattempted, fun other hother => hsaves other (hothers other hother).1, hcomplete⟩
  · intro r task htask hdone
    rw [dirs_finalizeSave]
    rcases hasTask_finalizeSave htask with rfl | hbefore
    · have hle : (save.iteration : Int) ≤ cfg.latest s.dirs := by
        rw [← hfound]
        exact Int.not_lt.mp (of_decide_eq_false hdone)
      exact (cfg.le_latest_iff hworld).mp hle
    · exact h.doneTask r task hbefore hdone
  · intro r task names htask hnames
    rcases hasTask_finalizeSave htask with rfl | hbefore
    · cases hnames
    · exact h.rmCkpts r task names hbefore hnames
  · intro r hr task htask
    unfold LocalState.finalizeSave at htask ⊢
    simp only at htask ⊢
    split at htask
    · simp only [h.inline_eq_none hcontrol hr] at htask
      cases htask
    · rename_i hsync
      simp only [if_neg hsync]
      exact ⟨_, by cases htask; rfl⟩
  · intro r hr task names htask hdone hnames
    unfold LocalState.finalizeSave at htask
    simp only at htask
    split at htask
    · simp only [h.inline_eq_none hcontrol hr] at htask
      cases htask
    · cases htask
      cases hnames
  · intro iteration raises lost hcleaning
    unfold LocalState.finalizeSave at hcleaning
    simp only at hcleaning
    split at hcleaning
    · exact absurd hcleaning (hcontrol _ _ _)
    · cases hcleaning
      exact hraises
  · intro o ho
    unfold LocalState.finalizeSave at ho
    simp only at ho
    split at ho
    · rcases mem_append.mp ho with ho | ho
      · exact h.outcomes o ho
      · obtain ⟨r, _, rfl⟩ := mem_map.mp ho
        exact hraises
    · exact h.outcomes o ho

end Kept

/-! ## Every step -/

variable {task : CleanupTask} {name : FileName} {save : PendingSave} {p : Nat} {todo : List Nat}

theorem setDir_putTask (r r' : Nat) (dir : CkptDir Nat) (place : Place) (task : CleanupTask) :
    (s.setDir r dir).putTask r' place task = (s.putTask r' place task).setDir r dir := by
  cases place <;> rfl

/-- A clean-up removes no file of the newest complete iteration. -/
theorem Kept.not_newest (h : Kept cfg s) {r : Nat} (htask : s.HasTask r task)
    (hremoves : task.removes name = true) : ¬ cfg.Newest s.dirs name.iteration := by
  intro hnewest
  unfold CleanupTask.removes at hremoves
  cases hfailed : task.failedSave with
  | true =>
    -- the files of the failed save
    rw [if_pos hfailed, decide_eq_true_eq] at hremoves
    exact (h.failedTask r task htask hfailed).2.2 (hremoves ▸ hnewest.1)
  | false =>
    -- the files that are older than the save
    rw [if_neg (Bool.eq_false_iff.mp hfailed), decide_eq_true_eq] at hremoves
    obtain ⟨m, hcomplete, hle⟩ := h.doneTask r task htask hfailed
    have hnewer := hnewest.2 m hcomplete
    omega

theorem Kept.unlinked (h : Kept cfg s) (hworld : cfg.InWorld s.dirs) {r : Nat} {place : Place}
    {names : List FileName} (hr : r < cfg.worldSize) (htask : s.getTask r place = some task)
    (hnames : task.rmCkpts = some names) (hname : name ∈ names) :
    Kept cfg ((s.setDir r ((s.dirs r).erase name)).putTask r place
      { task with rmCkpts := some (names.erase name) }) := by
  have hhas := hasTask_of_getTask htask
  obtain ⟨hnodup, hremoves⟩ := h.rmCkpts r task names hhas hnames
  have hmay : ∀ other ∈ names, task.mayRemove other = true := fun other hother => by
    simp only [CleanupTask.mayRemove, hnames, decide_eq_true hother]
  have hput : Kept cfg (s.putTask r place { task with rmCkpts := some (names.erase name) }) :=
    h.putTask htask (hnodup.erase name) (fun other hother => hremoves other
      (mem_of_mem_erase hother)) (fun other hother => hmay other
        (mem_of_mem_erase hother)) fun hplace hdone other hother => by
          subst hplace
          exact h.listed r hr task names htask hdone hnames other (mem_of_mem_erase hother)
  rw [setDir_putTask]
  refine hput.setDir (fun k p hmem => ?_) (fun task' hhas' hdone => ?_)
    fun task' names' htask' hdone hnames' other hother => ?_
  · rw [dirs_putTask]
    exact Or.inl (Dict.mem_keys_erase.mp hmem).1
  · -- what covers the clean-ups is the newest complete iteration, and it is not touched
    obtain ⟨r', hhas'⟩ := hhas'
    obtain ⟨m, hcomplete, hle⟩ := hput.doneTask r' task' hhas' hdone
    rw [dirs_putTask] at hcomplete ⊢
    obtain ⟨newest, hnewest, hle'⟩ := cfg.exists_newest hworld hcomplete
    refine ⟨newest, complete_mono (fun q p hmem => ?_) hnewest.1, Nat.le_trans hle hle'⟩
    refine mem_keys_update_erase.mpr ⟨hmem, fun hsame => ?_⟩
    refine h.not_newest hhas (hremoves name hname) ?_
    rw [← hsame.2]
    exact hnewest
  · cases place with
    | none =>
      -- the clean-up itself, with one file less
      simp only [LocalState.putTask, update_self] at htask'
      cases htask'
      cases hnames'
      obtain ⟨hne, hmem⟩ := hnodup.mem_erase_iff.mp hother
      obtain ⟨hkey, _⟩ := h.listed r hr task names htask hdone hnames other hmem
      exact Dict.mem_keys_erase.mpr ⟨hkey, hne⟩
    | some i =>
      obtain ⟨hkey, hunshared⟩ := h.listed r hr task' names' htask' hdone hnames' other hother
      refine Dict.mem_keys_erase.mpr ⟨hkey, fun heq => ?_⟩
      have hnot := (unshared_iff.mp hunshared).1 task (mem_of_getElem? htask)
      exact Bool.false_ne_true (hnot.symm.trans (heq ▸ hmay name hname))

theorem Kept.opened (h : Kept cfg s) {r : Nat} (hr : r < cfg.worldSize)
    (hattempt : ∀ other ∈ s.saves, other.attempt = save.attempt → other = save)
    (hnew : ⟨save.iteration, p, true⟩ ∉ (s.dirs r).keys) :
    Kept cfg ((s.setDir r ((s.dirs r).set ⟨save.iteration, p, true⟩ save.attempt)).setWriter
      save.attempt r ⟨p :: todo, true, false⟩) := by
  have hset : Kept cfg (s.setWriter save.attempt r ⟨p :: todo, true, false⟩) := h.setWriter
    fun other hother heq q rest hq => by
      cases hq
      rw [hattempt other hother heq]
      exact Or.inl hnew
  refine hset.setDir (fun k q hmem => ?_) (fun task hhas hdone => ?_)
    fun task names htask hdone hnames name hname => ?_
  · rcases Dict.mem_keys_set.mp hmem with heq | hmem
    · cases heq
    · exact Or.inl hmem
  · obtain ⟨r', hhas⟩ := hhas
    obtain ⟨m, hcomplete, hle⟩ := h.doneTask r' task hhas hdone
    exact ⟨m, complete_mono (fun q p hmem => mem_keys_update_set.mpr (Or.inr hmem)) hcomplete, hle⟩
  · obtain ⟨hkey, _⟩ := h.listed r hr task names htask hdone hnames name hname
    exact Dict.mem_keys_set.mpr (Or.inr hkey)

theorem Kept.renamed (h : Kept cfg s) {r : Nat} {content : Nat} (hr : r < cfg.worldSize)
    (hsave : save ∈ s.saves) (hwriter : save.writer r = ⟨p :: todo, true, false⟩) :
    Kept cfg ((s.setDir r (((s.dirs r).erase ⟨save.iteration, p, true⟩).set
      ⟨save.iteration, p, false⟩ content)).setWriter save.attempt r ⟨todo, false, false⟩) := by
  have hset : Kept cfg (s.setWriter save.attempt r ⟨todo, false, false⟩) := h.setWriter
    fun _ _ _ q rest hq => by cases hq
  refine hset.setDir (fun k q hmem => ?_) (fun task hhas hdone => ?_)
    fun task names htask hdone hnames name hname => ?_
  · rcases Dict.mem_keys_set.mp hmem with heq | hmem
    · -- the shard that becomes visible
      refine Or.inr ⟨{ save with writer := _ }, mem_map.mpr ⟨save, hsave, if_pos rfl⟩, ?_⟩
      cases heq
      rfl
    · exact Or.inl (Dict.mem_keys_erase.mp hmem).1
  · obtain ⟨r', hhas⟩ := hhas
    obtain ⟨m, hcomplete, hle⟩ := h.doneTask r' task hhas hdone
    refine ⟨m, complete_mono (fun q p' hmem => ?_) hcomplete, hle⟩
    refine mem_keys_update_rename.mpr (Or.inr ⟨hmem, fun hsame => ?_⟩)
    cases hsame.2
  · obtain ⟨hkey, hunshared⟩ := h.listed r hr task names htask hdone hnames name hname
    refine Dict.mem_keys_set.mpr (Or.inr (Dict.mem_keys_erase.mpr ⟨hkey, fun heq => ?_⟩))
    -- the file that is renamed is on no list
    refine (unshared_iff.mp hunshared).2 save hsave ?_
    rw [PendingSave.openFile, hwriter, heq]

theorem Kept.effect {e : Event} (h : Kept cfg s) (hplaced : Placed cfg s)
    (hnumbered : s.Numbered) (hcalm : s.Calm e)
    (heffect : Effect cfg s e t) : Kept cfg t := by
  cases heffect with
  | findLatest => exact h.findLatest
  | load => exact h
  | save hidle => exact h.save hidle hcalm
  | opened hr hsave hwriter _ hnew =>
    exact h.opened hr
      (fun other hother heq => hnumbered.eq_of_attempt hsave hother heq) hnew
  | blocked => exact h.setWriter fun _ _ _ _ _ heq => by cases heq
  | renamed hr hsave hwriter => exact h.renamed hr hsave hwriter
  | gone => exact h.setWriter fun _ _ _ _ _ heq => by cases heq
  | ioError =>
    exact h.setWriter fun _ _ _ _ _ heq =>
      absurd (congrArg Writer.failed heq) (by simp)
  | finalized hnext => exact h.finalizeSave hplaced.inWorld hnext hcalm
  | @listed r place task hr htask hnone =>
    have hremoves : ∀ name ∈ (s.dirs r).keys.filter task.removes, task.removes name = true :=
      fun name hname => (mem_filter.mp hname).2
    refine h.putTask htask ((s.dirs r).nodup_keys.filter _) hremoves (fun name hname => ?_)
      fun hplace hdone name hname => ?_
    · simp only [CleanupTask.mayRemove, hnone]
      exact hremoves name hname
    · subst hplace
      have hall : (task.failedSave ||
          ((s.dirs r).keys.filter task.removes).all (s.unshared r)) = true := by
        have hinline : s.inline r = some task := htask
        simpa only [Calm, hinline, Option.all_some] using hcalm
      rw [hdone, Bool.false_or] at hall
      exact ⟨(mem_filter.mp hname).1, all_eq_true.mp hall name hname⟩
  | refused hr htask hfailed =>
    exact h.endTask hr htask fun _ hdone => absurd (hfailed.symm.trans hdone) (by simp)
  | unlinked hr htask hnames hname => exact h.unlinked hplaced.inWorld hr htask hnames hname
  | missing hr htask hnames hname hkey =>
    refine h.endTask hr htask fun hplace hdone => ?_
    subst hplace
    exact absurd (h.listed _ hr _ _ htask hdone hnames _ hname).1 hkey
  | finished hr htask => exact h.endTask hr htask fun _ _ => rfl
  | leave _ hnone => exact h.leave hnone
  | restart => exact hcalm.elim

theorem kept_of_reachable (hs : (localSaves cfg cfg.InWorld).Reachable Calm s) : Kept cfg s := by
  induction hs with
  | init hinit =>
    obtain ⟨dirs, _, rfl⟩ := hinit
    exact .fresh dirs
  | step hreach hcalm hstep ih =>
    exact ih.effect (placed_of_reachable (fun _ h => h) hreach) (numbered_of_reachable hreach)
      hcalm (effect_of_step hstep)

end LocalState

/-- In calm runs a `finalize_fn` raises if and only if a shard of its iteration was missing when
it looked and no newer iteration was complete, and a clean-up never removes a file of the
newest complete iteration. -/
theorem save_keeps_loadable {cfg : Config} {s : LocalState}
    (hs : (localSaves cfg cfg.InWorld).Reachable LocalState.Calm s) :
    (∀ o ∈ s.outcomes, o.raised = true ↔ o.lost = true) ∧
    ∀ r place name t, s.step cfg (.unlink r place name) = some t → name ∈ (s.dirs r).keys →
      ¬ cfg.Newest s.dirs name.iteration := by
  have h := LocalState.kept_of_reachable hs
  refine ⟨fun o ho => by rw [h.outcomes o ho], fun r place name t hstep hkey => ?_⟩
  cases LocalState.effect_of_step hstep with
  | unlinked hr htask hnames hname =>
    have hhas := LocalState.hasTask_of_getTask htask
    exact h.not_newest hhas ((h.rmCkpts r _ _ hhas hnames).2 name hname)
  | missing _ _ _ _ hnot => exact absurd hkey hnot

/-- The iterations increase and the processes are not restarted. -/
def Increasing (s : LocalState) : Event → Prop
  | .save iteration _ => ∀ k ∈ s.attempts, k < iteration
  | .restart => False
  | _ => True

instance (s : LocalState) (e : Event) : Decidable (Increasing s e) :=
  match e with
  | .save iteration _ => inferInstanceAs (Decidable (∀ k ∈ s.attempts, k < iteration))
  | .restart => inferInstanceAs (Decidable False)
  | .findLatest | .load | .write _ _ | .ioError _ _ | .finalize | .list _ _ | .unlink _ _ _
  | .finish _ _ | .leave => inferInstanceAs (Decidable True)

/-- Of two ranks one fails to write iteration 10, whose `finalize_fn` raises and removes what
the other has written. -/
theorem save_keeps_loadable_two_ranks :
    ∃ s t : LocalState, s.outcomes =
      [⟨0, 5, false, false⟩, ⟨1, 5, false, false⟩, ⟨0, 10, true, true⟩,
        ⟨1, 10, true, true⟩] ∧
      (∀ o ∈ s.outcomes, o.raised = true ↔ o.lost = true) ∧
      s.step (unreplicated 2 (by decide)) (.unlink 0 (some 0) ⟨10, 0, false⟩) = some t ∧
      ¬ (unreplicated 2 (by decide)).Newest s.dirs 10 := by
  have hinit : (localSaves (unreplicated 2 (by decide)) (unreplicated 2 (by decide)).InWorld).init
      (.fresh noFiles) := ⟨noFiles, inWorld_noFiles _, rfl⟩
  have hrun : ((localSaves (unreplicated 2 (by decide))
        (unreplicated 2 (by decide)).InWorld).execute LocalState.Calm (.fresh noFiles)
      [.save 5 false, .write 0 0, .write 0 0, .write 0 1, .write 0 1, .finalize, .list 0 none,
        .finish 0 none, .list 1 none, .finish 1 none, .leave, .save 10 true, .write 1 0,
        .write 1 0, .ioError 1 1, .finalize, .list 0 (some 0)]).any (fun s =>
          s.outcomes = [⟨0, 5, false, false⟩, ⟨1, 5, false, false⟩, ⟨0, 10, true, true⟩,
            ⟨1, 10, true, true⟩] ∧ ⟨10, 0, false⟩ ∈ (s.dirs 0).keys ∧
          (s.step (unreplicated 2 (by decide)) (.unlink 0 (some 0) ⟨10, 0, false⟩)).isSome) =
        true := by
    decide +kernel
  obtain ⟨s, hs, htest⟩ := System.exists_reachable_of_execute hinit hrun
  obtain ⟨houtcomes, hkey, hstep⟩ := of_decide_eq_true htest
  obtain ⟨t, hstep⟩ := Option.isSome_iff_exists.mp hstep
  obtain ⟨hraised, hremoved⟩ := save_keeps_loadable hs
  exact ⟨s, t, houtcomes, hraised, hstep, hremoved 0 _ _ t hstep hkey⟩

/-- A `find_latest` between the save of iteration 10 and its `finalize_fn` leaves 5 in the
cache: iteration 10 is complete, and is taken for failed and removed. -/
theorem complete_checkpoint_discarded :
    ∃ s t, (localSaves (unreplicated 1 (by decide)) (unreplicated 1 (by decide)).InWorld).Reachable
        Increasing s ∧
      (∃ o ∈ s.outcomes, ¬ (o.raised = true ↔ o.lost = true)) ∧
      (unreplicated 1 (by decide)).latest s.dirs = 10 ∧
      s.step (unreplicated 1 (by decide)) (.unlink 0 (some 0) ⟨10, 0, false⟩) = some t ∧
      (unreplicated 1 (by decide)).latest t.dirs = 5 := by
  have hinit : (localSaves (unreplicated 1 (by decide)) (unreplicated 1 (by decide)).InWorld).init
      (.fresh noFiles) := ⟨noFiles, inWorld_noFiles _, rfl⟩
  have hrun : ((localSaves (unreplicated 1 (by decide))
        (unreplicated 1 (by decide)).InWorld).execute Increasing (.fresh noFiles)
      [.save 5 true, .write 0 0, .write 0 0, .finalize, .list 0 (some 0), .finish 0 (some 0),
        .save 10 true, .findLatest, .write 1 0, .write 1 0, .finalize, .list 0 (some 0)]).any
      (fun s => s.outcomes = [⟨0, 5, false, false⟩, ⟨0, 10, true, false⟩] ∧
        (unreplicated 1 (by decide)).latest s.dirs = 10 ∧
        (s.step (unreplicated 1 (by decide)) (.unlink 0 (some 0) ⟨10, 0, false⟩)).any fun t =>
          (unreplicated 1 (by decide)).latest t.dirs = 5) = true := by
    decide +kernel
  obtain ⟨s, hs, htest⟩ := System.exists_reachable_of_execute hinit hrun
  obtain ⟨houtcomes, hlatest, hstep⟩ := of_decide_eq_true htest
  obtain ⟨t, hstep, hremoved⟩ := Option.any_eq_true _ _ |>.mp hstep
  refine ⟨s, t, hs, ⟨⟨0, 10, true, false⟩, ?_, by decide⟩, hlatest, hstep,
    of_decide_eq_true hremoved⟩
  rw [houtcomes]
  decide

end ResiliencyExt.Checkpointing.Local
