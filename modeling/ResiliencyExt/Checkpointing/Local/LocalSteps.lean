import ResiliencyExt.Checkpointing.Local.LocalSaves

set_option autoImplicit false

/-!
# Local checkpoints: what a step does

Every step of the saves is one of the effects below, with the state that it leads
to written out.  The invariants are proved effect by effect.
-/

namespace ResiliencyExt.Checkpointing.Local

open Foundation List Function

/-! ## Effects -/

/-- Everything that a step can do. -/
inductive Effect (cfg : Config) (s : LocalState) : Event → LocalState → Prop
  | findLatest (hidle : s.control = .idle) :
      Effect cfg s .findLatest { s with latestIteration := s.findLatest cfg }
  | load : Effect cfg s .load s
  | save {iteration : Nat} {isAsync : Bool} (hidle : s.control = .idle)
      (hnewer : s.latestIteration < iteration) :
      Effect cfg s (.save iteration isAsync) { s with
        latestIteration := -1
        control := if isAsync then .idle else .saving
        saves := s.saves ++ [⟨s.attempts.length, iteration, isAsync,
          fun r => ⟨cfg.shards r, false, false⟩⟩]
        attempts := s.attempts ++ [iteration] }
  | opened {r : Nat} {save : PendingSave} {p : Nat} {todo : List Nat} (hr : r < cfg.worldSize)
      (hsave : save ∈ s.saves) (hwriter : save.writer r = ⟨p :: todo, false, false⟩)
      (hfits : fitsDigits save.iteration = true)
      (hnew : ⟨save.iteration, p, true⟩ ∉ (s.dirs r).keys) :
      Effect cfg s (.write save.attempt r)
        ((s.setDir r ((s.dirs r).set ⟨save.iteration, p, true⟩ save.attempt)).setWriter
          save.attempt r ⟨p :: todo, true, false⟩)
  | blocked {r : Nat} {save : PendingSave} {p : Nat} {todo : List Nat} (hr : r < cfg.worldSize)
      (hsave : save ∈ s.saves) (hwriter : save.writer r = ⟨p :: todo, false, false⟩)
      (hblocked : fitsDigits save.iteration = false ∨
        ⟨save.iteration, p, true⟩ ∈ (s.dirs r).keys) :
      Effect cfg s (.write save.attempt r)
        (s.setWriter save.attempt r ⟨p :: todo, false, true⟩)
  | renamed {r : Nat} {save : PendingSave} {p : Nat} {todo : List Nat} {content : Nat}
      (hr : r < cfg.worldSize) (hsave : save ∈ s.saves)
      (hwriter : save.writer r = ⟨p :: todo, true, false⟩)
      (hcontent : (s.dirs r).get? ⟨save.iteration, p, true⟩ = some content) :
      Effect cfg s (.write save.attempt r)
        ((s.setDir r (((s.dirs r).erase ⟨save.iteration, p, true⟩).set
          ⟨save.iteration, p, false⟩ content)).setWriter save.attempt r ⟨todo, false, false⟩)
  | gone {r : Nat} {save : PendingSave} {p : Nat} {todo : List Nat} (hr : r < cfg.worldSize)
      (hsave : save ∈ s.saves) (hwriter : save.writer r = ⟨p :: todo, true, false⟩)
      (hgone : (s.dirs r).get? ⟨save.iteration, p, true⟩ = none) :
      Effect cfg s (.write save.attempt r)
        (s.setWriter save.attempt r ⟨p :: todo, true, true⟩)
  | ioError {r : Nat} {save : PendingSave} (hr : r < cfg.worldSize) (hsave : save ∈ s.saves)
      (hrest : (save.writer r).atRest = false) :
      Effect cfg s (.ioError save.attempt r)
        (s.setWriter save.attempt r { save.writer r with failed := true })
  | finalized {save : PendingSave} (hnext : s.nextToFinalize = some save)
      (hready : LocalState.readyToFinalize cfg save = true) :
      Effect cfg s .finalize (s.finalizeSave cfg save)
  | listed {r : Nat} {place : Place} {task : CleanupTask} (hr : r < cfg.worldSize)
      (htask : s.getTask r place = some task) (hnone : task.rmCkpts = none) :
      Effect cfg s (.list r place) (s.putTask r place
        { task with rmCkpts := some ((s.dirs r).keys.filter task.removes) })
  | refused {r : Nat} {place : Place} {task : CleanupTask} (hr : r < cfg.worldSize)
      (htask : s.getTask r place = some task) (hfailed : task.failedSave = true) :
      Effect cfg s (.list r place) (s.endTask r place true)
  | unlinked {r : Nat} {place : Place} {name : FileName} {task : CleanupTask}
      {names : List FileName} (hr : r < cfg.worldSize)
      (htask : s.getTask r place = some task) (hnames : task.rmCkpts = some names)
      (hname : name ∈ names) (hkey : name ∈ (s.dirs r).keys) :
      Effect cfg s (.unlink r place name)
        ((s.setDir r ((s.dirs r).erase name)).putTask r place
          { task with rmCkpts := some (names.erase name) })
  | missing {r : Nat} {place : Place} {name : FileName} {task : CleanupTask}
      {names : List FileName} (hr : r < cfg.worldSize)
      (htask : s.getTask r place = some task) (hnames : task.rmCkpts = some names)
      (hname : name ∈ names) (hkey : name ∉ (s.dirs r).keys) :
      Effect cfg s (.unlink r place name) (s.endTask r place true)
  | finished {r : Nat} {place : Place} {task : CleanupTask} (hr : r < cfg.worldSize)
      (htask : s.getTask r place = some task) (hnames : task.rmCkpts = some []) :
      Effect cfg s (.finish r place) (s.endTask r place false)
  | leave {iteration : Nat} {raises lost : Bool}
      (hcontrol : s.control = .cleaning iteration raises lost)
      (hnone : ∀ r < cfg.worldSize, s.inline r = none) :
      Effect cfg s .leave { s with control := .idle }
  | restart :
      Effect cfg s .restart { s with
        latestIteration := -1
        control := .idle
        saves := []
        tasks := fun _ => []
        inline := fun _ => none }

/-! ## Files -/

section Files

variable {dirs : Nat → CkptDir Nat} {r r' : Nat} {name : FileName}

theorem mem_keys_update_set {key : FileName} {content : Nat} :
    name ∈ (update dirs r ((dirs r).set key content) r').keys ↔
      (r' = r ∧ name = key) ∨ name ∈ (dirs r').keys := by
  rcases eq_or_ne r' r with rfl | hne
  · rw [update_self, Dict.mem_keys_set]
    simp
  · rw [update_of_ne hne]
    simp [hne]

theorem mem_keys_update_erase {key : FileName} :
    name ∈ (update dirs r ((dirs r).erase key) r').keys ↔
      name ∈ (dirs r').keys ∧ ¬ (r' = r ∧ name = key) := by
  rcases eq_or_ne r' r with rfl | hne
  · rw [update_self, Dict.mem_keys_erase]
    simp
  · rw [update_of_ne hne]
    simp [hne]

/-- A rename takes the old name away and adds the new one. -/
theorem mem_keys_update_rename {old new : FileName} {content : Nat} :
    name ∈ (update dirs r (((dirs r).erase old).set new content) r').keys ↔
      (r' = r ∧ name = new) ∨ (name ∈ (dirs r').keys ∧ ¬ (r' = r ∧ name = old)) := by
  rcases eq_or_ne r' r with rfl | hne
  · rw [update_self, Dict.mem_keys_set, Dict.mem_keys_erase]
    simp
  · rw [update_of_ne hne]
    simp [hne]

end Files

/-- A complete iteration stays complete as long as its shards stay. -/
theorem complete_mono {cfg : Config} {dirs dirs' : Nat → CkptDir Nat} {iteration : Nat}
    (hkept : ∀ r p, ⟨iteration, p, false⟩ ∈ (dirs r).keys →
      ⟨iteration, p, false⟩ ∈ (dirs' r).keys)
    (h : cfg.Complete dirs iteration) : cfg.Complete dirs' iteration := by
  intro p hp
  obtain ⟨r, hr, hmem, hown⟩ := h p hp
  exact ⟨r, hr, hkept r p hmem, hown⟩

namespace LocalState

variable {cfg : Config} {s t : LocalState}

variable {save : PendingSave} {attempt : Nat} {e : Event}

theorem effect_of_writeNext {r : Nat} (hr : r < cfg.worldSize) (hsave : save ∈ s.saves)
    (h : s.writeNext save r = some t) : Effect cfg s (.write save.attempt r) t := by
  unfold writeNext at h
  split at h
  · cases h
  · cases h
  · rename_i p todo hwriter
    split at h
    · rename_i hopen
      cases h
      exact .opened hr hsave hwriter hopen.1 hopen.2
    · rename_i hnot
      cases h
      refine .blocked hr hsave hwriter ?_
      rcases Bool.eq_false_or_eq_true (fitsDigits save.iteration) with hfits | hfits
      · exact Or.inr (Decidable.of_not_not fun hnew => hnot ⟨hfits, hnew⟩)
      · exact Or.inl hfits
  · rename_i p todo hwriter
    split at h
    · rename_i hgone
      cases h
      exact .gone hr hsave hwriter hgone
    · rename_i content hcontent
      cases h
      exact .renamed hr hsave hwriter hcontent

theorem effect_of_write {r : Nat} (h : s.write cfg attempt r = some t) :
    Effect cfg s (.write attempt r) t := by
  unfold write at h
  split at h
  · rename_i hr
    obtain ⟨save, hfind, hnext⟩ := Option.bind_eq_some_iff.mp h
    have hattempt : save.attempt = attempt := by simpa using find?_some hfind
    exact hattempt ▸ effect_of_writeNext hr (mem_of_find?_eq_some hfind) hnext
  · cases h

theorem effect_of_ioError {r : Nat} (h : s.ioError cfg attempt r = some t) :
    Effect cfg s (.ioError attempt r) t := by
  unfold ioError at h
  split at h
  · rename_i hr
    obtain ⟨save, hfind, hnext⟩ := Option.bind_eq_some_iff.mp h
    have hattempt : save.attempt = attempt := by simpa using find?_some hfind
    subst hattempt
    split at hnext
    · cases hnext
    · rename_i hrest
      cases hnext
      exact .ioError hr (mem_of_find?_eq_some hfind) (Bool.not_eq_true _ ▸ hrest)
  · cases h

theorem effect_of_finalize (h : s.finalize cfg = some t) : Effect cfg s .finalize t := by
  unfold finalize at h
  split at h
  · cases h
  · rename_i save hnext
    split at h
    · rename_i hready
      cases h
      exact .finalized hnext hready
    · cases h

theorem effect_of_leave (h : s.leave cfg = some t) : Effect cfg s .leave t := by
  unfold leave at h
  split at h
  · rename_i iteration raises lost hcontrol
    split at h
    · rename_i hall
      cases h
      refine .leave hcontrol fun r hr => ?_
      simpa using all_eq_true.mp hall r (mem_range.mpr hr)
    · cases h
  · cases h

theorem exists_of_withTask {r : Nat} {place : Place} {f : CleanupTask → Option LocalState}
    (h : s.withTask cfg r place f = some t) :
    r < cfg.worldSize ∧ ∃ task, s.getTask r place = some task ∧ f task = some t := by
  unfold withTask at h
  split at h
  · rename_i hr
    exact ⟨hr, Option.bind_eq_some_iff.mp h⟩
  · cases h

theorem effect_of_list {r : Nat} {place : Place}
    (h : s.withTask cfg r place (s.listTask r place) = some t) :
    Effect cfg s (.list r place) t := by
  obtain ⟨hr, task, htask, h⟩ := exists_of_withTask h
  unfold listTask at h
  split at h
  · cases h
  · rename_i hnone
    split at h
    · rename_i hrefused
      cases h
      exact .refused hr htask hrefused.1
    · cases h
      exact .listed hr htask hnone

theorem effect_of_unlink {r : Nat} {place : Place} {name : FileName}
    (h : s.withTask cfg r place (s.unlinkFile r place name) = some t) :
    Effect cfg s (.unlink r place name) t := by
  obtain ⟨hr, task, htask, h⟩ := exists_of_withTask h
  unfold unlinkFile at h
  split at h
  · cases h
  · rename_i names hnames
    split at h
    · cases h
    · rename_i hmem
      have hname : name ∈ names := Decidable.of_not_not hmem
      split at h
      · rename_i hkey
        cases h
        exact .unlinked hr htask hnames hname hkey
      · rename_i hkey
        cases h
        exact .missing hr htask hnames hname hkey

theorem effect_of_finish {r : Nat} {place : Place}
    (h : s.withTask cfg r place (s.finishTask r place) = some t) :
    Effect cfg s (.finish r place) t := by
  obtain ⟨hr, task, htask, h⟩ := exists_of_withTask h
  unfold finishTask at h
  split at h
  · rename_i hnames
    cases h
    exact .finished hr htask hnames
  · cases h

/-- Every step is one of the effects. -/
theorem effect_of_step (h : s.step cfg e = some t) : Effect cfg s e t := by
  cases e with
  | findLatest =>
    simp only [step] at h
    split at h
    · rename_i hidle
      cases h
      exact .findLatest hidle
    · cases h
  | load =>
    simp only [step] at h
    split at h
    · cases h
      exact .load
    · cases h
  | save iteration isAsync =>
    simp only [step, save] at h
    split at h
    · rename_i hguard
      cases h
      exact .save hguard.1 hguard.2
    · cases h
  | write attempt r => exact effect_of_write h
  | ioError attempt r => exact effect_of_ioError h
  | finalize => exact effect_of_finalize h
  | list r place => exact effect_of_list h
  | unlink r place name => exact effect_of_unlink h
  | finish r place => exact effect_of_finish h
  | leave => exact effect_of_leave h
  | restart =>
    cases h
    exact .restart

/-! ## Writers -/

theorem exists_of_mem_setWriter {r : Nat} {writer : Writer}
    (h : save ∈ (s.setWriter attempt r writer).saves) :
    ∃ before ∈ s.saves,
      (before.attempt = attempt ∧
        save = { before with writer := update before.writer r writer }) ∨
      (before.attempt ≠ attempt ∧ save = before) := by
  obtain ⟨before, hbefore, rfl⟩ := mem_map.mp h
  refine ⟨before, hbefore, ?_⟩
  split
  · rename_i hattempt
    exact Or.inl ⟨hattempt, rfl⟩
  · rename_i hattempt
    exact Or.inr ⟨hattempt, rfl⟩

/-- What does not depend on the writers is as before. -/
theorem map_setWriter {β : Type} (f : PendingSave → β)
    (hf : ∀ save writer, f { save with writer := writer } = f save) (attempt r : Nat)
    (writer : Writer) : (s.setWriter attempt r writer).saves.map f = s.saves.map f := by
  simp only [setWriter, map_map]
  refine map_congr_left fun save _ => ?_
  simp only [comp_apply]
  split
  · exact hf _ _
  · rfl

/-! ## Clean-ups -/

/-- The rank has the clean-up, in the training process or in an executor. -/
def HasTask (s : LocalState) (r : Nat) (task : CleanupTask) : Prop :=
  s.inline r = some task ∨ task ∈ s.tasks r

theorem hasTask_of_getTask {r : Nat} {place : Place} {task : CleanupTask}
    (h : s.getTask r place = some task) : s.HasTask r task := by
  cases place with
  | none => exact Or.inl h
  | some i => exact Or.inr (mem_of_getElem? h)

theorem hasTask_putTask {r r' : Nat} {place : Place} {task task' : CleanupTask}
    (h : (s.putTask r place task).HasTask r' task') :
    (r' = r ∧ task' = task) ∨ s.HasTask r' task' := by
  rcases eq_or_ne r' r with rfl | hne
  · cases place with
    | none =>
      rcases h with h | h
      · simp only [putTask, update_self, Option.some.injEq] at h
        exact Or.inl ⟨rfl, h.symm⟩
      · exact Or.inr (Or.inr h)
    | some i =>
      rcases h with h | h
      · exact Or.inr (Or.inl h)
      · simp only [putTask, update_self] at h
        rcases mem_or_eq_of_mem_set h with h | h
        · exact Or.inr (Or.inr h)
        · exact Or.inl ⟨rfl, h⟩
  · cases place with
    | none =>
      rcases h with h | h
      · simp only [putTask, update_of_ne hne] at h
        exact Or.inr (Or.inl h)
      · exact Or.inr (Or.inr h)
    | some i =>
      rcases h with h | h
      · exact Or.inr (Or.inl h)
      · simp only [putTask, update_of_ne hne] at h
        exact Or.inr (Or.inr h)

theorem hasTask_endTask {r r' : Nat} {place : Place} {error : Bool} {task : CleanupTask}
    (h : (s.endTask r place error).HasTask r' task) : s.HasTask r' task := by
  cases place with
  | none =>
    rcases h with h | h
    · simp only [endTask] at h
      rcases eq_or_ne r' r with rfl | hne
      · simp only [update_self] at h
        cases h
      · exact Or.inl (by rwa [update_of_ne hne] at h)
    · exact Or.inr h
  | some i =>
    rcases h with h | h
    · exact Or.inl h
    · simp only [endTask] at h
      rcases eq_or_ne r' r with rfl | hne
      · rw [update_self] at h
        exact Or.inr (mem_of_mem_eraseIdx h)
      · exact Or.inr (by rwa [update_of_ne hne] at h)

section

variable (r : Nat) (place : Place)

@[simp] theorem dirs_putTask (task : CleanupTask) : (s.putTask r place task).dirs = s.dirs := by
  cases place <;> rfl

@[simp] theorem saves_putTask (task : CleanupTask) :
    (s.putTask r place task).saves = s.saves := by
  cases place <;> rfl

@[simp] theorem attempts_putTask (task : CleanupTask) :
    (s.putTask r place task).attempts = s.attempts := by
  cases place <;> rfl

@[simp] theorem control_putTask (task : CleanupTask) :
    (s.putTask r place task).control = s.control := by
  cases place <;> rfl

@[simp] theorem outcomes_putTask (task : CleanupTask) :
    (s.putTask r place task).outcomes = s.outcomes := by
  cases place <;> rfl

@[simp] theorem dirs_endTask (error : Bool) : (s.endTask r place error).dirs = s.dirs := by
  cases place <;> rfl

@[simp] theorem saves_endTask (error : Bool) : (s.endTask r place error).saves = s.saves := by
  cases place <;> rfl

@[simp] theorem attempts_endTask (error : Bool) :
    (s.endTask r place error).attempts = s.attempts := by
  cases place <;> rfl

@[simp] theorem control_endTask (error : Bool) :
    (s.endTask r place error).control = s.control := by
  cases place <;> rfl

end

@[simp] theorem dirs_finalizeSave (save : PendingSave) :
    (s.finalizeSave cfg save).dirs = s.dirs := by
  unfold finalizeSave
  split <;> rfl

@[simp] theorem saves_finalizeSave (save : PendingSave) :
    (s.finalizeSave cfg save).saves =
      s.saves.filter fun other => other.attempt ≠ save.attempt := by
  unfold finalizeSave
  split <;> rfl

@[simp] theorem attempts_finalizeSave (save : PendingSave) :
    (s.finalizeSave cfg save).attempts = s.attempts := by
  unfold finalizeSave
  split <;> rfl

theorem hasTask_finalizeSave {r : Nat} {task : CleanupTask}
    (h : (s.finalizeSave cfg save).HasTask r task) :
    task = ⟨save.iteration, decide (s.findLatest cfg < save.iteration), none⟩ ∨
      s.HasTask r task := by
  unfold finalizeSave at h
  simp only at h
  split at h
  · rcases h with h | h
    · exact Or.inr (Or.inl h)
    · rcases mem_append.mp h with h | h
      · exact Or.inr (Or.inr h)
      · exact Or.inl (mem_singleton.mp h)
  · rcases h with h | h
    · exact Or.inl (Option.some.inj h).symm
    · exact Or.inr (Or.inr h)

theorem mem_of_nextToFinalize (h : s.nextToFinalize = some save) : save ∈ s.saves := by
  unfold nextToFinalize at h
  split at h
  · exact mem_of_head? h
  · exact mem_of_getLast? h
  · cases h

/-! ## The numbers of the save calls -/

/-- The saves that are not finalized have different numbers, all of them given out. -/
structure Numbered (s : LocalState) : Prop where
  nodup : (s.saves.map PendingSave.attempt).Nodup
  lt_length : ∀ save ∈ s.saves, save.attempt < s.attempts.length

theorem Numbered.eq_of_attempt (h : s.Numbered) {other : PendingSave} (hsave : save ∈ s.saves)
    (hother : other ∈ s.saves) (heq : other.attempt = save.attempt) : other = save :=
  inj_on_of_nodup_map h.nodup hother hsave heq

theorem Numbered.setWriter (h : s.Numbered) (attempt r : Nat) (writer : Writer) :
    (s.setWriter attempt r writer).Numbered where
  nodup := by
    rw [map_setWriter PendingSave.attempt fun _ _ => rfl]
    exact h.nodup
  lt_length save hsave := by
    obtain ⟨before, hbefore, ⟨_, rfl⟩ | ⟨_, rfl⟩⟩ := exists_of_mem_setWriter hsave
    · exact h.lt_length before hbefore
    · exact h.lt_length save hbefore

theorem Numbered.setDir (h : s.Numbered) (r : Nat) (dir : CkptDir Nat) :
    (s.setDir r dir).Numbered :=
  ⟨h.nodup, h.lt_length⟩

theorem Numbered.effect (h : s.Numbered) (heffect : Effect cfg s e t) : t.Numbered := by
  cases heffect with
  | findLatest | load | leave => exact ⟨h.nodup, h.lt_length⟩
  | save =>
    refine ⟨?_, fun save hsave => ?_⟩
    · rw [map_append, nodup_append]
      refine ⟨h.nodup, nodup_singleton _, fun k hk k' hk' => ?_⟩
      obtain ⟨save, hsave, rfl⟩ := mem_map.mp hk
      rw [mem_singleton.mp hk']
      exact Nat.ne_of_lt (h.lt_length save hsave)
    · rw [length_append]
      rcases mem_append.mp hsave with hsave | hsave
      · exact Nat.lt_add_right _ (h.lt_length save hsave)
      · rw [mem_singleton.mp hsave]
        exact Nat.lt_succ_self _
  | blocked | gone | ioError => exact h.setWriter _ _ _
  | opened | renamed => exact (h.setDir _ _).setWriter _ _ _
  | finalized =>
    refine ⟨?_, fun save hsave => ?_⟩
    · rw [saves_finalizeSave]
      exact h.nodup.sublist (filter_sublist.map _)
    · rw [attempts_finalizeSave]
      rw [saves_finalizeSave] at hsave
      exact h.lt_length save (mem_filter.mp hsave).1
  | listed | unlinked =>
    refine ⟨?_, ?_⟩
    · rw [saves_putTask]
      exact h.nodup
    · rw [saves_putTask, attempts_putTask]
      exact h.lt_length
  | refused | missing | finished =>
    refine ⟨?_, ?_⟩
    · rw [saves_endTask]
      exact h.nodup
    · rw [saves_endTask, attempts_endTask]
      exact h.lt_length
  | restart => exact ⟨nodup_nil, by simp⟩

theorem numbered_of_reachable {D : (Nat → CkptDir Nat) → Prop}
    {C : LocalState → Event → Prop} (hs : (localSaves cfg D).Reachable C s) : s.Numbered := by
  refine hs.invariant ?_ fun s e t h _ hstep => h.effect (effect_of_step hstep)
  rintro _ ⟨dirs, _, rfl⟩
  exact ⟨nodup_nil, by simp [fresh]⟩

/-! ## Ranks of the world -/

/-- The directories hold, and the writers write, shards of ranks of the world only. -/
structure Placed (cfg : Config) (s : LocalState) : Prop where
  inWorld : cfg.InWorld s.dirs
  todo : ∀ save ∈ s.saves, ∀ r < cfg.worldSize, ∀ p ∈ (save.writer r).todo, p < cfg.worldSize

theorem Placed.setWriter (h : Placed cfg s) {r : Nat} {writer : Writer}
    (htodo : ∀ p ∈ writer.todo, p < cfg.worldSize) :
    Placed cfg (s.setWriter attempt r writer) where
  inWorld := h.inWorld
  todo save hsave r' hr' p hp := by
    obtain ⟨before, hbefore, ⟨_, rfl⟩ | ⟨_, rfl⟩⟩ := exists_of_mem_setWriter hsave
    · rcases eq_or_ne r' r with rfl | hne
      · simp only [update_self] at hp
        exact htodo p hp
      · simp only [update_of_ne hne] at hp
        exact h.todo before hbefore r' hr' p hp
    · exact h.todo save hbefore r' hr' p hp

theorem Placed.setDir (h : Placed cfg s) {r : Nat} {dir : CkptDir Nat}
    (hworld : ∀ name ∈ dir.keys, name ∈ (s.dirs r).keys ∨ name.rank < cfg.worldSize) :
    Placed cfg (s.setDir r dir) where
  inWorld r' hr' name hname := by
    simp only [LocalState.setDir] at hname
    rcases eq_or_ne r' r with rfl | hne
    · rw [update_self] at hname
      exact (hworld name hname).elim (h.inWorld r' hr' name) id
    · rw [update_of_ne hne] at hname
      exact h.inWorld r' hr' name hname
  todo := h.todo

theorem Placed.of_same (h : Placed cfg s) (hdirs : t.dirs = s.dirs)
    (hsaves : ∀ save ∈ t.saves, save ∈ s.saves) : Placed cfg t where
  inWorld := hdirs ▸ h.inWorld
  todo save hsave := h.todo save (hsaves save hsave)

theorem Placed.effect (h : Placed cfg s) (heffect : Effect cfg s e t) : Placed cfg t := by
  cases heffect with
  | findLatest | load | leave => exact ⟨h.inWorld, h.todo⟩
  | save =>
    refine ⟨h.inWorld, fun save hsave r hr p hp => ?_⟩
    rcases mem_append.mp hsave with hsave | hsave
    · exact h.todo save hsave r hr p hp
    · rw [mem_singleton.mp hsave] at hp
      exact cfg.lt_of_mem_shards hr hp
  | @opened r save p todo hr hsave hwriter =>
    have htodo := h.todo save hsave r hr
    rw [hwriter] at htodo
    refine (h.setDir fun name hname => ?_).setWriter htodo
    rcases Dict.mem_keys_set.mp hname with rfl | hname
    · exact Or.inr (htodo p mem_cons_self)
    · exact Or.inl hname
  | @renamed r save p todo content hr hsave hwriter =>
    have htodo := h.todo save hsave r hr
    rw [hwriter] at htodo
    refine (h.setDir fun name hname => ?_).setWriter fun q hq =>
      htodo q (mem_cons_of_mem _ hq)
    rcases Dict.mem_keys_set.mp hname with rfl | hname
    · exact Or.inr (htodo p mem_cons_self)
    · exact Or.inl (Dict.mem_keys_erase.mp hname).1
  | @blocked r save p todo hr hsave hwriter =>
    have htodo := h.todo save hsave r hr
    rw [hwriter] at htodo
    exact h.setWriter htodo
  | @gone r save p todo hr hsave hwriter =>
    have htodo := h.todo save hsave r hr
    rw [hwriter] at htodo
    exact h.setWriter htodo
  | ioError hr hsave => exact h.setWriter (h.todo _ hsave _ hr)
  | finalized =>
    refine h.of_same (dirs_finalizeSave _) fun save hsave => ?_
    rw [saves_finalizeSave] at hsave
    exact (mem_filter.mp hsave).1
  | listed => exact h.of_same (dirs_putTask _ _ _) fun save hsave => by rwa [saves_putTask] at hsave
  | unlinked =>
    refine Placed.of_same (h.setDir fun name hname => ?_) (dirs_putTask _ _ _)
      fun save hsave => by rwa [saves_putTask] at hsave
    exact Or.inl (Dict.mem_keys_erase.mp hname).1
  | refused | missing | finished =>
    exact h.of_same (dirs_endTask _ _ _) fun save hsave => by rwa [saves_endTask] at hsave
  | restart => exact ⟨h.inWorld, by simp⟩

theorem placed_of_reachable {D : (Nat → CkptDir Nat) → Prop}
    (hD : ∀ dirs, D dirs → cfg.InWorld dirs)
    {C : LocalState → Event → Prop} (hs : (localSaves cfg D).Reachable C s) : Placed cfg s := by
  refine hs.invariant ?_ fun s e t h _ hstep => h.effect (effect_of_step hstep)
  rintro _ ⟨dirs, hdirs, rfl⟩
  exact ⟨hD dirs hdirs, by simp [fresh]⟩

end LocalState

end ResiliencyExt.Checkpointing.Local
