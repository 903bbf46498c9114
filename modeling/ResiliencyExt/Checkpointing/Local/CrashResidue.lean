import ResiliencyExt.Checkpointing.Local.LocalSteps
import ResiliencyExt.Foundation.Counting

set_option autoImplicit false

/-!
# Local checkpoints: what crashes leave behind

A writer opens its dirty file for exclusive creation.  A dirty file that a crash has
left is removed by the clean-up of a later iteration, or of a failed save of its own,
and until then it blocks every save of its iteration on its rank.  A save is followed
from its call to the end of its writers, beside whatever else the ranks do with other
iterations.
-/

namespace ResiliencyExt.Checkpointing.Local

open Foundation List Function

/-- The directory has room for a dirty file of the shard. -/
def free (dir : CkptDir Nat) (iteration p : Nat) : Bool :=
  fitsDigits iteration && ⟨iteration, p, true⟩ ∉ dir.keys

/-- Every rank's shard is there already, or some rank saves it and finds no dirty file of it
or of a shard that it saves before. -/
def Config.Savable (cfg : Config) (dirs : Nat → CkptDir Nat) (iteration : Nat) : Prop :=
  ∀ p < cfg.worldSize, ∃ r < cfg.worldSize, (⟨iteration, p, false⟩ ∈ (dirs r).keys ∨
    p ∈ (cfg.shards r).takeWhile (free (dirs r) iteration)) ∧ (cfg.cliques = none → p = r)

namespace LocalState

variable {cfg : Config} {s t u : LocalState}

/-- No save of the iteration is being made, and no clean-up may remove a file of it. -/
def Undisturbed (cfg : Config) (s : LocalState) (iteration : Nat) : Prop :=
  (∀ save ∈ s.saves, save.iteration ≠ iteration) ∧
    ∀ r < cfg.worldSize, ∀ task, s.HasTask r task → ∀ name : FileName,
      name.iteration = iteration → task.mayRemove name = false

/-- While the save is being written there is no crash and no I/O error of its own, no other
save of the iteration is made, and what is finalized is older. -/
def While (attempt iteration : Nat) (s : LocalState) : Event → Prop
  | .restart => False
  | .ioError other _ => other ≠ attempt
  | .save other _ => other ≠ iteration
  | .finalize => ∀ save ∈ s.nextToFinalize, save.iteration < iteration
  | _ => True

instance (attempt iteration : Nat) (s : LocalState) (e : Event) :
    Decidable (s.While attempt iteration e) :=
  match e with
  | .restart => inferInstanceAs (Decidable False)
  | .ioError other _ => inferInstanceAs (Decidable (other ≠ attempt))
  | .save other _ => inferInstanceAs (Decidable (other ≠ iteration))
  | .finalize => inferInstanceAs (Decidable (∀ save ∈ s.nextToFinalize, save.iteration < iteration))
  | .findLatest | .load | .write _ _ | .list _ _ | .unlink _ _ _ | .finish _ _ | .leave =>
    inferInstanceAs (Decidable True)

/-! ## The writer of one rank -/

/-- How far the writer has come, compared with the directory that it began with. -/
structure Progress (cfg : Config) (before dir : CkptDir Nat)
    (iteration r : Nat) (done : List Nat) (writer : Writer) : Prop where
  shards : cfg.shards r = done ++ writer.todo
  final : ∀ p, ⟨iteration, p, false⟩ ∈ dir.keys ↔
    ⟨iteration, p, false⟩ ∈ before.keys ∨ p ∈ done
  dirty : ∀ p, ⟨iteration, p, true⟩ ∈ dir.keys ↔
    ⟨iteration, p, true⟩ ∈ before.keys ∨ (writer.opened = true ∧ writer.todo.head? = some p)
  doneFree : ∀ p ∈ done, free before iteration p = true
  openFree : writer.opened = true → ∀ p, writer.todo.head? = some p →
    free before iteration p = true
  blocked : writer.failed = true →
    ∃ p, writer.todo.head? = some p ∧ free before iteration p = false

namespace Progress

variable {before dir dir' : CkptDir Nat} {iteration r p : Nat}
  {done todo : List Nat} {writer : Writer}

theorem congr (h : Progress cfg before dir iteration r done writer)
    (hsame : ∀ p dirty, ⟨iteration, p, dirty⟩ ∈ dir'.keys ↔ ⟨iteration, p, dirty⟩ ∈ dir.keys) :
    Progress cfg before dir' iteration r done writer :=
  { h with
    final := fun p => (hsame p false).trans (h.final p)
    dirty := fun p => (hsame p true).trans (h.dirty p) }

/-- The dirty file of the next shard is opened. -/
theorem opened (h : Progress cfg before dir iteration r done ⟨p :: todo, false, false⟩)
    (hfits : fitsDigits iteration = true) (hnew : ⟨iteration, p, true⟩ ∉ dir.keys)
    (content : Nat) :
    Progress cfg before (dir.set ⟨iteration, p, true⟩ content) iteration r done
      ⟨p :: todo, true, false⟩ where
  shards := h.shards
  final q := by
    rw [Dict.mem_keys_set, ← h.final q]
    exact ⟨fun hmem => hmem.elim (fun heq => by cases heq) id, Or.inr⟩
  dirty q := by
    rw [Dict.mem_keys_set, h.dirty q]
    simp [or_comm, eq_comm]
  doneFree := h.doneFree
  openFree _ q hq := by
    cases hq
    have hbefore : ⟨iteration, p, true⟩ ∉ before.keys := fun hmem =>
      hnew ((h.dirty p).mpr (Or.inl hmem))
    simp [free, hfits, hbefore]
  blocked := nofun

/-- The next shard gets its final name. -/
theorem renamed (h : Progress cfg before dir iteration r done ⟨p :: todo, true, false⟩)
    (content : Nat) :
    Progress cfg before ((dir.erase ⟨iteration, p, true⟩).set ⟨iteration, p, false⟩ content)
      iteration r (done ++ [p]) ⟨todo, false, false⟩ where
  shards := by
    rw [append_assoc]
    exact h.shards
  final q := by
    rw [Dict.mem_keys_set, Dict.mem_keys_erase, h.final q]
    simp [or_comm, or_assoc]
  dirty q := by
    have hbefore : ⟨iteration, p, true⟩ ∉ before.keys := by
      have hfree := h.openFree rfl p rfl
      simp only [free, Bool.and_eq_true, decide_eq_true_eq] at hfree
      exact hfree.2
    rw [Dict.mem_keys_set, Dict.mem_keys_erase, h.dirty q]
    constructor
    · rintro (heq | ⟨hmem | ⟨_, hq⟩, hne⟩)
      · cases heq
      · exact Or.inl hmem
      · cases hq
        exact absurd rfl hne
    · rintro (hmem | ⟨hopened, _⟩)
      · refine Or.inr ⟨Or.inl hmem, fun heq => ?_⟩
        cases heq
        exact hbefore hmem
      · cases hopened
  doneFree q hq := by
    rcases mem_append.mp hq with hq | hq
    · exact h.doneFree q hq
    · rw [mem_singleton.mp hq]
      exact h.openFree rfl p rfl
  openFree hopened := by cases hopened
  blocked := nofun

/-- The dirty file exists, or the iteration has too many digits. -/
theorem stopped (h : Progress cfg before dir iteration r done ⟨p :: todo, false, false⟩)
    (hblocked : fitsDigits iteration = false ∨ ⟨iteration, p, true⟩ ∈ dir.keys) :
    Progress cfg before dir iteration r done ⟨p :: todo, false, true⟩ :=
  { h with
    blocked := fun _ => by
      refine ⟨p, rfl, ?_⟩
      rcases hblocked with hdigits | hmem
      · simp [free, hdigits]
      · have hbefore : ⟨iteration, p, true⟩ ∈ before.keys :=
          ((h.dirty p).mp hmem).elim id fun hopened => by cases hopened.1
        simp [free, hbefore] }

/-- A writer that has come to its end has saved the shards before the first one that is
blocked. -/
theorem done_eq (h : Progress cfg before dir iteration r done writer)
    (hrest : writer.atRest = true) :
    (cfg.shards r).takeWhile (free before iteration) = done := by
  rw [h.shards, takeWhile_append_of_pos h.doneFree]
  obtain ⟨todo, opened, failed⟩ := writer
  cases failed with
  | false =>
    have hempty : todo = [] := by simpa [Writer.atRest] using hrest
    simp [hempty]
  | true =>
    obtain ⟨p, hp, hblocked⟩ := h.blocked rfl
    obtain ⟨rest, rfl⟩ := head?_eq_some_iff.mp hp
    rw [takeWhile_cons_of_neg (by simp [hblocked]), append_nil]

end Progress

/-! ## The save on all ranks -/

/-- The save call with the number `attempt` is under way, and nothing else touches the files
of its iteration. -/
structure Tracked (cfg : Config) (before : Nat → CkptDir Nat) (attempt iteration : Nat)
    (s : LocalState) : Prop where
  pending : ∃ save ∈ s.saves, save.attempt = attempt ∧ save.iteration = iteration ∧
    ∀ r < cfg.worldSize, ∃ done,
      Progress cfg (before r) (s.dirs r) iteration r done (save.writer r)
  alone : ∀ save ∈ s.saves, save.iteration = iteration → save.attempt = attempt
  tasks : ∀ r < cfg.worldSize, ∀ task, s.HasTask r task → ∀ name : FileName,
    name.iteration = iteration → task.mayRemove name = false

namespace Tracked

variable {before : Nat → CkptDir Nat} {attempt iteration : Nat}

/-- The save has been called. -/
theorem init {isAsync : Bool} (hquiet : s.Undisturbed cfg iteration) :
    Tracked cfg s.dirs s.attempts.length iteration { s with
      latestIteration := -1
      control := if isAsync then .idle else .saving
      saves := s.saves ++ [⟨s.attempts.length, iteration, isAsync,
        fun r => ⟨cfg.shards r, false, false⟩⟩]
      attempts := s.attempts ++ [iteration] } where
  pending := by
    refine ⟨_, mem_append_right _ (mem_singleton_self _), rfl, rfl, fun r _ => ⟨[], ?_⟩⟩
    exact
      { shards := rfl
        final := by simp
        dirty := by simp
        doneFree := by simp
        openFree := nofun
        blocked := nofun }
  alone save hsave hiteration := by
    rcases mem_append.mp hsave with hsave | hsave
    · exact absurd hiteration (hquiet.1 save hsave)
    · rw [mem_singleton.mp hsave]
  tasks := hquiet.2

/-- Some writer takes a step that changes one directory. -/
theorem write (h : Tracked cfg before attempt iteration s) (hnumbered : s.Numbered) {r : Nat}
    {save : PendingSave} {dir : CkptDir Nat} {writer : Writer} (hr : r < cfg.worldSize)
    (hsave : save ∈ s.saves)
    (hown : save.attempt = attempt → save.iteration = iteration → ∀ done,
      Progress cfg (before r) (s.dirs r) iteration r done (save.writer r) →
        ∃ done, Progress cfg (before r) dir iteration r done writer)
    (hother : save.iteration ≠ iteration → ∀ p dirty,
      ⟨iteration, p, dirty⟩ ∈ dir.keys ↔ ⟨iteration, p, dirty⟩ ∈ (s.dirs r).keys) :
    Tracked cfg before attempt iteration ((s.setDir r dir).setWriter save.attempt r writer) where
  pending := by
    obtain ⟨own, hmem, hattempt, hiteration, hprogress⟩ := h.pending
    by_cases hsame : own.attempt = save.attempt
    · obtain rfl : save = own := (hnumbered.eq_of_attempt hsave hmem hsame).symm
      refine ⟨{ save with writer := update save.writer r writer },
        mem_map.mpr ⟨save, hmem, if_pos rfl⟩, hattempt, hiteration, fun r' hr' => ?_⟩
      simp only [LocalState.setDir, setWriter]
      rcases eq_or_ne r' r with rfl | hne
      · obtain ⟨done, hdone⟩ := hprogress r' hr'
        rw [update_self, update_self]
        exact hown hattempt hiteration done hdone
      · rw [update_of_ne hne, update_of_ne hne]
        exact hprogress r' hr'
    · refine ⟨own, mem_map.mpr ⟨own, hmem, if_neg hsame⟩, hattempt, hiteration,
        fun r' hr' => ?_⟩
      obtain ⟨done, hdone⟩ := hprogress r' hr'
      simp only [LocalState.setDir, setWriter]
      rcases eq_or_ne r' r with rfl | hne
      · rw [update_self]
        refine ⟨done, hdone.congr (hother fun heq => hsame ?_)⟩
        rw [hattempt, h.alone save hsave heq]
      · rw [update_of_ne hne]
        exact ⟨done, hdone⟩
  alone other hother hiteration := by
    obtain ⟨old, hold, ⟨_, rfl⟩ | ⟨_, rfl⟩⟩ := exists_of_mem_setWriter hother
    · exact h.alone old hold hiteration
    · exact h.alone other hold hiteration
  tasks := h.tasks

/-- A writer takes a step that changes no directory. -/
theorem writeNothing (h : Tracked cfg before attempt iteration s) (hnumbered : s.Numbered)
    {r : Nat} {save : PendingSave} {writer : Writer} (hr : r < cfg.worldSize)
    (hsave : save ∈ s.saves)
    (hown : save.attempt = attempt → save.iteration = iteration → ∀ done,
      Progress cfg (before r) (s.dirs r) iteration r done (save.writer r) →
        ∃ done, Progress cfg (before r) (s.dirs r) iteration r done writer) :
    Tracked cfg before attempt iteration (s.setWriter save.attempt r writer) := by
  have hwrite := h.write hnumbered hr hsave hown fun _ _ _ => Iff.rfl
  simpa only [setDir, update_eq_self] using hwrite

/-- The directories, the save and the clean-ups that there were are all there is. -/
theorem of_less (h : Tracked cfg before attempt iteration s) (hdirs : t.dirs = s.dirs)
    (hpending : ∀ save ∈ s.saves, save.iteration = iteration → save ∈ t.saves)
    (hsaves : ∀ save ∈ t.saves, save ∈ s.saves ∨ save.iteration ≠ iteration)
    (htasks : ∀ r task, t.HasTask r task → s.HasTask r task ∨ ∀ name : FileName,
      name.iteration = iteration → task.mayRemove name = false) :
    Tracked cfg before attempt iteration t where
  pending := by
    obtain ⟨save, hmem, hattempt, hiteration, hprogress⟩ := h.pending
    exact ⟨save, hpending save hmem hiteration, hattempt, hiteration, hdirs ▸ hprogress⟩
  alone save hsave hiteration := by
    rcases hsaves save hsave with hsave | hne
    · exact h.alone save hsave hiteration
    · exact absurd hiteration hne
  tasks r hr task htask := (htasks r task htask).elim (h.tasks r hr task) id

/-- A clean-up goes on without the files of the iteration. -/
theorem putTask (h : Tracked cfg before attempt iteration s) {r : Nat} {place : Place}
    {task : CleanupTask}
    (htask : ∀ name : FileName, name.iteration = iteration → task.mayRemove name = false) :
    Tracked cfg before attempt iteration (s.putTask r place task) := by
  refine h.of_less (dirs_putTask _ _ _) (fun save hsave _ => ?_) (fun save hsave => ?_)
    fun r' task' htask' => ?_
  · rwa [saves_putTask]
  · rw [saves_putTask] at hsave
    exact Or.inl hsave
  · rcases hasTask_putTask htask' with ⟨_, rfl⟩ | hbefore
    · exact Or.inr htask
    · exact Or.inl hbefore

/-- A file of another iteration is removed. -/
theorem remove (h : Tracked cfg before attempt iteration s) {r : Nat} {name : FileName}
    (hname : name.iteration ≠ iteration) :
    Tracked cfg before attempt iteration (s.setDir r ((s.dirs r).erase name)) where
  pending := by
    obtain ⟨save, hmem, hattempt, hiteration, hprogress⟩ := h.pending
    refine ⟨save, hmem, hattempt, hiteration, fun r' hr' => ?_⟩
    obtain ⟨done, hdone⟩ := hprogress r' hr'
    refine ⟨done, hdone.congr fun p dirty => mem_keys_update_erase.trans ?_⟩
    refine and_iff_left fun heq => hname ?_
    rw [← heq.2]
  alone := h.alone
  tasks := h.tasks

theorem effect {e : Event} (h : Tracked cfg before attempt iteration s)
    (hnumbered : s.Numbered) (hwhile : s.While attempt iteration e)
    (heffect : Effect cfg s e t) : Tracked cfg before attempt iteration t := by
  cases heffect with
  | findLatest | leave =>
    exact h.of_less rfl (fun _ hsave _ => hsave) (fun _ => Or.inl) fun _ _ => Or.inl
  | load => exact h
  | save =>
    refine h.of_less rfl (fun _ hsave _ => mem_append_left _ hsave) (fun other hother => ?_)
      fun _ _ => Or.inl
    rcases mem_append.mp hother with hother | hother
    · exact Or.inl hother
    · rw [mem_singleton.mp hother]
      exact Or.inr hwhile
  | @opened r save p todo hr hsave hwriter hfits hnew =>
    refine h.write hnumbered hr hsave (fun hattempt hiteration done hdone => ?_)
      fun hne q dirty => ?_
    · rw [hwriter] at hdone
      subst hiteration
      exact ⟨done, hdone.opened hfits hnew save.attempt⟩
    · rw [Dict.mem_keys_set]
      exact or_iff_right fun heq => hne (congrArg FileName.iteration heq).symm
  | @blocked r save p todo hr hsave hwriter hblocked =>
    refine h.writeNothing hnumbered hr hsave fun hattempt hiteration done hdone => ?_
    rw [hwriter] at hdone
    subst hiteration
    exact ⟨done, hdone.stopped hblocked⟩
  | @renamed r save p todo content hr hsave hwriter =>
    refine h.write hnumbered hr hsave (fun hattempt hiteration done hdone => ?_)
      fun hne q dirty => ?_
    · rw [hwriter] at hdone
      subst hiteration
      exact ⟨done ++ [p], hdone.renamed content⟩
    · rw [Dict.mem_keys_set, Dict.mem_keys_erase]
      have hother : ∀ d, (⟨iteration, q, dirty⟩ : FileName) ≠ ⟨save.iteration, p, d⟩ :=
        fun d heq => hne (congrArg FileName.iteration heq).symm
      exact (or_iff_right (hother false)).trans (and_iff_left (hother true))
  | @gone r save p todo hr hsave hwriter hgone =>
    refine h.writeNothing hnumbered hr hsave fun hattempt hiteration done hdone => ?_
    -- nobody else removes the file that the writer has open
    rw [hwriter] at hdone
    subst hiteration
    have hmem := (hdone.dirty p).mpr (Or.inr ⟨rfl, rfl⟩)
    obtain ⟨content, hget⟩ := Dict.exists_get?_of_mem hmem
    cases hgone.symm.trans hget
  | ioError hr hsave =>
    exact h.writeNothing hnumbered hr hsave fun hattempt => absurd hattempt hwhile
  | @finalized save hnext =>
    have holder := hwhile save hnext
    refine h.of_less (dirs_finalizeSave _) (fun other hother hiteration => ?_)
      (fun other hother => ?_) fun r task htask => ?_
    · rw [saves_finalizeSave]
      refine mem_filter.mpr ⟨hother, decide_eq_true fun heq => ?_⟩
      have hsame := hnumbered.eq_of_attempt (mem_of_nextToFinalize hnext) hother heq
      rw [← hsame, hiteration] at holder
      exact Nat.lt_irrefl _ holder
    · rw [saves_finalizeSave] at hother
      exact Or.inl (mem_filter.mp hother).1
    · rcases hasTask_finalizeSave htask with rfl | hbefore
      · -- its clean-up is about older iterations
        refine Or.inr fun name hname => ?_
        simp only [CleanupTask.mayRemove, CleanupTask.removes]
        split
        · exact decide_eq_false fun heq => absurd holder (by omega)
        · exact decide_eq_false (by omega)
      · exact Or.inl hbefore
  | @listed r place task hr htask hnone =>
    refine h.putTask fun name hname => decide_eq_false fun hmem => ?_
    have hmay := h.tasks r hr task (hasTask_of_getTask htask) name hname
    simp only [CleanupTask.mayRemove, hnone] at hmay
    exact Bool.false_ne_true (hmay.symm.trans (mem_filter.mp hmem).2)
  | @unlinked r place name task names hr htask hnames hname =>
    have hmay := h.tasks r hr task (hasTask_of_getTask htask)
    simp only [CleanupTask.mayRemove, hnames, decide_eq_false_iff_not] at hmay
    refine (h.remove fun heq => hmay name heq hname).putTask fun other hother => ?_
    exact decide_eq_false fun hmem => hmay other hother (mem_of_mem_erase hmem)
  | refused | missing | finished =>
    refine h.of_less (dirs_endTask _ _ _) (fun save hsave _ => ?_) (fun save hsave => ?_)
      fun _ _ htask => Or.inl (hasTask_endTask htask)
    · rwa [saves_endTask]
    · rw [saves_endTask] at hsave
      exact Or.inl hsave
  | restart => exact hwhile.elim

end Tracked

/-! ## The writers come to rest -/

/-- All writers of the save have returned or raised. -/
def AtRest (cfg : Config) (attempt : Nat) (s : LocalState) : Prop :=
  ∃ save ∈ s.saves, save.attempt = attempt ∧ ∀ r < cfg.worldSize, (save.writer r).atRest = true

/-- The file operations that a writer has left. -/
def Writer.work (writer : Writer) : Nat :=
  if writer.failed then 0 else 2 * writer.todo.length - if writer.opened then 1 else 0

/-- The file operations that all writers of the save have left. -/
def workLeft (cfg : Config) (attempt : Nat) (s : LocalState) : Nat :=
  ((s.findSave attempt).map fun save =>
    ∑ r ∈ Finset.range cfg.worldSize, Writer.work (save.writer r)).getD 0

theorem findSave_eq (hnumbered : s.Numbered) {save : PendingSave} (hsave : save ∈ s.saves) :
    s.findSave save.attempt = some save := by
  cases hfind : s.findSave save.attempt with
  | none => exact absurd (decide_eq_true rfl) (find?_eq_none.mp hfind save hsave)
  | some other =>
    have hattempt : other.attempt = save.attempt := by simpa using find?_some hfind
    rw [hnumbered.eq_of_attempt hsave (mem_of_find?_eq_some hfind) hattempt]

/-- A writer that is not at rest can go on. -/
theorem exists_write (hnumbered : s.Numbered) {save : PendingSave} (hsave : save ∈ s.saves)
    {r : Nat} (hr : r < cfg.worldSize) (hrest : (save.writer r).atRest = false) :
    ∃ t, s.step cfg (.write save.attempt r) = some t := by
  simp only [step, write, if_pos hr, findSave_eq hnumbered hsave, Option.bind_some]
  unfold writeNext
  split
  · rename_i hwriter
    rw [hwriter] at hrest
    simp [Writer.atRest] at hrest
  · rename_i hwriter
    rw [hwriter] at hrest
    cases hrest
  · split
    · exact ⟨_, rfl⟩
    · exact ⟨_, rfl⟩
  · split
    · exact ⟨_, rfl⟩
    · exact ⟨_, rfl⟩

/-- A write is one step of the writer of one rank, which then has less to do. -/
theorem writer_of_write {attempt r : Nat} (heffect : Effect cfg s (.write attempt r) t) :
    r < cfg.worldSize ∧ ∃ save ∈ s.saves, ∃ writer, save.attempt = attempt ∧
      t.saves = (s.setWriter attempt r writer).saves ∧
        Writer.work writer < Writer.work (save.writer r) := by
  cases heffect with
  | opened hr hsave hwriter | blocked hr hsave hwriter | renamed hr hsave hwriter
  | gone hr hsave hwriter =>
    refine ⟨hr, _, hsave, _, rfl, rfl, ?_⟩
    simp only [hwriter, Writer.work, length_cons, Bool.false_eq_true, if_true, if_false]
    omega

/-- The writers of a new save have their own shards to write. -/
theorem not_atRest_of_save (hnumbered : s.Numbered) {iteration : Nat} {isAsync : Bool}
    (heffect : Effect cfg s (.save iteration isAsync) t) :
    ¬ AtRest cfg s.attempts.length t := by
  cases heffect with
  | save =>
    rintro ⟨save, hsave, hattempt, hrest⟩
    rcases mem_append.mp hsave with hsave | hsave
    · exact absurd hattempt (Nat.ne_of_lt (hnumbered.lt_length save hsave))
    · have hfirst := hrest 0 cfg.pos
      have hown := cfg.self_mem_shards cfg.pos
      rw [mem_singleton.mp hsave] at hfirst
      simp only [Writer.atRest, Bool.false_or, List.isEmpty_iff] at hfirst
      rw [hfirst] at hown
      cases hown

/-- A save call is written to its end by any order of its file operations. -/
theorem writers_come_to_rest {D : (Nat → CkptDir Nat) → Prop} {attempt : Nat}
    (hnumbered : s.Numbered) (hsave : ∃ save ∈ s.saves, save.attempt = attempt)
    (hbusy : ¬ AtRest cfg attempt s) :
    (localSaves cfg D).Inevitable (fun _ e => ∃ r, e = .write attempt r)
      (AtRest cfg attempt) s := by
  refine System.Inevitable.of_measure
    (I := fun s => s.Numbered ∧ (∃ save ∈ s.saves, save.attempt = attempt) ∧
      ¬ AtRest cfg attempt s) (workLeft cfg attempt) ?_ ?_ ⟨hnumbered, hsave, hbusy⟩
  · rintro s ⟨hnumbered, ⟨save, hmem, hattempt⟩, hbusy⟩
    obtain ⟨r, hr, hrest⟩ : ∃ r < cfg.worldSize, (save.writer r).atRest = false := by
      by_contra hnone
      refine hbusy ⟨save, hmem, hattempt, fun r hr => ?_⟩
      exact Bool.of_not_eq_false fun hfalse => hnone ⟨r, hr, hfalse⟩
    obtain ⟨t, hstep⟩ := exists_write hnumbered hmem hr hrest
    exact ⟨.write save.attempt r, t, ⟨r, by rw [hattempt]⟩, hstep⟩
  · rintro s e t ⟨hnumbered, _, _⟩ ⟨r, rfl⟩ hstep
    have heffect : Effect cfg s (.write attempt r) t := effect_of_step hstep
    obtain ⟨hr, save, hold, writer, rfl, hsaves, hless⟩ := writer_of_write heffect
    have hnumbered' := hnumbered.effect heffect
    have hmem : { save with writer := update save.writer r writer } ∈ t.saves := by
      rw [hsaves]
      exact mem_map.mpr ⟨save, hold, if_pos rfl⟩
    by_cases hrest : AtRest cfg save.attempt t
    · exact Or.inl hrest
    · refine Or.inr ⟨⟨hnumbered', ⟨_, hmem, rfl⟩, hrest⟩, ?_⟩
      rw [workLeft, workLeft, findSave_eq hnumbered hold]
      have hfind := findSave_eq hnumbered' hmem
      simp only at hfind
      rw [hfind]
      exact sum_update_lt (Finset.mem_range.mpr hr) hless

/-! ## What is visible in the end -/

theorem Tracked.complete_iff {before : Nat → CkptDir Nat} {attempt iteration : Nat}
    (h : Tracked cfg before attempt iteration s) (hnumbered : s.Numbered)
    (hrest : AtRest cfg attempt s) :
    cfg.Complete s.dirs iteration ↔ cfg.Savable before iteration := by
  obtain ⟨save, hsave, hattempt, _, hprogress⟩ := h.pending
  obtain ⟨other, hother, hattempt', hrest⟩ := hrest
  obtain rfl : other = save := hnumbered.eq_of_attempt hsave hother (hattempt'.trans hattempt.symm)
  refine forall₂_congr fun p _ => exists_congr fun r => and_congr_right fun hr => ?_
  obtain ⟨done, hdone⟩ := hprogress r hr
  unfold Config.Visible
  rw [hdone.final p, hdone.done_eq (hrest r hr)]

end LocalState

/-- A save call whose iteration is not being saved or cleaned up already is written to its end.
As long as there is no crash and no I/O error of its own until then, every rank's shard of the
iteration is visible in the end if and only if no dirty file of it was in the way, and then
`find_latest` reports no older iteration. -/
theorem save_after_crashes {cfg : Config} {s t : LocalState} {iteration : Nat} {isAsync : Bool}
    (hs : (localSaves cfg fun dirs => dirs = noFiles).Reachable (fun _ _ => True) s)
    (hsave : s.step cfg (.save iteration isAsync) = some t)
    (hquiet : s.Undisturbed cfg iteration) :
    (localSaves cfg fun dirs => dirs = noFiles).Inevitable
        (fun _ e => ∃ r, e = .write s.attempts.length r)
        (LocalState.AtRest cfg s.attempts.length) t ∧
    ∀ actions u, (localSaves cfg fun dirs => dirs = noFiles).Run
        (LocalState.While s.attempts.length iteration) t actions u →
      LocalState.AtRest cfg s.attempts.length u →
        (cfg.Complete u.dirs iteration ↔ cfg.Savable s.dirs iteration) ∧
        (cfg.Savable s.dirs iteration → u.latestIteration = -1 →
          (iteration : Int) ≤ u.findLatest cfg) := by
  have hnumbered := LocalState.numbered_of_reachable hs
  have hplaced := LocalState.placed_of_reachable (fun dirs h => h ▸ inWorld_noFiles cfg) hs
  have heffect := LocalState.effect_of_step hsave
  have hnumbered' := hnumbered.effect heffect
  have hplaced' := hplaced.effect heffect
  have htracked : LocalState.Tracked cfg s.dirs s.attempts.length iteration t := by
    cases heffect with
    | save => exact LocalState.Tracked.init hquiet
  refine ⟨LocalState.writers_come_to_rest hnumbered' ?_ ?_, fun actions u hrun hrest => ?_⟩
  · obtain ⟨save, hmem, hattempt, _⟩ := htracked.pending
    exact ⟨save, hmem, hattempt⟩
  · exact LocalState.not_atRest_of_save hnumbered heffect
  · obtain ⟨htracked, hnumbered, hplaced⟩ := hrun.invariant
      (P := fun v => LocalState.Tracked cfg s.dirs s.attempts.length iteration v ∧ v.Numbered ∧
        LocalState.Placed cfg v)
      (fun v e w h hwhile hstep => by
        have heffect := LocalState.effect_of_step hstep
        exact ⟨h.1.effect h.2.1 hwhile heffect, h.2.1.effect heffect, h.2.2.effect heffect⟩)
      ⟨htracked, hnumbered', hplaced'⟩
    have hcomplete := htracked.complete_iff hnumbered hrest
    refine ⟨hcomplete, fun hsavable hcache => ?_⟩
    rw [LocalState.findLatest, if_neg fun hne => hne hcache]
    exact cfg.le_latest_of_complete hplaced.inWorld (hcomplete.mpr hsavable)

/-- A crash has left a dirty file of iteration 5, and iteration 6 is saved after the restart. -/
theorem save_after_crashes_next :
    ∃ s t u : LocalState, s.step pair (.save 6 true) = some t ∧
      (localSaves pair fun dirs => dirs = noFiles).Inevitable
        (fun _ e => ∃ r, e = .write s.attempts.length r)
        (LocalState.AtRest pair s.attempts.length) t ∧
      (pair.Complete u.dirs 6 ↔ pair.Savable s.dirs 6) ∧
      (pair.Savable s.dirs 6 → u.latestIteration = -1 → 6 ≤ u.findLatest pair) := by
  have hinit : (localSaves pair fun dirs => dirs = noFiles).init (.fresh noFiles) :=
    ⟨noFiles, rfl, rfl⟩
  have hrun : ((localSaves pair fun dirs => dirs = noFiles).execute (fun _ _ => True)
      (.fresh noFiles) [.save 5 true, .write 0 0, .restart, .findLatest]).any (fun s =>
        (s.attempts = [5] ∧ s.saves.isEmpty ∧ (List.range 2).all fun r =>
          (s.inline r).isNone && (s.tasks r).isEmpty) ∧
        (s.step pair (.save 6 true)).any fun t =>
          ((localSaves pair fun dirs => dirs = noFiles).execute (LocalState.While 1 6) t
            [.write 1 0, .write 1 0, .write 1 0, .write 1 1, .write 1 1, .write 1 0, .write 1 1,
              .write 1 1]).any fun u => u.saves.any fun save =>
                save.attempt = 1 ∧ (save.writer 0).atRest ∧ (save.writer 1).atRest) = true := by
    decide +kernel
  obtain ⟨s, hs, htest⟩ := System.exists_reachable_of_execute hinit hrun
  obtain ⟨⟨hattempts, hsaves, htasks⟩, htest⟩ := of_decide_eq_true htest
  obtain ⟨t, hsave, htest⟩ := (Option.any_eq_true _ _).mp htest
  obtain ⟨u, hu, htest⟩ := (Option.any_eq_true _ _).mp htest
  obtain ⟨save, hmem, htest⟩ := any_eq_true.mp htest
  obtain ⟨hattempt, hrest₀, hrest₁⟩ := of_decide_eq_true htest
  have hquiet : s.Undisturbed pair 6 := by
    refine ⟨?_, fun r hr task htask => ?_⟩
    · rw [List.isEmpty_iff.mp hsaves]
      simp
    · have hnone := all_eq_true.mp htasks r (mem_range.mpr hr)
      rw [Bool.and_eq_true, Option.isNone_iff_eq_none, List.isEmpty_iff] at hnone
      rcases htask with htask | htask
      · cases hnone.1.symm.trans htask
      · rw [hnone.2] at htask
        cases htask
  have hlength : s.attempts.length = 1 := by rw [hattempts]; rfl
  obtain ⟨hends, hall⟩ := save_after_crashes hs hsave hquiet
  rw [hlength] at hends hall
  refine ⟨s, t, u, hsave, hlength.symm ▸ hends, hall _ u (System.run_of_execute hu)
    ⟨save, hmem, hattempt, fun r hr => ?_⟩⟩
  have hcase : r = 0 ∨ r = 1 := by
    have hlt : r < 2 := hr
    omega
  rcases hcase with rfl | rfl
  · exact hrest₀
  · exact hrest₁

/-- The dirty file that a crash has left blocks the save of the same iteration after the
restart. -/
theorem residue_blocks_save :
    ∃ s, (localSaves (unreplicated 1 (by decide)) fun dirs => dirs = noFiles).Reachable
        (fun _ _ => True) s ∧ s.findLatest (unreplicated 1 (by decide)) = -1 ∧
      ∃ t, s.step (unreplicated 1 (by decide)) (.save 5 true) = some t ∧
        ∃ u, t.step (unreplicated 1 (by decide)) (.write 1 0) = some u ∧
          LocalState.AtRest (unreplicated 1 (by decide)) 1 u ∧
          ¬ (unreplicated 1 (by decide)).Complete u.dirs 5 := by
  have hinit : (localSaves (unreplicated 1 (by decide)) fun dirs => dirs = noFiles).init
      (.fresh noFiles) := ⟨noFiles, rfl, rfl⟩
  have hrun : ((localSaves (unreplicated 1 (by decide)) fun dirs => dirs = noFiles).execute
      (fun _ _ => True) (.fresh noFiles) [.save 5 true, .write 0 0, .restart, .findLatest]).any
      (fun s => s.findLatest (unreplicated 1 (by decide)) = -1 ∧
        (s.step (unreplicated 1 (by decide)) (.save 5 true)).any fun t =>
          (t.step (unreplicated 1 (by decide)) (.write 1 0)).any fun u =>
            (u.saves.any fun save => save.attempt = 1 ∧ (save.writer 0).atRest) ∧
              ¬ (unreplicated 1 (by decide)).Complete u.dirs 5) = true := by
    decide +kernel
  obtain ⟨s, hs, htest⟩ := System.exists_reachable_of_execute hinit hrun
  obtain ⟨hlatest, htest⟩ := of_decide_eq_true htest
  obtain ⟨t, hsave, htest⟩ := (Option.any_eq_true _ _).mp htest
  obtain ⟨u, hwrite, htest⟩ := (Option.any_eq_true _ _).mp htest
  obtain ⟨hrest, hincomplete⟩ := of_decide_eq_true htest
  obtain ⟨save, hmem, hrest⟩ := any_eq_true.mp hrest
  obtain ⟨hattempt, hrest⟩ := of_decide_eq_true hrest
  refine ⟨s, hs, hlatest, t, hsave, u, hwrite, ⟨save, hmem, hattempt, fun r hr => ?_⟩, hincomplete⟩
  obtain rfl : r = 0 := Nat.lt_one_iff.mp hr
  exact hrest

end ResiliencyExt.Checkpointing.Local
