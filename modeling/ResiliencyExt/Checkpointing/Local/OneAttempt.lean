import ResiliencyExt.Checkpointing.Local.LocalSteps

set_option autoImplicit false

/-!
# Local checkpoints: the shards of one save call

As long as no save call uses an iteration of which a shard is left in some directory,
or is still being written, all shards of an iteration come from one save call.  The
invariant follows a shard from the call that opens its dirty file to its rename.
-/

namespace ResiliencyExt.Checkpointing.Local

open Foundation List Function

namespace LocalState

variable {cfg : Config} {s t : LocalState}

/-- No shard of the iteration is left, and none is being written. -/
def Unused (cfg : Config) (s : LocalState) : Event → Prop
  | .save iteration _ =>
    (∀ r < cfg.worldSize, ∀ name ∈ (s.dirs r).keys,
      name.iteration = iteration → name.dirty = true) ∧
    ∀ save ∈ s.saves, save.iteration ≠ iteration
  | _ => True

instance (s : LocalState) (e : Event) : Decidable (s.Unused cfg e) :=
  match e with
  | .save iteration _ => inferInstanceAs (Decidable
      ((∀ r < cfg.worldSize, ∀ name ∈ (s.dirs r).keys,
        name.iteration = iteration → name.dirty = true) ∧
      ∀ save ∈ s.saves, save.iteration ≠ iteration))
  | .findLatest | .load | .write _ _ | .ioError _ _ | .finalize | .list _ _ | .unlink _ _ _
  | .finish _ _ | .leave | .restart => inferInstanceAs (Decidable True)

/-- Every shard is of the save call that its iteration belongs to. -/
structure Owned (cfg : Config) (s : LocalState) : Prop where
  nodup : (s.saves.map PendingSave.iteration).Nodup
  called : ∀ save ∈ s.saves, s.attempts[save.attempt]? = some save.iteration
  single : ∀ r < cfg.worldSize, ∀ r' < cfg.worldSize, ∀ k p p' content content',
    (s.dirs r).get? ⟨k, p, false⟩ = some content →
      (s.dirs r').get? ⟨k, p', false⟩ = some content' → content = content'
  /-- A shard's number is that of a save call of its iteration. -/
  written : ∀ r < cfg.worldSize, ∀ k p content,
    (s.dirs r).get? ⟨k, p, false⟩ = some content → s.attempts[content]? = some k
  pending : ∀ save ∈ s.saves, ∀ r < cfg.worldSize, ∀ p content,
    (s.dirs r).get? ⟨save.iteration, p, false⟩ = some content → content = save.attempt
  opened : ∀ save ∈ s.saves, ∀ r < cfg.worldSize, ∀ name content,
    save.openFile r = some name → (s.dirs r).get? name = some content → content = save.attempt

theorem Owned.fresh : Owned cfg (fresh noFiles) where
  nodup := nodup_nil
  called := by simp [LocalState.fresh]
  single := fun _ _ _ _ _ _ _ _ _ hget => by cases hget
  written := fun _ _ _ _ _ hget => by cases hget
  pending := by simp [LocalState.fresh]
  opened := by simp [LocalState.fresh]

theorem iteration_of_openFile {save : PendingSave} {r : Nat} {name : FileName}
    (h : save.openFile r = some name) : name.iteration = save.iteration ∧ name.dirty = true := by
  unfold PendingSave.openFile at h
  split at h
  · cases h
    exact ⟨rfl, rfl⟩
  · cases h

namespace Owned

theorem eq_of_iteration (h : Owned cfg s) {save other : PendingSave} (hsave : save ∈ s.saves)
    (hother : other ∈ s.saves) (heq : other.iteration = save.iteration) : other = save :=
  inj_on_of_nodup_map h.nodup hother hsave heq

/-- The writer goes on, and the file that it has open is its own. -/
theorem setWriter (h : Owned cfg s) {attempt r : Nat} {writer : Writer}
    (hopen : ∀ save ∈ s.saves, save.attempt = attempt → ∀ p rest content,
      writer = ⟨p :: rest, true, false⟩ →
        (s.dirs r).get? ⟨save.iteration, p, true⟩ = some content → content = attempt) :
    Owned cfg (s.setWriter attempt r writer) where
  nodup := by
    rw [map_setWriter PendingSave.iteration fun _ _ => rfl]
    exact h.nodup
  called save hsave := by
    obtain ⟨before, hbefore, ⟨_, rfl⟩ | ⟨_, rfl⟩⟩ := exists_of_mem_setWriter hsave
    · exact h.called before hbefore
    · exact h.called save hbefore
  single := h.single
  written := h.written
  pending save hsave r' hr' p content hget := by
    obtain ⟨before, hbefore, ⟨_, rfl⟩ | ⟨_, rfl⟩⟩ := exists_of_mem_setWriter hsave
    · exact h.pending before hbefore r' hr' p content hget
    · exact h.pending save hbefore r' hr' p content hget
  opened save hsave r' hr' name content hopened hget := by
    obtain ⟨before, hbefore, ⟨hattempt, rfl⟩ | ⟨_, rfl⟩⟩ := exists_of_mem_setWriter hsave
    · unfold PendingSave.openFile at hopened
      rcases eq_or_ne r' r with rfl | hne
      · simp only [update_self] at hopened
        split at hopened
        · cases hopened
          exact (hopen before hbefore hattempt _ _ content rfl hget).trans hattempt.symm
        · cases hopened
      · simp only [update_of_ne hne] at hopened
        exact h.opened before hbefore r' hr' name content hopened hget
    · exact h.opened save hbefore r' hr' name content hopened hget

/-- A file is removed. -/
theorem remove (h : Owned cfg s) {r : Nat} (name : FileName) :
    Owned cfg (s.setDir r ((s.dirs r).erase name)) := by
  have hbefore : ∀ r' key content, ((s.setDir r ((s.dirs r).erase name)).dirs r').get? key =
      some content → (s.dirs r').get? key = some content := fun r' key content hget => by
    simp only [setDir] at hget
    rcases eq_or_ne r' r with rfl | hne
    · rw [update_self] at hget
      exact Dict.get?_of_get?_erase hget
    · rwa [update_of_ne hne] at hget
  exact
    { nodup := h.nodup
      called := h.called
      single := fun r hr r' hr' k p p' content content' hget hget' =>
        h.single r hr r' hr' k p p' content content' (hbefore _ _ _ hget) (hbefore _ _ _ hget')
      written := fun r hr k p content hget => h.written r hr k p content (hbefore _ _ _ hget)
      pending := fun save hsave r hr p content hget =>
        h.pending save hsave r hr p content (hbefore _ _ _ hget)
      opened := fun save hsave r hr key content hopened hget =>
        h.opened save hsave r hr key content hopened (hbefore _ _ _ hget) }

/-- A save call puts its number into a file of its own iteration. -/
theorem put (h : Owned cfg s) {r : Nat} {save : PendingSave} (hsave : save ∈ s.saves)
    (p : Nat) (dirty : Bool) :
    Owned cfg (s.setDir r ((s.dirs r).set ⟨save.iteration, p, dirty⟩ save.attempt)) := by
  have hafter : ∀ r' key content,
      ((s.setDir r ((s.dirs r).set ⟨save.iteration, p, dirty⟩ save.attempt)).dirs r').get? key =
        some content → (key = ⟨save.iteration, p, dirty⟩ ∧ content = save.attempt) ∨
          (s.dirs r').get? key = some content := fun r' key content hget => by
    simp only [setDir] at hget
    rcases eq_or_ne r' r with rfl | hne
    · rw [update_self, Dict.get?_set] at hget
      split at hget
      · rename_i heq
        exact Or.inl ⟨heq, (Option.some.inj hget).symm⟩
      · exact Or.inr hget
    · rw [update_of_ne hne] at hget
      exact Or.inr hget
  refine
    { nodup := h.nodup
      called := h.called
      single := fun r₁ hr₁ r₂ hr₂ k q q' content content' hget hget' => ?_
      written := fun r' hr' k q content hget => ?_
      pending := fun other hother r' hr' q content hget => ?_
      opened := fun other hother r' hr' key content hopened hget => ?_ }
  · rcases hafter _ _ _ hget with ⟨heq, rfl⟩ | hbefore
    · rcases hafter _ _ _ hget' with ⟨_, rfl⟩ | hbefore'
      · rfl
      · cases heq
        exact (h.pending save hsave r₂ hr₂ q' content' hbefore').symm
    · rcases hafter _ _ _ hget' with ⟨heq, rfl⟩ | hbefore'
      · cases heq
        exact h.pending save hsave r₁ hr₁ q content hbefore
      · exact h.single r₁ hr₁ r₂ hr₂ k q q' content content' hbefore hbefore'
  · rcases hafter _ _ _ hget with ⟨heq, rfl⟩ | hbefore
    · cases heq
      exact h.called save hsave
    · exact h.written r' hr' k q content hbefore
  · rcases hafter _ _ _ hget with ⟨heq, rfl⟩ | hbefore
    · have hiteration : other.iteration = save.iteration := congrArg FileName.iteration heq
      rw [h.eq_of_iteration hsave hother hiteration]
    · exact h.pending other hother r' hr' q content hbefore
  · rcases hafter _ _ _ hget with ⟨heq, rfl⟩ | hbefore
    · have hiteration := (iteration_of_openFile hopened).1
      rw [heq] at hiteration
      rw [h.eq_of_iteration hsave hother hiteration.symm]
    · exact h.opened other hother r' hr' key content hopened hbefore

theorem putTask (h : Owned cfg s) (r : Nat) (place : Place) (task : CleanupTask) :
    Owned cfg (s.putTask r place task) := by
  cases place <;> exact { h with }

theorem endTask (h : Owned cfg s) (r : Nat) (place : Place) (error : Bool) :
    Owned cfg (s.endTask r place error) := by
  cases place <;> exact { h with }

theorem effect {e : Event} (h : Owned cfg s) (hnumbered : s.Numbered) (hunused : s.Unused cfg e)
    (heffect : Effect cfg s e t) : Owned cfg t := by
  cases heffect with
  | findLatest => exact { h with }
  | load => exact h
  | @save iteration isAsync =>
    obtain ⟨hfiles, hsaves⟩ := hunused
    have hnone : ∀ r < cfg.worldSize, ∀ p content,
        (s.dirs r).get? ⟨iteration, p, false⟩ ≠ some content := fun r hr p content hget =>
      absurd (hfiles r hr _ (Dict.mem_keys_of_get? hget) rfl) (by simp)
    refine
      { nodup := ?_
        called := fun save hsave => ?_
        single := h.single
        written := fun r hr k p content hget => ?_
        pending := fun save hsave r hr p content hget => ?_
        opened := fun save hsave r hr name content hopened hget => ?_ }
    · rw [map_append, nodup_append]
      refine ⟨h.nodup, nodup_singleton _, fun k hk k' hk' => ?_⟩
      obtain ⟨save, hsave, rfl⟩ := mem_map.mp hk
      rw [mem_singleton.mp hk']
      exact hsaves save hsave
    · rcases mem_append.mp hsave with hsave | hsave
      · rw [getElem?_append_left (hnumbered.lt_length save hsave)]
        exact h.called save hsave
      · rw [mem_singleton.mp hsave]
        exact getElem?_concat_length
    · have hcalled := h.written r hr k p content hget
      have hlt := (List.getElem?_eq_some_iff.mp hcalled).1
      rw [getElem?_append_left hlt]
      exact hcalled
    · rcases mem_append.mp hsave with hsave | hsave
      · exact h.pending save hsave r hr p content hget
      · rw [mem_singleton.mp hsave] at hget
        exact absurd hget (hnone r hr p content)
    · rcases mem_append.mp hsave with hsave | hsave
      · exact h.opened save hsave r hr name content hopened hget
      · rw [mem_singleton.mp hsave, PendingSave.openFile] at hopened
        split at hopened
        · rename_i hwriter
          cases congrArg Writer.opened hwriter
        · cases hopened
  | @opened r save p todo hr hsave hwriter hfits hnew =>
    refine (h.put hsave p true).setWriter fun other hother heq q rest content hq hget => ?_
    cases hq
    rw [hnumbered.eq_of_attempt hsave hother heq] at hget
    simp only [setDir, update_self, Dict.get?_set_self, Option.some.injEq] at hget
    exact hget.symm
  | blocked => exact h.setWriter fun _ _ _ _ _ _ heq => by cases heq
  | @renamed r save p todo content hr hsave hwriter hcontent =>
    -- the content is that of the save call, and goes under the final name
    have hown : content = save.attempt :=
      h.opened save hsave r hr _ content (by rw [PendingSave.openFile, hwriter]) hcontent
    have hput := (h.remove (r := r) ⟨save.iteration, p, true⟩).put (r := r) hsave p false
    simp only [setDir, update_self, update_idem] at hput
    rw [hown]
    exact hput.setWriter fun _ _ _ _ _ _ heq => by cases heq
  | gone => exact h.setWriter fun _ _ _ _ _ _ heq => by cases heq
  | ioError => exact h.setWriter fun _ _ _ _ _ _ heq => absurd (congrArg Writer.failed heq) (by simp)
  | @finalized save hnext hready =>
    have hothers : ∀ other ∈ (s.finalizeSave cfg save).saves, other ∈ s.saves :=
      fun other hother => by
        rw [saves_finalizeSave] at hother
        exact (mem_filter.mp hother).1
    refine
      { nodup := ?_
        called := fun other hother => ?_
        single := ?_
        written := ?_
        pending := fun other hother => ?_
        opened := fun other hother => ?_ }
    · rw [saves_finalizeSave]
      exact h.nodup.sublist (filter_sublist.map _)
    · rw [attempts_finalizeSave]
      exact h.called other (hothers other hother)
    · rw [dirs_finalizeSave]
      exact h.single
    · rw [dirs_finalizeSave, attempts_finalizeSave]
      exact h.written
    · rw [dirs_finalizeSave]
      exact h.pending other (hothers other hother)
    · rw [dirs_finalizeSave]
      exact h.opened other (hothers other hother)
  | listed => exact h.putTask _ _ _
  | unlinked => exact (h.remove _).putTask _ _ _
  | refused | missing | finished => exact h.endTask _ _ _
  | leave => exact { h with }
  | restart => exact ⟨nodup_nil, by simp, h.single, h.written, by simp, by simp⟩

end Owned

theorem owned_of_reachable (hs : (localSaves cfg fun dirs => dirs = noFiles).Reachable (Unused cfg) s) :
    Owned cfg s := by
  induction hs with
  | init hinit =>
    obtain ⟨dirs, rfl, rfl⟩ := hinit
    exact .fresh
  | step hreach hunused hstep ih =>
    exact ih.effect (numbered_of_reachable hreach) hunused (effect_of_step hstep)

end LocalState

/-- As long as every save call uses an iteration of which no shard is left or being written,
all shards of an iteration were written by one save call, and when `find_latest` looks and
reports the iteration, that save call has written a shard of every rank. -/
theorem shards_of_one_save {cfg : Config} {s : LocalState}
    (hs : (localSaves cfg fun dirs => dirs = noFiles).Reachable (LocalState.Unused cfg) s)
    (iteration : Nat) :
    ∃ attempt, (∀ r < cfg.worldSize, ∀ p content,
        (s.dirs r).get? ⟨iteration, p, false⟩ = some content →
          content = attempt ∧ s.attempts[attempt]? = some iteration) ∧
      (s.latestIteration = -1 → s.findLatest cfg = iteration → ∀ p < cfg.worldSize,
        ∃ r < cfg.worldSize, (s.dirs r).get? ⟨iteration, p, false⟩ = some attempt) := by
  have howned := LocalState.owned_of_reachable hs
  by_cases hexists : ∃ r < cfg.worldSize, ∃ p content,
      (s.dirs r).get? ⟨iteration, p, false⟩ = some content
  · obtain ⟨r, hr, p, attempt, hget⟩ := hexists
    refine ⟨attempt, fun r' hr' p' content hget' => ?_, fun hcache hlatest q hq => ?_⟩
    · exact ⟨howned.single r' hr' r hr iteration p' p content attempt hget' hget,
        howned.written r hr iteration p attempt hget⟩
    · have hfound : cfg.latest s.dirs = iteration := by
        rw [← hlatest, LocalState.findLatest, if_neg fun hne => hne hcache]
      obtain ⟨r', hr', hmem, _⟩ := cfg.complete_of_latest_eq hfound q hq
      obtain ⟨content, hget'⟩ := Dict.exists_get?_of_mem hmem
      rw [howned.single r' hr' r hr iteration q p content attempt hget' hget] at hget'
      exact ⟨r', hr', hget'⟩
  · refine ⟨0, fun r hr p content hget => absurd ⟨r, hr, p, content, hget⟩ hexists,
      fun hcache hlatest q hq => absurd ?_ hexists⟩
    have hfound : cfg.latest s.dirs = iteration := by
      rw [← hlatest, LocalState.findLatest, if_neg fun hne => hne hcache]
    obtain ⟨r, hr, hmem, _⟩ := cfg.complete_of_latest_eq hfound q hq
    obtain ⟨content, hget⟩ := Dict.exists_get?_of_mem hmem
    exact ⟨r, hr, q, content, hget⟩

/-- A save that is cut on one of two ranks, and one of the next iteration after the restart. -/
theorem shards_of_one_save_after_restart :
    ∃ s : LocalState, s.attempts = [5, 6] ∧ ∀ p < 2, ∃ r < 2,
      (s.dirs r).get? ⟨6, p, false⟩ = some 1 := by
  have hinit : (localSaves (unreplicated 2 (by decide)) fun dirs => dirs = noFiles).init
      (.fresh noFiles) := ⟨noFiles, rfl, rfl⟩
  have hrun : ((localSaves (unreplicated 2 (by decide)) fun dirs => dirs = noFiles).execute
      (LocalState.Unused (unreplicated 2 (by decide))) (.fresh noFiles)
      [.save 5 true, .write 0 0, .write 0 0, .write 0 1, .restart, .findLatest, .save 6 true,
        .write 1 0, .write 1 0, .write 1 1, .write 1 1]).any (fun s => s.attempts = [5, 6] ∧
          s.latestIteration = -1 ∧ s.findLatest (unreplicated 2 (by decide)) = 6 ∧
          (s.dirs 0).get? ⟨6, 0, false⟩ = some 1) = true := by
    decide +kernel
  obtain ⟨s, hs, htest⟩ := System.exists_reachable_of_execute hinit hrun
  obtain ⟨hattempts, hcache, hlatest, hget⟩ := of_decide_eq_true htest
  obtain ⟨attempt, hone, hall⟩ := shards_of_one_save hs 6
  obtain ⟨rfl, _⟩ := hone 0 (by decide) 0 1 hget
  exact ⟨s, hattempts, hall hcache hlatest⟩

/-- Rank 0 has written its shard of the save that a restart cuts, and rank 1 its shard of the
save of the same iteration that the next restart cuts: the iteration counts as complete. -/
theorem shards_of_two_saves :
    ∃ s, (localSaves (unreplicated 2 (by decide)) fun dirs => dirs = noFiles).Reachable
        (fun _ _ => True) s ∧
      s.latestIteration = -1 ∧ s.findLatest (unreplicated 2 (by decide)) = 5 ∧
      (s.dirs 0).get? ⟨5, 0, false⟩ = some 0 ∧ (s.dirs 1).get? ⟨5, 1, false⟩ = some 1 := by
  have hinit : (localSaves (unreplicated 2 (by decide)) fun dirs => dirs = noFiles).init
      (.fresh noFiles) := ⟨noFiles, rfl, rfl⟩
  have hrun : ((localSaves (unreplicated 2 (by decide)) fun dirs => dirs = noFiles).execute
      (fun _ _ => True) (.fresh noFiles)
      [.save 5 true, .write 0 0, .write 0 0, .restart, .findLatest, .save 5 true, .write 1 1,
        .write 1 1, .restart]).any (fun s =>
          s.latestIteration = -1 ∧ s.findLatest (unreplicated 2 (by decide)) = 5 ∧
          (s.dirs 0).get? ⟨5, 0, false⟩ = some 0 ∧ (s.dirs 1).get? ⟨5, 1, false⟩ = some 1) =
        true := by
    decide +kernel
  obtain ⟨s, hs, htest⟩ := System.exists_reachable_of_execute hinit hrun
  exact ⟨s, hs, of_decide_eq_true htest⟩

end ResiliencyExt.Checkpointing.Local
