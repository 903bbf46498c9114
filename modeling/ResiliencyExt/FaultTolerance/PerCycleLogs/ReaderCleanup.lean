import ResiliencyExt.FaultTolerance.PerCycleLogs.ReaderLoop

set_option autoImplicit false

/-!
# Per-cycle logs: the clean-up between cycles

What `_cleanup_resources` and `_apply_config` do to the queue, the buffers and the
registrations.  The buffers of all writers are flushed, the launcher's too, and
only the launcher's descriptor stays registered; a configuration then registers
its own worker pipes, so a registered worker descriptor is always one of the
configuration that is in force.
-/

namespace ResiliencyExt.FaultTolerance.PerCycleLogs

open Foundation SplitLines List

namespace Reader

/-! ## Appending to the queue -/

/-- Items are appended that carry the number and the files of the reader's configuration. -/
def Appends (r s : Reader) : Prop :=
  ∃ added, s.writeQueue = r.writeQueue ++ added ∧
    ∀ item ∈ added, item.generation = r.generation ∧
      item.logFilePath = r.targetPath item.writer

variable {r s : Reader} {fd localRank : Nat} {config : ReaderConfig}
    (entries : List (Writer × Text))

theorem Appends.of_eq (h : s.writeQueue = r.writeQueue) : r.Appends s :=
  ⟨[], h.trans (append_nil _).symm, fun _ hmem => absurd hmem not_mem_nil⟩

theorem Appends.trans {t : Reader} (hsame : r.SameConfig s) (h : r.Appends s) (h' : s.Appends t) :
    r.Appends t := by
  obtain ⟨xs, hxs, hx⟩ := h
  obtain ⟨ys, hys, hy⟩ := h'
  refine ⟨xs ++ ys, by rw [hys, hxs, append_assoc], fun item hitem => ?_⟩
  rcases mem_append.mp hitem with hmem | hmem
  · exact hx item hmem
  · have hitem := hy item hmem
    rwa [hsame.generation, hsame.targetPath] at hitem

theorem appends_put (r : Reader) (writer : Writer) (data : List Text) :
    r.Appends (r.put writer data) := by
  refine ⟨data.map (r.item writer), rfl, fun item hitem => ?_⟩
  obtain ⟨d, -, rfl⟩ := mem_map.mp hitem
  exact ⟨rfl, rfl⟩

theorem appends_flushIncompleteLine (r : Reader) (writer : Writer) (incomplete : Text) :
    r.Appends (r.flushIncompleteLine writer incomplete) := by
  rw [flushIncompleteLine_eq]
  split
  · exact .of_eq rfl
  · exact appends_put r writer _

theorem appends_processPipeEvent (r : Reader) (fd : Nat) (result : ReadResult) :
    r.Appends (r.processPipeEvent fd result) := by
  have hhang : ∀ writer, r.Appends (r.hangUp fd writer) := fun writer =>
    appends_flushIncompleteLine r writer _
  rw [processPipeEvent]
  split
  · exact .of_eq rfl
  · rename_i writer _
    split
    · exact .of_eq rfl
    · exact hhang writer
    · split
      · exact hhang writer
      · exact appends_put (r.setBuffer writer _) writer _

/-- What is appended for the launcher under the configuration in force is appended to all of
its text. -/
theorem Appends.launcherText (h : r.Appends s) {added : Text}
    (htext : s.textOf r.generation .launcher = r.textOf r.generation .launcher ++ added) :
    s.launcherText = r.launcherText ++ added := by
  obtain ⟨items, hitems, hmine⟩ := h
  have hfilter : (items.filter fun item =>
      item.generation = r.generation ∧ item.writer = .launcher) =
        items.filter fun item => item.writer = .launcher := by
    refine filter_congr fun item hitem => ?_
    rw [decide_eq_decide]
    exact and_iff_right (hmine item hitem).1
  rw [textOf, textOf, itemsOf, itemsOf, hitems, filter_append, flatMap_append,
    append_cancel_left_eq, hfilter] at htext
  rw [Reader.launcherText, hitems, filter_append, flatMap_append, htext]
  rfl

/-! ## Cleaning up -/

/-- What a clean-up does: every incomplete line is completed, and only the launcher's descriptor
stays registered. -/
structure CleansUp (r s : Reader) : Prop where
  config : r.SameConfig s
  text : ∀ w, s.textOf r.generation w = r.textOf r.generation w ++
    renderIncomplete (r.prefixOf w) ((r.lineBuffers.get? w).getD [])
  text_of_ne : ∀ generation w, generation ≠ r.generation →
    s.textOf generation w = r.textOf generation w
  buffer : ∀ w, s.lineBuffers.get? w = none
  registered : ∀ fd, s.fdToLocalRank.get? fd =
    if some fd = r.launcherPipeFd then r.fdToLocalRank.get? fd else none
  appends : r.Appends s

/-- The lines of some buffers are flushed in turn. -/
def flushAll (r : Reader) (entries : List (Writer × Text)) : Reader :=
  entries.foldl (fun r entry => r.flushIncompleteLine entry.1 entry.2) r

theorem sameConfig_flushAll :
    ∀ r : Reader, r.SameConfig (r.flushAll entries) ∧
      (r.flushAll entries).fdToLocalRank = r.fdToLocalRank ∧
      r.Appends (r.flushAll entries) := by
  induction entries with
  | nil => exact fun r => ⟨.refl r, rfl, .of_eq rfl⟩
  | cons entry entries ih =>
    intro r
    have hfirst := sameConfig_flushIncompleteLine r entry.1 entry.2
    obtain ⟨hsame, hfds, happends⟩ := ih (r.flushIncompleteLine entry.1 entry.2)
    exact ⟨hfirst.trans hsame, hfds.trans (fdToLocalRank_flushIncompleteLine r _ _),
      (appends_flushIncompleteLine r entry.1 entry.2).trans hfirst happends⟩

/-- Flushing touches the text under no other configuration. -/
theorem textOf_flushAll_of_ne {generation : Nat} (w : Writer) :
    ∀ r : Reader, generation ≠ r.generation →
      (r.flushAll entries).textOf generation w = r.textOf generation w := by
  induction entries with
  | nil => exact fun _ _ => rfl
  | cons entry entries ih =>
    intro r hne
    have hfirst := sameConfig_flushIncompleteLine r entry.1 entry.2
    refine (ih _ (hfirst.generation.symm ▸ hne)).trans ?_
    exact textOf_flushIncompleteLine_of_ne r _ fun h => hne h.1

/-- Each writer's buffer is flushed once. -/
theorem textOf_flushAll (w : Writer) :
    ∀ r : Reader, (entries.map Prod.fst).Nodup →
      (r.flushAll entries).textOf r.generation w = r.textOf r.generation w ++
        renderIncomplete (r.prefixOf w)
          (((entries.find? fun e => e.1 = w).map Prod.snd).getD []) := by
  induction entries with
  | nil => exact fun r _ => (append_nil _).symm
  | cons entry entries ih =>
    intro r hnodup
    obtain ⟨hnew, hrest⟩ := nodup_cons.mp hnodup
    have hfirst := sameConfig_flushIncompleteLine r entry.1 entry.2
    have hih := ih (r.flushIncompleteLine entry.1 entry.2) hrest
    rw [hfirst.generation, hfirst.prefixOf] at hih
    refine hih.trans ?_
    by_cases heq : entry.1 = w
    · subst heq
      have hnone : entries.find? (fun e => e.1 = entry.1) = none := by
        refine find?_eq_none.mpr fun e he hsame => hnew ?_
        exact of_decide_eq_true hsame ▸ mem_map_of_mem he
      rw [textOf_flushIncompleteLine_self, hnone, find?_cons_of_pos (by simp)]
      exact append_nil _
    · rw [textOf_flushIncompleteLine_of_ne r entry.2 fun h => heq h.2.symm,
        find?_cons_of_neg (by simpa using heq)]

/-- Taking descriptors out except one leaves that one. -/
theorem get?_foldl_erase (kept : Option Nat) (fd : Nat) (fds : List Nat) :
    ∀ registered : Dict Nat Writer,
      (fds.foldl (fun registered fd =>
        if some fd = kept then registered else registered.erase fd) registered).get? fd =
        if some fd ≠ kept ∧ fd ∈ fds then none else registered.get? fd := by
  induction fds with
  | nil => simp
  | cons first fds ih =>
    intro registered
    have hfirst : (if some first = kept then registered else registered.erase first).get? fd =
        if some fd ≠ kept ∧ fd = first then none else registered.get? fd := by
      by_cases heq : fd = first
      · subst heq
        by_cases hkept : some fd = kept
        · rw [if_pos hkept, if_neg fun h => h.1 hkept]
        · rw [if_neg hkept, if_pos ⟨hkept, rfl⟩, Dict.get?_erase_self]
      · rw [if_neg fun h : some fd ≠ kept ∧ fd = first => heq h.2]
        split
        · rfl
        · exact Dict.get?_erase_of_ne _ heq
    rw [foldl_cons, ih, hfirst]
    by_cases hkept : some fd = kept
    · simp [hkept]
    · by_cases heq : fd = first
      · subst heq
        simp [hkept]
      · by_cases hmem : fd ∈ fds <;> simp [hkept, hmem, heq]

theorem cleansUp_cleanupResources (r : Reader) : r.CleansUp r.cleanupResources := by
  obtain ⟨hsame, hfds, happends⟩ := sameConfig_flushAll r.lineBuffers.entries r
  exact
    { config := ⟨hsame.logFilePath, hsame.localToGlobalRank, hsame.launcherPipeFd,
        hsame.launcherLogFilePath, hsame.rankWidth, hsame.generation⟩
      text := fun w => textOf_flushAll r.lineBuffers.entries w r r.lineBuffers.nodup
      text_of_ne := fun generation w hne =>
        textOf_flushAll_of_ne r.lineBuffers.entries w r hne
      buffer := fun _ => rfl
      registered := fun fd => by
        have hget := get?_foldl_erase r.launcherPipeFd fd r.fdToLocalRank.keys r.fdToLocalRank
        have hmodel : r.cleanupResources.fdToLocalRank.get? fd =
            ((r.flushAll r.lineBuffers.entries).fdToLocalRank.keys.foldl (fun registered fd =>
              if some fd = r.launcherPipeFd then registered else registered.erase fd)
              (r.flushAll r.lineBuffers.entries).fdToLocalRank).get? fd := rfl
        rw [hmodel, hfds, hget]
        by_cases hkept : some fd = r.launcherPipeFd
        · rw [if_neg fun h => h.1 hkept, if_pos hkept]
        · rw [if_neg hkept]
          by_cases hmem : fd ∈ r.fdToLocalRank.keys
          · rw [if_pos ⟨hkept, hmem⟩]
          · rw [if_neg fun h => hmem h.2]
            exact Option.not_isSome_iff_eq_none.mp fun h => hmem (Dict.get?_isSome_iff.mp h)
      appends := happends }

/-! ## Configurations in force -/

/-- The reader works under the configuration: its files and prefixes, and no worker pipes but
the configuration's. -/
structure WorksUnder (r : Reader) (config : ReaderConfig) : Prop where
  files : ∀ writer, r.targetPath writer = config.targetPath writer
  prefixes : ∀ localRank, r.linePrefix localRank = config.linePrefix localRank
  launcherPipeFd : r.launcherPipeFd = config.launcherPipeFd
  workers : ∀ fd localRank, r.fdToLocalRank.get? fd = some (.worker localRank) →
    (localRank, fd) ∈ config.pipes.entries

/-- As long as the configuration stays and nothing is registered. -/
theorem WorksUnder.of_sameConfig (h : r.WorksUnder config) (hsame : r.SameConfig s)
    (hfds : ∀ fd writer, s.fdToLocalRank.get? fd = some writer →
      r.fdToLocalRank.get? fd = some writer) :
    s.WorksUnder config where
  files writer := (hsame.targetPath writer).trans (h.files writer)
  prefixes localRank := (hsame.linePrefix localRank).trans (h.prefixes localRank)
  launcherPipeFd := hsame.launcherPipeFd.trans h.launcherPipeFd
  workers fd localRank hfd := h.workers fd localRank (hfds fd (.worker localRank) hfd)

/-- No two pipes of one rank are registered. -/
theorem WorksUnder.unique (h : r.WorksUnder config) {other : Nat}
    (hfd : r.fdToLocalRank.get? fd = some (.worker localRank))
    (hother : r.fdToLocalRank.get? other = some (.worker localRank)) : other = fd := by
  have hmine := Dict.get?_eq_some_of_mem (h.workers fd localRank hfd)
  have htheirs := Dict.get?_eq_some_of_mem (h.workers other localRank hother)
  exact Option.some.inj (htheirs.symm.trans hmine)

theorem WorksUnder.prefixOf (h : r.WorksUnder config) (localRank : Nat) :
    r.prefixOf (.worker localRank) = config.linePrefix localRank :=
  h.prefixes localRank

/-- The launcher's descriptor never stands for a worker. -/
theorem WorksUnder.launcher_ne_worker (h : r.WorksUnder config)
    (hfd : r.launcherPipeFd = some fd) : r.fdToLocalRank.get? fd ≠ some (.worker localRank) := by
  intro hworker
  exact config.launcher_apart fd (h.launcherPipeFd ▸ hfd)
    (mem_map_of_mem (h.workers fd localRank hworker))

/-- After a clean-up no worker is registered. -/
theorem noWorkers_cleanupResources (h : r.WorksUnder config) : r.cleanupResources.NoWorkers := by
  intro fd localRank hfd
  rw [(cleansUp_cleanupResources r).registered] at hfd
  split at hfd
  · rename_i hlauncher
    exact h.launcher_ne_worker hlauncher.symm hfd
  · cases hfd

/-- A configuration registers its own worker pipes only. -/
theorem mem_entries_of_get?_register {registered : Dict Nat Writer}
    (hnone : ∀ fd localRank, registered.get? fd ≠ some (.worker localRank))
    (h : (register registered config).get? fd = some (.worker localRank)) :
    (localRank, fd) ∈ config.pipes.entries := by
  by_cases hmem : fd ∈ config.pipes.entries.map Prod.snd
  · obtain ⟨entry, hentry, rfl⟩ := mem_map.mp hmem
    rw [get?_register_worker registered config hentry] at h
    injection h with h
    injection h with h
    exact h ▸ hentry
  · rcases get?_register_other registered config hmem with hsame | ⟨-, hlauncher⟩
    · exact absurd (hsame ▸ h) (hnone fd localRank)
    · rw [hlauncher] at h
      injection h with h
      cases h

/-- A reader works under the configuration it has just applied. -/
theorem worksUnder_applyConfig {old : ReaderConfig} (h : r.WorksUnder old)
    (config : ReaderConfig) : (r.applyConfig config).WorksUnder config where
  files writer := by cases writer <;> rfl
  prefixes _ := rfl
  launcherPipeFd := rfl
  workers _ _ hfd := mem_entries_of_get?_register (noWorkers_cleanupResources h) hfd

theorem worksUnder_create (config : ReaderConfig) : (create config).WorksUnder config where
  files writer := by cases writer <;> rfl
  prefixes _ := rfl
  launcherPipeFd := rfl
  workers _ _ hfd := mem_entries_of_get?_create hfd

end Reader

end ResiliencyExt.FaultTolerance.PerCycleLogs
