import ResiliencyExt.FaultTolerance.PerCycleLogs.ReaderCleanup

set_option autoImplicit false

/-!
# Per-cycle logs: changes of the configuration

A step of the reader loop or of the launcher changes the reader in one of six
ways (`Moves`), and the invariants of the runs are case analyses over these.  The
first of them is here: the reader works under the configuration that was applied
last, and what is registered and queued is counted under the configuration it
belongs to (`Wired`).
-/

namespace ResiliencyExt.FaultTolerance.PerCycleLogs

open Foundation SplitLines List

/-- The lines that a read completes and the text that is left make up the text before. -/
theorem flatten_assembleLines (buffered : Option Text) (text : Text) :
    (assembleLines buffered text).1.flatten ++ (assembleLines buffered text).2.getD [] =
      buffered.getD [] ++ text := by
  have hpop : ∀ lines : List Text,
      (popIncomplete lines).1.flatten ++ (popIncomplete lines).2.getD [] = lines.flatten := by
    intro lines
    rcases eq_nil_or_concat' lines with rfl | ⟨init, last, rfl⟩
    · rfl
    · rw [popIncomplete_concat]
      split <;> simp
  by_cases htext : text = []
  · subst htext
    exact (append_nil _).symm
  · rw [assembleLines_of_ne_nil _ htext, hpop]
    cases buffered with
    | none => exact flatten_splitlines text
    | some pending => rw [flatten_joinFirst, flatten_splitlines, Option.getD_some]

namespace ReaderThread

/-! ## What a step does -/

/-- The records of the configurations are as before. -/
structure SameRecords (t u : ReaderThread) : Prop where
  applied : u.applied = t.applied
  registeredIn : u.registeredIn = t.registeredIn

/-- What a step does to the reader and to what is recorded. -/
inductive Moves (t : ReaderThread) (a : Action) (u : ReaderThread) : Prop
  | idle (hreader : u.reader = t.reader) (hlog : u.log = t.log) (hkeep : t.SameRecords u)
  | event (fd : Nat) (result : ReadResult)
      (hreader : u.reader = t.reader.processPipeEvent fd result)
      (hlog : u.log = t.log ++ t.entriesOf fd result) (hkeep : t.SameRecords u)
  | cleared (ha : a = .advance) (hpc : t.pc = .clearCheck) (hclear : t.clearPipesEvent = true)
      (hreader : u.reader = t.reader.cleanupResources) (hlog : u.log = t.log)
      (hkeep : t.SameRecords u)
  | exited (hreader : u.reader = t.reader.cleanupResources) (hlog : u.log = t.log ++ [.exited])
      (hkeep : t.SameRecords u)
  | dropped (hreader : u.reader = t.dropLauncher.reader) (hlog : u.log = t.log)
      (hkeep : t.SameRecords u)
  | applied (ha : a = .advance) (hpc : t.pc = .configCheck) (hnew : t.active ≠ some t.current)
      (happlied : u = t.applyConfig)

variable {t u : ReaderThread}

theorem moves_advance (h : t.advance = some u) : Moves t .advance u := by
  unfold advance at h
  split at h
  · cases h
    exact .idle rfl rfl ⟨rfl, rfl⟩
  · cases h
    exact .idle rfl rfl ⟨rfl, rfl⟩
  · rename_i hpc
    cases h
    split
    · rename_i hclear
      exact .cleared rfl hpc hclear rfl rfl ⟨rfl, rfl⟩
    · exact .idle rfl rfl ⟨rfl, rfl⟩
  · cases h
    exact .idle rfl rfl ⟨rfl, rfl⟩
  · cases h
    exact .idle rfl rfl ⟨rfl, rfl⟩
  · rename_i hpc
    cases h
    split
    · exact .idle rfl rfl ⟨rfl, rfl⟩
    · rename_i hnew
      exact .applied rfl hpc hnew rfl
  · cases h
    exact .idle rfl rfl ⟨rfl, rfl⟩
  · cases h
    exact .exited rfl rfl ⟨rfl, rfl⟩
  · cases h
    exact .dropped rfl rfl ⟨rfl, rfl⟩
  · cases h

theorem moves_step {a : Action} (h : t.step a = some u) : Moves t a u := by
  cases a with
  | advance => exact moves_advance h
  | read result =>
    simp only [step] at h
    split at h
    · cases h
      exact .event _ result rfl rfl ⟨rfl, rfl⟩
    · cases h
      exact .event _ result rfl rfl ⟨rfl, rfl⟩
    · cases h
  | polled fds =>
    simp only [step] at h
    split at h
    · split at h <;> cases h <;> exact .idle rfl rfl ⟨rfl, rfl⟩
    · cases h
  | pollInterrupted | pollFailed =>
    simp only [step] at h
    split at h <;> cases h <;> exact .idle rfl rfl ⟨rfl, rfl⟩
  | updatePipes config | clearAllPipes | requestClear | waitReturned | waitTimedOut =>
    simp only [step] at h
    split at h <;> cases h
    exact .idle rfl rfl ⟨rfl, rfl⟩
  | shutdown =>
    cases h
    exact .idle rfl rfl ⟨rfl, rfl⟩

/-- An event with what is recorded of it: nothing, a read or the end of the pipe. -/
theorem event_cases (t : ReaderThread) (fd : Nat) (result : ReadResult) :
    t.reader.processPipeEvent fd result = t.reader ∧ t.entriesOf fd result = [] ∨
      ∃ writer, t.reader.fdToLocalRank.get? fd = some writer ∧
        ((∃ bytes, t.reader.ReadsData (t.reader.processPipeEvent fd result) writer bytes ∧
            t.entriesOf fd result = [.read (t.registeredIn fd) writer bytes]) ∨
          (t.reader.HangsUp (t.reader.processPipeEvent fd result) fd writer ∧
            t.entriesOf fd result = [.closed writer])) := by
  unfold entriesOf
  rcases t.reader.processPipeEvent_cases fd result with
    ⟨hsame, hwhy⟩ | ⟨writer, hwriter, ⟨bytes, rfl, hbytes, hread⟩ | ⟨hresult, hhang⟩⟩
  · refine .inl ⟨hsame, ?_⟩
    rcases hwhy with hnone | rfl
    · rw [hnone]
    · split <;> rfl
  · refine .inr ⟨writer, hwriter, .inl ⟨bytes, hread, ?_⟩⟩
    rw [hwriter]
    exact if_neg (by rwa [List.isEmpty_iff])
  · refine .inr ⟨writer, hwriter, .inr ⟨hhang, ?_⟩⟩
    rw [hwriter]
    rcases hresult with rfl | rfl <;> rfl

/-! ## The configuration in force -/

/-- The reader works under the configuration that was applied last, and what is registered and
queued is counted under the configuration it belongs to. -/
structure Wired (t : ReaderThread) : Prop where
  length : t.applied.length = t.reader.generation
  inForce : ∃ config, t.configOf t.reader.generation = some config ∧ t.reader.WorksUnder config
  registered : ∀ fd localRank, t.reader.fdToLocalRank.get? fd = some (.worker localRank) →
    t.registeredIn fd = t.reader.generation
  files : ∀ item ∈ t.reader.writeQueue, ∃ config, t.configOf item.generation = some config ∧
    item.logFilePath = config.targetPath item.writer

theorem configOf_congr (h : u.applied = t.applied) : u.configOf = t.configOf := by
  funext generation
  cases generation with
  | zero => rfl
  | succ n =>
    change u.applied[n]? = t.applied[n]?
    rw [h]

/-- A reader that keeps its configuration, registers nothing and only appends stays wired. -/
theorem Wired.of_appends (h : t.Wired) (hkeep : t.SameRecords u)
    (hsame : t.reader.SameConfig u.reader) (happends : t.reader.Appends u.reader)
    (hfds : ∀ fd writer, u.reader.fdToLocalRank.get? fd = some writer →
      t.reader.fdToLocalRank.get? fd = some writer) :
    u.Wired := by
  obtain ⟨config, hconfig, hworks⟩ := h.inForce
  refine ⟨?_, ⟨config, ?_, hworks.of_sameConfig hsame hfds⟩, fun fd localRank hfd => ?_,
    fun item hitem => ?_⟩
  · rw [hkeep.applied, hsame.generation]
    exact h.length
  · rw [configOf_congr hkeep.applied, hsame.generation]
    exact hconfig
  · rw [hkeep.registeredIn, hsame.generation]
    exact h.registered fd localRank (hfds fd _ hfd)
  · rw [configOf_congr hkeep.applied]
    obtain ⟨added, hqueue, hadded⟩ := happends
    rw [hqueue] at hitem
    rcases mem_append.mp hitem with hold | hnew
    · exact h.files item hold
    · obtain ⟨hgeneration, hpath⟩ := hadded item hnew
      exact ⟨config, hgeneration ▸ hconfig, hpath.trans (hworks.files item.writer)⟩

/-- The descriptors that an event leaves registered stand for what they did. -/
theorem get?_of_processPipeEvent (r : Reader) (fd : Nat) (result : ReadResult) :
    ∀ other writer, (r.processPipeEvent fd result).fdToLocalRank.get? other = some writer →
      r.fdToLocalRank.get? other = some writer := by
  intro other writer hother
  rcases r.processPipeEvent_cases fd result with ⟨hsame, -⟩ | ⟨w, -,
    ⟨bytes, -, -, hread⟩ | ⟨-, hhang⟩⟩
  · exact hsame ▸ hother
  · exact hread.registered ▸ hother
  · exact Dict.get?_of_get?_erase (hhang.registered ▸ hother)

theorem get?_of_cleanupResources (r : Reader) :
    ∀ fd writer, r.cleanupResources.fdToLocalRank.get? fd = some writer →
      r.fdToLocalRank.get? fd = some writer := by
  intro fd writer hfd
  rw [(Reader.cleansUp_cleanupResources r).registered] at hfd
  split at hfd
  · exact hfd
  · cases hfd

theorem get?_of_dropLauncher (t : ReaderThread) :
    ∀ fd writer, t.dropLauncher.reader.fdToLocalRank.get? fd = some writer →
      t.reader.fdToLocalRank.get? fd = some writer := by
  intro fd writer hfd
  unfold dropLauncher at hfd
  simp only at hfd
  split at hfd
  · exact Dict.get?_of_get?_erase hfd
  · exact hfd

/-- The configurations applied before keep their numbers. -/
theorem configOf_applyConfig (hlength : t.applied.length = t.reader.generation)
    (generation : Nat) : t.applyConfig.configOf generation =
      if generation = t.reader.generation + 1 then some t.currentConfig
      else t.configOf generation := by
  cases generation with
  | zero => rfl
  | succ n =>
    change (t.applied ++ [t.currentConfig])[n]? = _
    split
    · rename_i heq
      have hn : n = t.applied.length := by omega
      rw [hn, getElem?_concat_length]
    · rename_i hne
      change _ = t.applied[n]?
      rcases Nat.lt_or_gt_of_ne (fun heq : n = t.applied.length => hne (by omega)) with hlt | hgt
      · exact getElem?_append_left hlt
      · rw [getElem?_eq_none (by simp; omega), getElem?_eq_none (by omega)]

theorem Wired.applyConfig (h : t.Wired) : t.applyConfig.Wired := by
  obtain ⟨old, hold, hworks⟩ := h.inForce
  have hnew := Reader.worksUnder_applyConfig hworks t.currentConfig
  have hclean := Reader.cleansUp_cleanupResources t.reader
  have hgeneration : t.applyConfig.reader.generation = t.reader.generation + 1 :=
    congrArg Nat.succ hclean.config.generation
  refine ⟨?_, ⟨t.currentConfig, ?_, hnew⟩, fun fd localRank hfd => ?_, fun item hitem => ?_⟩
  · rw [hgeneration]
    change (t.applied ++ [t.currentConfig]).length = _
    rw [length_append, h.length]
    rfl
  · rw [hgeneration, configOf_applyConfig h.length, if_pos rfl]
  · rw [hgeneration]
    exact if_pos (mem_map_of_mem (hnew.workers fd localRank hfd))
  · obtain ⟨added, hqueue, hadded⟩ := hclean.appends
    have hitem' : item ∈ t.reader.writeQueue ++ added := hqueue ▸ hitem
    have hkept : ∃ config, t.configOf item.generation = some config ∧
        item.logFilePath = config.targetPath item.writer := by
      rcases mem_append.mp hitem' with hmem | hmem
      · exact h.files item hmem
      · obtain ⟨hitemGeneration, hpath⟩ := hadded item hmem
        exact ⟨old, hitemGeneration ▸ hold, hpath.trans (hworks.files item.writer)⟩
    obtain ⟨config, hconfig, hpath⟩ := hkept
    refine ⟨config, ?_, hpath⟩
    have hne : item.generation ≠ t.reader.generation + 1 := by
      intro heq
      rw [heq] at hconfig
      change t.applied[t.reader.generation]? = some config at hconfig
      rw [getElem?_eq_none (Nat.le_of_eq h.length)] at hconfig
      cases hconfig
    rw [configOf_applyConfig h.length, if_neg hne]
    exact hconfig

theorem wired_create (config : ReaderConfig) : (create config).Wired where
  length := rfl
  inForce := ⟨config, rfl, Reader.worksUnder_create config⟩
  registered _ _ hfd := if_pos
    (mem_map_of_mem (mem_entries_of_get?_create hfd))
  files _ hitem := absurd hitem not_mem_nil

theorem Wired.step {a : Action} (h : t.Wired) (hmove : Moves t a u) : u.Wired := by
  cases hmove with
  | idle hreader hlog hkeep =>
    exact h.of_appends hkeep (hreader ▸ .refl _) (.of_eq (by rw [hreader]))
      fun _ _ hfd => hreader ▸ hfd
  | event fd result hreader hlog hkeep =>
    refine h.of_appends hkeep ?_ ?_ ?_ <;> rw [hreader]
    · exact Reader.sameConfig_processPipeEvent _ _ _
    · exact Reader.appends_processPipeEvent _ _ _
    · exact get?_of_processPipeEvent _ _ _
  | cleared ha hpc hclear hreader hlog hkeep | exited hreader hlog hkeep =>
    refine h.of_appends hkeep ?_ ?_ ?_ <;> rw [hreader]
    · exact (Reader.cleansUp_cleanupResources _).config
    · exact (Reader.cleansUp_cleanupResources _).appends
    · exact get?_of_cleanupResources _
  | dropped hreader hlog hkeep =>
    refine h.of_appends hkeep ?_ ?_ ?_ <;> rw [hreader]
    · exact ⟨rfl, rfl, rfl, rfl, rfl, rfl⟩
    · exact .of_eq rfl
    · exact get?_of_dropLauncher t
  | applied ha hpc hnew happlied =>
    exact happlied ▸ h.applyConfig

end ReaderThread

end ResiliencyExt.FaultTolerance.PerCycleLogs
