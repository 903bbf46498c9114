import ResiliencyExt.FaultTolerance.PerCycleLogs.PipeReader
import ResiliencyExt.FaultTolerance.PerCycleLogs.LineGroups

set_option autoImplicit false

/-!
# Per-cycle logs: what an event queues

The write queue read back by the writer it is for.  An event of a pipe adds to
the text of that pipe's writer what the pure functions on lines say, changes the
buffer of no other writer, and never touches the configuration.  Every item is
made of lines that have ended, each behind the writer's prefix, and is no larger
than a chunk unless it is one line.
-/

namespace ResiliencyExt.FaultTolerance.PerCycleLogs

open Foundation SplitLines List

namespace Reader

/-- The items for a writer under the configuration with this number. -/
def itemsOf (r : Reader) (generation : Nat) (writer : Writer) : List QueueItem :=
  r.writeQueue.filter fun item => item.generation = generation ∧ item.writer = writer

/-- The text in them. -/
def textOf (r : Reader) (generation : Nat) (writer : Writer) : Text :=
  (r.itemsOf generation writer).flatMap QueueItem.data

/-- What stands before the lines of a writer. -/
def prefixOf (r : Reader) : Writer → Text
  | .launcher => []
  | .worker localRank => r.linePrefix localRank

/-- What is queued for a complete line. -/
def render (r : Reader) (writer : Writer) (line : Text) : Text :=
  match writer with
  | .launcher => line
  | .worker localRank => renderLine (r.linePrefix localRank) line

/-- The same configuration, applied as often. -/
structure SameConfig (r s : Reader) : Prop where
  logFilePath : s.logFilePath = r.logFilePath
  localToGlobalRank : s.localToGlobalRank = r.localToGlobalRank
  launcherPipeFd : s.launcherPipeFd = r.launcherPipeFd
  launcherLogFilePath : s.launcherLogFilePath = r.launcherLogFilePath
  rankWidth : s.rankWidth = r.rankWidth
  generation : s.generation = r.generation

variable {s : Reader} (r : Reader) (writer : Writer) (incomplete : Text) (fd : Nat)

variable {w : Writer} {generation : Nat} (data lines : List Text) (result : ReadResult)

theorem SameConfig.refl : r.SameConfig r :=
  ⟨rfl, rfl, rfl, rfl, rfl, rfl⟩

theorem SameConfig.trans {r t : Reader} (h : r.SameConfig s) (h' : s.SameConfig t) :
    r.SameConfig t where
  logFilePath := h'.logFilePath.trans h.logFilePath
  localToGlobalRank := h'.localToGlobalRank.trans h.localToGlobalRank
  launcherPipeFd := h'.launcherPipeFd.trans h.launcherPipeFd
  launcherLogFilePath := h'.launcherLogFilePath.trans h.launcherLogFilePath
  rankWidth := h'.rankWidth.trans h.rankWidth
  generation := h'.generation.trans h.generation

theorem SameConfig.linePrefix {r : Reader} (h : r.SameConfig s) (localRank : Nat) :
    s.linePrefix localRank = r.linePrefix localRank := by
  rw [Reader.linePrefix, Reader.linePrefix, h.rankWidth, h.localToGlobalRank]

theorem SameConfig.prefixOf {r : Reader} (h : r.SameConfig s) (writer : Writer) :
    s.prefixOf writer = r.prefixOf writer := by
  cases writer with
  | launcher => rfl
  | worker localRank => exact h.linePrefix localRank

theorem SameConfig.targetPath {r : Reader} (h : r.SameConfig s) (writer : Writer) :
    s.targetPath writer = r.targetPath writer := by
  cases writer with
  | launcher => exact h.launcherLogFilePath
  | worker localRank => exact congrArg some h.logFilePath

/-! ## Putting -/

theorem textOf_put_self :
    (r.put writer data).textOf r.generation writer =
      r.textOf r.generation writer ++ data.flatten := by
  rw [textOf, itemsOf, put, filter_append, flatMap_append]
  congr 1
  rw [filter_eq_self.mpr]
  · rw [flatMap_map, flatMap_def]
    exact congrArg flatten (map_id data)
  · intro item hitem
    obtain ⟨d, -, rfl⟩ := mem_map.mp hitem
    simp [item]

theorem textOf_put_of_ne {writer : Writer} (h : ¬ (generation = r.generation ∧ w = writer)) :
    (r.put writer data).textOf generation w = r.textOf generation w := by
  have hnone : (data.map (r.item writer)).filter
      (fun item => item.generation = generation ∧ item.writer = w) = [] := by
    refine filter_eq_nil_iff.mpr fun item hitem => ?_
    obtain ⟨d, -, rfl⟩ := mem_map.mp hitem
    intro hsame
    obtain ⟨hgeneration, hwriter⟩ := of_decide_eq_true hsame
    exact h ⟨hgeneration.symm, hwriter.symm⟩
  rw [textOf, itemsOf, put, filter_append, hnone, append_nil]
  rfl

theorem flatten_prefixedLines :
    (r.prefixedLines writer lines).flatten = lines.flatMap (r.render writer) := by
  cases writer with
  | launcher =>
    rw [flatMap_def]
    exact congrArg flatten (map_id lines).symm
  | worker localRank => exact flatten_queuedLines (r.linePrefix localRank) lines

theorem textOf_queueLinesForWrite_self :
    (r.queueLinesForWrite writer lines).textOf r.generation writer =
      r.textOf r.generation writer ++ lines.flatMap (r.render writer) := by
  rw [queueLinesForWrite, textOf_put_self, flatten_queuedChunks, flatten_prefixedLines]

theorem flushIncompleteLine_eq :
    r.flushIncompleteLine writer incomplete =
      if incomplete.isEmpty then r else r.put writer [r.prefixOf writer ++ incomplete ++
        ['\n']] := by
  cases writer <;> rfl

theorem textOf_flushIncompleteLine_self :
    (r.flushIncompleteLine writer incomplete).textOf r.generation writer =
      r.textOf r.generation writer ++ renderIncomplete (r.prefixOf writer) incomplete := by
  rw [flushIncompleteLine_eq, renderIncomplete]
  split
  · rw [append_nil]
  · rw [textOf_put_self, flatten_singleton]

theorem textOf_flushIncompleteLine_of_ne {writer : Writer}
    (h : ¬ (generation = r.generation ∧ w = writer)) :
    (r.flushIncompleteLine writer incomplete).textOf generation w = r.textOf generation w := by
  rw [flushIncompleteLine_eq]
  split
  · rfl
  · exact textOf_put_of_ne r _ h

theorem sameConfig_flushIncompleteLine :
    r.SameConfig (r.flushIncompleteLine writer incomplete) := by
  rw [flushIncompleteLine_eq]
  split
  · exact .refl r
  · exact ⟨rfl, rfl, rfl, rfl, rfl, rfl⟩

theorem lineBuffers_flushIncompleteLine :
    (r.flushIncompleteLine writer incomplete).lineBuffers = r.lineBuffers := by
  rw [flushIncompleteLine_eq]
  split <;> rfl

theorem fdToLocalRank_flushIncompleteLine :
    (r.flushIncompleteLine writer incomplete).fdToLocalRank = r.fdToLocalRank := by
  rw [flushIncompleteLine_eq]
  split <;> rfl

/-! ## One event -/

theorem get?_lineBuffers_setBuffer (w : Writer) (buffered : Option Text) :
    (r.setBuffer writer buffered).lineBuffers.get? w =
      if w = writer then buffered else r.lineBuffers.get? w := by
  cases buffered with
  | none =>
    split
    · rename_i heq
      rw [heq]
      exact Dict.get?_erase_self _ _
    · rename_i hne
      exact Dict.get?_erase_of_ne _ hne
  | some pending => exact Dict.get?_set _ _ _ _

/-- What a read does: the pure functions on lines say what is queued and buffered. -/
structure ReadsData (r s : Reader) (writer : Writer) (bytes : List UInt8) : Prop where
  config : r.SameConfig s
  text : s.textOf r.generation writer = r.textOf r.generation writer ++
    (assembleLines (r.lineBuffers.get? writer) (readText bytes)).1.flatMap (r.render writer)
  text_of_ne : ∀ generation w, ¬ (generation = r.generation ∧ w = writer) →
    s.textOf generation w = r.textOf generation w
  buffer : ∀ w, s.lineBuffers.get? w = if w = writer then
    (assembleLines (r.lineBuffers.get? writer) (readText bytes)).2 else r.lineBuffers.get? w
  registered : s.fdToLocalRank = r.fdToLocalRank

theorem readsData_readData (bytes : List UInt8) :
    r.ReadsData (r.readData writer bytes) writer bytes where
  config := ⟨rfl, rfl, rfl, rfl, rfl, rfl⟩
  text := textOf_queueLinesForWrite_self (r.setBuffer writer _) writer _
  text_of_ne _ _ h := textOf_put_of_ne (r.setBuffer writer _) _ h
  buffer w := get?_lineBuffers_setBuffer r writer w _
  registered := rfl

/-- What the end of a pipe does: the incomplete line is completed and the descriptor forgotten. -/
structure HangsUp (r s : Reader) (fd : Nat) (writer : Writer) : Prop where
  config : r.SameConfig s
  text : s.textOf r.generation writer = r.textOf r.generation writer ++
    renderIncomplete (r.prefixOf writer) ((r.lineBuffers.get? writer).getD [])
  text_of_ne : ∀ generation w, ¬ (generation = r.generation ∧ w = writer) →
    s.textOf generation w = r.textOf generation w
  buffer : ∀ w, s.lineBuffers.get? w = if w = writer then none else r.lineBuffers.get? w
  registered : s.fdToLocalRank = r.fdToLocalRank.erase fd

theorem hangsUp_hangUp (writer : Writer) : r.HangsUp (r.hangUp fd writer) fd writer := by
  have hflush := sameConfig_flushIncompleteLine r writer ((r.lineBuffers.get? writer).getD [])
  exact
    { config := ⟨hflush.logFilePath, hflush.localToGlobalRank, hflush.launcherPipeFd,
        hflush.launcherLogFilePath, hflush.rankWidth, hflush.generation⟩
      text := textOf_flushIncompleteLine_self r writer _
      text_of_ne := fun generation w h => textOf_flushIncompleteLine_of_ne r _ h
      buffer := fun w => by
        rw [hangUp]
        refine (get?_lineBuffers_setBuffer _ writer w none).trans ?_
        rw [lineBuffers_flushIncompleteLine]
      registered := by
        rw [hangUp]
        exact congrArg (Dict.erase · fd) (fdToLocalRank_flushIncompleteLine r writer _) }

/-- An event of a pipe: nothing, a read or the end of the pipe. -/
theorem processPipeEvent_cases :
    r.processPipeEvent fd result = r ∧
        (r.fdToLocalRank.get? fd = none ∨ result = .interrupted) ∨
      ∃ writer, r.fdToLocalRank.get? fd = some writer ∧
        ((∃ bytes, result = .data bytes ∧ bytes ≠ [] ∧
            r.ReadsData (r.processPipeEvent fd result) writer bytes) ∨
          ((result = .failed ∨ result = .data []) ∧
            r.HangsUp (r.processPipeEvent fd result) fd writer)) := by
  rw [processPipeEvent]
  cases hfd : r.fdToLocalRank.get? fd with
  | none => exact .inl ⟨rfl, .inl rfl⟩
  | some writer =>
    cases result with
    | interrupted => exact .inl ⟨rfl, .inr rfl⟩
    | failed => exact .inr ⟨writer, rfl, .inr ⟨.inl rfl, hangsUp_hangUp r fd writer⟩⟩
    | data bytes =>
      cases bytes with
      | nil => exact .inr ⟨writer, rfl, .inr ⟨.inr rfl, hangsUp_hangUp r fd writer⟩⟩
      | cons b bytes =>
        exact .inr ⟨writer, rfl, .inl ⟨b :: bytes, rfl, cons_ne_nil b bytes,
          readsData_readData r writer (b :: bytes)⟩⟩

theorem sameConfig_processPipeEvent : r.SameConfig (r.processPipeEvent fd result) := by
  rcases processPipeEvent_cases r fd result with ⟨hsame, -⟩ | ⟨writer, -, hread | hhang⟩
  · rw [hsame]
    exact .refl r
  · obtain ⟨bytes, -, -, hread⟩ := hread
    exact hread.config
  · exact hhang.2.config

end Reader

/-- The item is made of lines that have ended, each behind the prefix, and is larger than a
chunk only if it is one line. -/
def QueueItem.Whole (item : QueueItem) (pre : Text) : Prop :=
  ∃ lines : List Text, lines ≠ [] ∧ item.data = lines.flatMap (fun line => pre ++ line) ∧
    (∀ line ∈ lines, LineEnded line) ∧
    (utf8Size item.data ≤ grpcMaxChunkSize ∨ lines.length = 1)

theorem utf8Size_pos {line : Text} (h : line ≠ []) : 0 < utf8Size line := by
  obtain ⟨c, cs, rfl⟩ := exists_cons_of_ne_nil h
  rw [utf8Size, map_cons, sum_cons]
  have hc := Char.utf8Size_pos c
  omega

theorem LineEnded.ne_nil {line : Text} (h : LineEnded line) : line ≠ [] := by
  rintro rfl
  obtain ⟨c, hc, -⟩ := h
  cases hc

/-- The lines that a read completes have ended. -/
theorem lineEnded_of_mem_assembleLines {buffered : Option Text} {text : Text} :
    ∀ line ∈ (assembleLines buffered text).1, LineEnded line := by
  by_cases htext : text = []
  · subst htext
    exact fun _ hmem => absurd hmem not_mem_nil
  · have hseparate := separate_splitlines text
    have hdrop := lineEnded_of_separate hseparate
    obtain ⟨first, rest, hsplit⟩ := exists_cons_of_ne_nil (splitlines_ne_nil htext)
    -- Joining the buffer to the first line changes no line's end.
    have hjoin : ∀ pending : Text, ∀ line ∈ (joinFirst pending (splitlines text)).dropLast,
        LineEnded line := by
      intro pending line hline
      rw [hsplit] at hline hdrop
      cases rest with
      | nil => exact absurd hline not_mem_nil
      | cons second rest =>
        rcases mem_cons.mp hline with rfl | hline
        · exact lineEnded_append pending (hdrop first mem_cons_self)
        · exact hdrop line (mem_cons_of_mem first hline)
    have hpop : ∀ lines : List Text, (∀ line ∈ lines.dropLast, LineEnded line) →
        ∀ line ∈ (popIncomplete lines).1, LineEnded line := by
      intro lines hlines line hline
      rcases eq_nil_or_concat' lines with rfl | ⟨init, last, rfl⟩
      · exact absurd hline not_mem_nil
      · rw [dropLast_concat] at hlines
        rw [popIncomplete_concat] at hline
        split at hline
        · rename_i hnewline
          rcases mem_append.mp hline with hmem | hmem
          · exact hlines line hmem
          · rw [mem_singleton.mp hmem]
            exact lineEnded_of_endsWithNewline hnewline
        · exact hlines line hline
    rw [assembleLines_of_ne_nil _ htext]
    cases buffered with
    | none => exact hpop _ hdrop
    | some pending => exact hpop _ (hjoin pending)

/-- Chunks of prefixed lines are whole. -/
theorem whole_of_mem_queuedChunks {pre : Text} {lines : List Text}
    (hended : ∀ line ∈ lines, LineEnded line) {item : QueueItem}
    (h : item.data ∈ queuedChunks (lines.map fun line => pre ++ line)) : item.Whole pre := by
  obtain ⟨chunk, hchunk, hdata⟩ := mem_map.mp h
  have hpos : ∀ line ∈ [] ++ lines.map (fun line => pre ++ line), 0 < utf8Size line := by
    intro line hline
    obtain ⟨l, hl, rfl⟩ := mem_map.mp hline
    exact utf8Size_pos (append_ne_nil_of_right_ne_nil _ (hended l hl).ne_nil)
  obtain ⟨hne, hfits⟩ := fits_of_mem_chunkLines grpcMaxChunkSize _ [] 0 rfl
    (.inl (Nat.zero_le _)) hpos chunk hchunk
  have hmem : ∀ line ∈ chunk, ∃ l ∈ lines, pre ++ l = line := by
    intro line hline
    have hflat : line ∈ lines.map fun l => pre ++ l := by
      rw [← nil_append (lines.map fun l => pre ++ l),
        ← flatten_chunkLines grpcMaxChunkSize _ [] 0]
      exact mem_flatten.mpr ⟨chunk, hchunk, hline⟩
    exact mem_map.mp hflat
  have hrestore : (chunk.map (drop pre.length)).map (fun line => pre ++ line) = chunk := by
    rw [map_map]
    refine (map_congr_left fun line hline => ?_).trans (map_id chunk)
    obtain ⟨l, -, rfl⟩ := hmem line hline
    simp
  refine ⟨chunk.map (drop pre.length), fun hnil => hne (map_eq_nil_iff.mp hnil), ?_,
    fun line hline => ?_, ?_⟩
  · rw [flatMap_def, hrestore, hdata]
  · obtain ⟨whole, hwhole, rfl⟩ := mem_map.mp hline
    obtain ⟨l, hl, rfl⟩ := hmem whole hwhole
    rw [drop_left]
    exact hended l hl
  · rw [← hdata, utf8Size_flatten, length_map]
    rcases hfits with hsize | hone
    · exact .inl hsize
    · have hpositive := length_pos_of_ne_nil hne
      exact .inr (by omega)

end ResiliencyExt.FaultTolerance.PerCycleLogs
