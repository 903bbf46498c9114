import ResiliencyExt.Attribution.RestartAgent.LogSource

set_option autoImplicit false

/-!
# Restart agent: three ways to the lines of a log

The streaming decoder, `line()` and `log_lines()` of `IndexedFileLineStore` each make lines
of the same bytes.  A log is the blocks that its line feeds end, and one more when its last
line is not ended; all three read these blocks (`lineDecoding_agree`).
-/

namespace ResiliencyExt.Attribution.RestartAgent

open Foundation List

variable {Text : Type}

/-! ## Lines by number -/

/-- Why a range of lines cannot be read. -/
inductive SourceError where
  /-- `indexed source ended before its captured line boundary` -/
  | endedBeforeBoundary
  /-- `indexed source line count does not match its byte index` -/
  | lineCountMismatch
  deriving DecidableEq, Repr

/-- Texts with their line numbers. -/
def numberFrom : Nat → List Text → List (Nat × Text)
  | _, [] => []
  | line, text :: rest => (line, text) :: numberFrom (line + 1) rest

namespace IndexedFileLineStore

variable (decode : List UInt8 → Text × Nat) (store : IndexedFileLineStore)

/-- `line_starts[line]`, or the end of the index for the line after the last. -/
def offsetAfter (line : Nat) : Nat :=
  store.lineStarts.getD line store.indexedEndOffset

/-- `line(line)` -/
def line (line : Int) : Option Text :=
  if line < 1 ∨ store.lineStarts.length < line then none
  else
    some (readSpan decode store.readable
      (store.offsetAfter (line.toNat - 1), store.offsetAfter line.toNat))

/-- The lines that are asked for: the first, and the last. -/
def lineRange (startLine : Int) (endLine : Option Int) : Int × Int :=
  (max 1 startLine, (endLine.map (min (store.lineStarts.length : Int))).getD
    store.lineStarts.length)

/-- `log_lines` of a range that has a line, from the bytes of the range. -/
def streamRange (readChunkBytes : Nat) (positive : 0 < readChunkBytes) (first last : Nat) :
    Except SourceError (List (Nat × Text)) :=
  let size := store.offsetAfter last - store.offsetAfter (first - 1)
  let bytes := (store.readable.drop (store.offsetAfter (first - 1))).take size
  let reader : ChunkedLogReader := ⟨readChunkBytes, positive, false⟩
  let fed := IncrementalLineDecoder.new.feedChunks decode (reader.chunksOf size bytes)
  let texts := (fed.2 ++ (fed.1.finish decode).2).map DecodedLine.text
  if bytes.length < size then .error .endedBeforeBoundary
  else if first + texts.length ≠ last + 1 then .error .lineCountMismatch
  else .ok (numberFrom first texts)

/-- `log_lines(start_line, end_line)` -/
def logLines (readChunkBytes : Nat) (positive : 0 < readChunkBytes) (startLine : Int)
    (endLine : Option Int) : Except SourceError (List (Nat × Text)) :=
  let range := store.lineRange startLine endLine
  if range.2 < range.1 then .ok []
  else store.streamRange decode readChunkBytes positive range.1.toNat range.2.toNat

/-- The same lines, each read by its number. -/
def linesByNumber (startLine : Int) (endLine : Option Int) : List (Nat × Text) :=
  let range := store.lineRange startLine endLine
  (range' range.1.toNat (range.2 + 1 - range.1).toNat).filterMap fun line : Nat =>
    (store.line decode line).map fun text => (line, text)

end IndexedFileLineStore

/-- The index over the start offsets of records. -/
def indexOf (boundary : SourceBoundary) (content : List UInt8)
    (records : List (DecodedLine Text)) : IndexedFileLineStore where
  boundary := boundary
  lineStarts := records.map DecodedLine.startOffset
  indexedEndOffset := (records.getLast?.map DecodedLine.nextOffset).getD 0
  readable := content

/-- The records stand one after another from one offset to another. -/
def Tiles (stop : Nat) : Nat → List (DecodedLine Text) → Prop
  | start, [] => start = stop
  | start, record :: rest =>
    record.startOffset = start ∧ start ≤ record.endOffset ∧
      record.endOffset ≤ record.nextOffset ∧ start < record.nextOffset ∧
        Tiles stop record.nextOffset rest

/-! ## Blocks -/

section Blocks

variable (decode : List UInt8 → Text × Nat)

/-- The record of a block that begins at the offset. -/
def blockRecord (start : Nat) (block : List UInt8) : DecodedLine Text :=
  if block.getLast? = some lineFeed then completeLine decode start block.dropLast
  else
    { text := (decode block).1
      startOffset := start
      endOffset := start + block.length
      nextOffset := start + block.length
      decodeReplacementCount := (decode block).2 }

/-- The records of blocks one after another. -/
def blockRecords : Nat → List (List UInt8) → List (DecodedLine Text)
  | _, [] => []
  | start, block :: rest => blockRecord decode start block ::
    blockRecords (start + block.length) rest

variable {decode}

theorem blockRecords_append (a b : List (List UInt8)) : ∀ start,
    blockRecords decode start (a ++ b) =
      blockRecords decode start a ++ blockRecords decode (start + a.flatten.length) b := by
  induction a with
  | nil => exact fun _ => rfl
  | cons block rest ih =>
    intro start
    rw [cons_append, blockRecords, ih, blockRecords, cons_append, flatten_cons,
      length_append, Nat.add_assoc]

theorem blockRecords_map (raws : List (List UInt8)) : ∀ start,
    blockRecords decode start (raws.map (· ++ [lineFeed])) = completeLines decode start raws := by
  induction raws with
  | nil => exact fun _ => rfl
  | cons raw rest ih =>
    intro start
    rw [map_cons, blockRecords, ih, completeLines, blockRecord, getLast?_concat,
      if_pos rfl, dropLast_concat, length_append, length_singleton, Nat.add_assoc]

theorem blockRecords_openBlock {pending : List UInt8} (h : lineFeed ∉ pending) (start : Nat) :
    blockRecords decode start (Cutting.openBlock pending) = tailLine decode start pending := by
  cases pending with
  | nil => rfl
  | cons b rest =>
    have hlast : (b :: rest).getLast? ≠ some lineFeed :=
      fun hlast => h (mem_of_getLast? hlast)
    simp only [Cutting.openBlock, blockRecords, blockRecord, if_neg hlast, tailLine]

/-- What is read of bytes is read of their blocks. -/
theorem allLinesOf_eq (content : List UInt8) :
    allLinesOf decode content =
      blockRecords decode 0 (Cutting.blocks lineFeed content) := by
  have hlast : lastLineOf decode content =
      tailLine decode (tailStart content) (decoderOf content).pending := by
    rw [← start_pending]
    rfl
  have hstart : (((Cutting.cut lineFeed [] content).1.map (· ++ [lineFeed])).flatten).length =
      tailStart content := by
    rw [length_flatten, map_map, tailStart]
    exact congrArg sum (map_congr_left fun raw _ => length_append)
  rw [allLinesOf, hlast, Cutting.blocks, Cutting.assemble, blockRecords_append,
    blockRecords_map, hstart, Nat.zero_add]
  exact congrArg _ (blockRecords_openBlock (not_mem_pending content) _).symm

theorem map_text_blockRecords (blocks : List (List UInt8)) : ∀ start,
    (blockRecords decode start blocks).map DecodedLine.text =
      blocks.map (decodeRecord decode) := by
  induction blocks with
  | nil => exact fun _ => rfl
  | cons block rest ih =>
    intro start
    rw [blockRecords, map_cons, ih, map_cons, blockRecord, decodeRecord]
    split <;> rfl

theorem map_start_blockRecords (blocks : List (List UInt8)) : ∀ (start n : Nat),
    n < blocks.length → ((blockRecords decode start blocks).map DecodedLine.startOffset)[n]? =
      some (start + (blocks.take n).flatten.length) := by
  induction blocks with
  | nil => exact fun _ _ h => absurd h (Nat.not_lt_zero _)
  | cons block rest ih =>
    intro start n h
    rw [blockRecords, map_cons]
    cases n with
    | zero =>
      rw [getElem?_cons_zero, blockRecord]
      split <;> rfl
    | succ n =>
      rw [getElem?_cons_succ, ih _ n (Nat.lt_of_succ_lt_succ h), take_succ_cons,
        flatten_cons, length_append, Nat.add_assoc]

theorem length_blockRecords (blocks : List (List UInt8)) (start : Nat) :
    (blockRecords decode start blocks).length = blocks.length := by
  have h := congrArg List.length (@map_text_blockRecords _ decode blocks start)
  rwa [length_map, length_map] at h

theorem nextOffset_blockRecord {block : List UInt8} (h : block ≠ []) (start : Nat) :
    (blockRecord decode start block).nextOffset = start + block.length := by
  have hpos : 0 < block.length := length_pos_of_ne_nil h
  unfold blockRecord
  split
  · simp only [completeLine, length_dropLast]
    omega
  · rfl

/-- The records of blocks tile the bytes. -/
theorem tiles_blockRecords {blocks : List (List UInt8)} : ∀ {start : Nat},
    (∀ block ∈ blocks, block ≠ []) →
      Tiles (start + blocks.flatten.length) start (blockRecords decode start blocks) := by
  induction blocks with
  | nil => exact fun _ => rfl
  | cons block rest ih =>
    intro start h
    have hne := h block mem_cons_self
    have hpos : 0 < block.length := length_pos_of_ne_nil hne
    have hnext := @nextOffset_blockRecord _ decode _ hne start
    have hrest := @ih (start + block.length) fun other hmem =>
      h other (mem_cons_of_mem _ hmem)
    rw [flatten_cons, length_append, ← Nat.add_assoc]
    refine ⟨?_, ?_, ?_, ?_, hnext ▸ hrest⟩
    · unfold blockRecord
      split <;> rfl
    · unfold blockRecord
      split
      · exact Nat.le_add_right _ _
      · exact Nat.le_add_right _ _
    · unfold blockRecord
      split
      · have hstrip : (stripCarriageReturn block.dropLast).length ≤ block.dropLast.length := by
          unfold stripCarriageReturn
          split
          · rw [length_dropLast]
            omega
          · exact Nat.le_refl _
        exact Nat.le_succ_of_le (Nat.add_le_add_left hstrip start)
      · exact Nat.le_refl _
    · rw [hnext]
      omega

/-- The last record ends where the bytes end. -/
theorem getLast?_blockRecords {blocks : List (List UInt8)} : ∀ {start : Nat},
    (∀ block ∈ blocks, block ≠ []) →
      (((blockRecords decode start blocks).getLast?.map DecodedLine.nextOffset).getD start) =
        start + blocks.flatten.length := by
  induction blocks with
  | nil => exact fun _ => rfl
  | cons block rest ih =>
    intro start h
    have hnext := @nextOffset_blockRecord _ decode _ (h block mem_cons_self) start
    have hrest := @ih (start + block.length) fun other hmem =>
      h other (mem_cons_of_mem _ hmem)
    rw [flatten_cons, length_append, ← Nat.add_assoc, ← hrest, blockRecords]
    cases rest with
    | nil => exact hnext
    | cons _ _ => rfl

end Blocks

/-! ## The index over the records of bytes -/

section Index

variable {decode : List UInt8 → Text × Nat} (boundary : SourceBoundary) (content : List UInt8)

theorem ne_nil_of_mem_blocks {block : List UInt8}
    (h : block ∈ Cutting.blocks lineFeed content) : block ≠ [] :=
  Cutting.ne_nil_of_mem_assemble h

/-- The offset after some lines is how long their blocks are. -/
theorem offsetAfter_indexOf (n : Nat) :
    (indexOf boundary content (allLinesOf decode content)).offsetAfter n =
      ((Cutting.blocks lineFeed content).take n).flatten.length := by
  have hne := fun block => @ne_nil_of_mem_blocks content block
  rw [allLinesOf_eq, IndexedFileLineStore.offsetAfter, indexOf, getD_eq_getElem?_getD]
  rcases Nat.lt_or_ge n (Cutting.blocks lineFeed content).length with hlt | hge
  · rw [map_start_blockRecords _ _ _ hlt, Nat.zero_add, Option.getD_some]
  · have hlast := @getLast?_blockRecords _ decode _ 0 hne
    rw [getElem?_eq_none (by rwa [length_map, length_blockRecords]), Option.getD_none,
      hlast, Nat.zero_add, take_of_length_le hge]

/-- The bytes between two lines are their blocks. -/
theorem readSpan_indexOf {first last : Nat} (hle : first ≤ last) :
    (content.drop ((indexOf boundary content (allLinesOf decode content)).offsetAfter first)).take
        ((indexOf boundary content (allLinesOf decode content)).offsetAfter last -
          (indexOf boundary content (allLinesOf decode content)).offsetAfter first) =
      (((Cutting.blocks lineFeed content).take last).drop first).flatten := by
  rw [offsetAfter_indexOf, offsetAfter_indexOf]
  have hrange := Cutting.flatten_range (Cutting.blocks lineFeed content) hle
  rwa [Cutting.flatten_blocks] at hrange

/-- `line()` gives the text that the streaming decoder gave. -/
theorem line_indexOf (line : Int) :
    (indexOf boundary content (allLinesOf decode content)).line decode line =
      if line < 1 then none
      else ((allLinesOf decode content).map DecodedLine.text)[line.toNat - 1]? := by
  have hcount : (indexOf boundary content (allLinesOf decode content)).lineStarts.length =
      (Cutting.blocks lineFeed content).length := by
    rw [allLinesOf_eq, indexOf, length_map, length_blockRecords]
  rw [IndexedFileLineStore.line, hcount]
  rcases Int.lt_or_le line 1 with hlow | hlow
  · rw [if_pos (.inl hlow), if_pos hlow]
  · rw [if_neg (Int.not_lt.mpr hlow), allLinesOf_eq, map_text_blockRecords, getElem?_map]
    rcases Int.lt_or_le (Cutting.blocks lineFeed content).length line with hhigh | hhigh
    · rw [if_pos (.inr hhigh), getElem?_eq_none (by omega)]
      rfl
    · have hlt : line.toNat - 1 < (Cutting.blocks lineFeed content).length := by omega
      have hspan := @readSpan_indexOf _ decode boundary content (line.toNat - 1) line.toNat
        (Nat.sub_le _ _)
      have hone : ((Cutting.blocks lineFeed content).take line.toNat).drop (line.toNat - 1) =
          [(Cutting.blocks lineFeed content)[line.toNat - 1]] := by
        have hsize : line.toNat - (line.toNat - 1) = 1 := by omega
        rw [drop_take, hsize, drop_eq_getElem_cons hlt]
        rfl
      rw [hone, flatten_singleton, allLinesOf_eq] at hspan
      rw [if_neg (by omega), getElem?_eq_getElem hlt, readSpan]
      exact congrArg (fun raw => some (decodeRecord decode raw)) hspan

/-- A range is streamed as the streaming decoder gave it. -/
theorem streamRange_indexOf {readChunkBytes : Nat} (positive : 0 < readChunkBytes)
    {first last : Nat} (hfirst : 0 < first) (hle : first ≤ last)
    (hlast : last ≤ (Cutting.blocks lineFeed content).length) :
    (indexOf boundary content (allLinesOf decode content)).streamRange decode readChunkBytes
        positive first last =
      .ok (numberFrom first
        ((((allLinesOf decode content).map DecodedLine.text).take last).drop (first - 1))) := by
  have hspan := @readSpan_indexOf _ decode boundary content (first - 1) last (by omega)
  have hsize : (indexOf boundary content (allLinesOf decode content)).offsetAfter last -
      (indexOf boundary content (allLinesOf decode content)).offsetAfter (first - 1) =
        (((Cutting.blocks lineFeed content).take last).drop (first - 1)).flatten.length := by
    have hall := take_append_drop (first - 1) ((Cutting.blocks lineFeed content).take last)
    have hlength := congrArg (fun L : List (List UInt8) => L.flatten.length) hall
    simp only [flatten_append, length_append, take_take,
      Nat.min_eq_left (show first - 1 ≤ last by omega)] at hlength
    rw [offsetAfter_indexOf, offsetAfter_indexOf]
    omega
  have hrecords := feedChunks_finish decode
    ((⟨readChunkBytes, positive, false⟩ : ChunkedLogReader).chunksOf
      (((Cutting.blocks lineFeed content).take last).drop (first - 1)).flatten.length
      (((Cutting.blocks lineFeed content).take last).drop (first - 1)).flatten)
  rw [ChunkedLogReader.flatten_chunksOf _ _ _ (Nat.le_refl _)] at hrecords
  have htexts : (allLinesOf decode
      (((Cutting.blocks lineFeed content).take last).drop (first - 1)).flatten).map
        DecodedLine.text =
      (((allLinesOf decode content).map DecodedLine.text).take last).drop (first - 1) := by
    rw [allLinesOf_eq, map_text_blockRecords, Cutting.blocks_range, allLinesOf_eq,
      map_text_blockRecords, map_drop, map_take]
  have hcount : first + ((((allLinesOf decode content).map DecodedLine.text).take last).drop
      (first - 1)).length = last + 1 := by
    rw [length_drop, length_take, length_map, allLinesOf_eq, length_blockRecords]
    omega
  rw [hsize] at hspan
  have hbytes : (indexOf boundary content (allLinesOf decode content)).readable = content := rfl
  simp only [IndexedFileLineStore.streamRange, hsize, hbytes, hspan, hrecords, htexts]
  rw [if_neg (Nat.lt_irrefl _), if_neg (not_not.mpr hcount)]

/-- Numbering texts is looking each of them up by its number. -/
theorem numberFrom_eq (texts : List Text) : ∀ (size first : Nat), 0 < first →
    first + size ≤ texts.length + 1 →
      numberFrom first ((texts.take (first + size - 1)).drop (first - 1)) =
        (range' first size).filterMap fun line : Nat =>
          texts[line - 1]?.map fun text => (line, text)
  | 0, first, _, _ => by
    rw [Nat.add_zero, drop_of_length_le (length_take_le _ _)]
    rfl
  | size + 1, first, hfirst, hsize => by
    have hlt : first - 1 < (texts.take (first + (size + 1) - 1)).length := by
      rw [length_take]
      omega
    have hrest := numberFrom_eq texts size (first + 1) (Nat.succ_pos first) (by omega)
    rw [Nat.add_right_comm first 1 size, Nat.add_assoc first size 1, Nat.add_sub_cancel] at hrest
    rw [range'_succ, filterMap_cons, drop_eq_getElem_cons hlt,
      getElem?_eq_getElem (by omega), numberFrom, Nat.sub_add_cancel hfirst, hrest,
      getElem_take]
    rfl

/-- `log_lines()` gives what `line()` gives for each line of the range. -/
theorem logLines_indexOf {readChunkBytes : Nat} (positive : 0 < readChunkBytes)
    (startLine : Int) (endLine : Option Int) :
    (indexOf boundary content (allLinesOf decode content)).logLines decode readChunkBytes
        positive startLine endLine =
      .ok ((indexOf boundary content (allLinesOf decode content)).linesByNumber decode
        startLine endLine) := by
  have hcount : (indexOf boundary content (allLinesOf decode content)).lineStarts.length =
      (Cutting.blocks lineFeed content).length := by
    rw [allLinesOf_eq, indexOf, length_map, length_blockRecords]
  obtain ⟨first, last, hrange, hfirst, hlast⟩ : ∃ first last : Int,
      (indexOf boundary content (allLinesOf decode content)).lineRange startLine endLine =
        (first, last) ∧ 1 ≤ first ∧ last ≤ (Cutting.blocks lineFeed content).length := by
    refine ⟨_, _, rfl, by omega, ?_⟩
    rw [hcount]
    cases endLine with
    | none => exact Int.le_refl _
    | some line => exact Int.min_le_left _ _
  simp only [IndexedFileLineStore.logLines, IndexedFileLineStore.linesByNumber, hrange]
  split
  · next hnone =>
    have hzero : (last + 1 - first).toNat = 0 := by omega
    rw [hzero]
    rfl
  · next hsome =>
    have hsize : first.toNat + (last + 1 - first).toNat - 1 = last.toNat := by omega
    have hnumbered := numberFrom_eq ((allLinesOf decode content).map DecodedLine.text)
      (last + 1 - first).toNat first.toNat (by omega) (by
        rw [length_map, allLinesOf_eq, length_blockRecords]
        omega)
    rw [hsize] at hnumbered
    rw [streamRange_indexOf boundary content positive (by omega) (by omega) (by omega),
      hnumbered]
    refine congrArg _ (filterMap_congr fun line hline => ?_)
    have hpos : first.toNat ≤ line := (mem_range'_1.mp hline).1
    rw [line_indexOf, if_neg (by omega), Int.toNat_natCast]

end Index

/-- **Line decoding.**  Chunks are decoded as the bytes they make together, the records tile
these bytes, and an index over their start offsets gives the same texts line by line and
streamed in ranges. -/
theorem lineDecoding_agree (decode : List UInt8 → Text × Nat) (chunks : List (List UInt8))
    (boundary : SourceBoundary) :
    let fed := IncrementalLineDecoder.new.feedChunks decode chunks
    let whole := IncrementalLineDecoder.new.feedRecords decode chunks.flatten
    let records := fed.2 ++ (fed.1.finish decode).2
    let store := indexOf boundary chunks.flatten records
    records = whole.2 ++ (whole.1.finish decode).2 ∧
      Tiles chunks.flatten.length 0 records ∧
      (∀ line : Int, store.line decode line =
        if line < 1 then none else (records.map DecodedLine.text)[line.toNat - 1]?) ∧
      ∀ (readChunkBytes : Nat) (positive : 0 < readChunkBytes) (startLine : Int)
          (endLine : Option Int),
        store.logLines decode readChunkBytes positive startLine endLine =
          .ok (store.linesByNumber decode startLine endLine) := by
  have hrecords := feedChunks_finish decode chunks
  have hwhole := feedChunks_finish decode [chunks.flatten]
  rw [flatten_singleton] at hwhole
  simp only [IncrementalLineDecoder.feedChunks, append_nil] at hwhole
  simp only [hrecords, hwhole, true_and]
  refine ⟨?_, fun line => line_indexOf boundary _ line, fun _ positive startLine endLine =>
    logLines_indexOf boundary _ positive startLine endLine⟩
  have htiles := @tiles_blockRecords _ decode _ 0 fun block =>
    @ne_nil_of_mem_blocks chunks.flatten block
  rwa [Cutting.flatten_blocks, Nat.zero_add, ← allLinesOf_eq] at htiles

/-- The records of two chunks that cut a carriage return from its line feed, before a line
that nothing ends. -/
def splitRecords : List (DecodedLine (List UInt8)) :=
  [⟨[97], 0, 1, 3, 0⟩, ⟨[98, 13], 3, 5, 5, 0⟩]

theorem lineDecoding_agree_split :
    (indexOf ⟨0, 0, 5, 0⟩ [97, 13, 10, 98, 13] splitRecords).logLines (fun raw => (raw, 0)) 1
        Nat.one_pos 0 none = .ok [(1, [97]), (2, [98, 13])] :=
  (lineDecoding_agree (fun raw => (raw, 0)) [[97, 13], [10, 98, 13]] ⟨0, 0, 5, 0⟩).2.2.2 1
    Nat.one_pos 0 none

end ResiliencyExt.Attribution.RestartAgent
