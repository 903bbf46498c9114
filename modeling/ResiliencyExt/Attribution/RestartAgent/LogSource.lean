import Mathlib.Data.List.Infix
import ResiliencyExt.Foundation.Cutting

set_option autoImplicit false

/-!
# Restart agent: the bytes and lines of a log

`infrastructure/log_source.py`.  A log is read in chunks up to a boundary that was captured
before, and an incremental decoder makes lines of them.  The lines themselves are not kept:
an index holds the offset at which each begins, and a line is read back from the file.

How bytes become text is a parameter, `_decode_bytes(raw, "utf-8")`; the count beside the
text is that of the characters put in place of malformed bytes.
-/

namespace ResiliencyExt.Attribution.RestartAgent

open Foundation List

/-- `SourceBoundary` -/
structure SourceBoundary where
  device : Nat
  inode : Nat
  byteSize : Nat
  mtimeNs : Int
  deriving DecidableEq, Repr

/-! ## Lines -/

def lineFeed : UInt8 := 10

def carriageReturn : UInt8 := 13

/-- A line without the carriage return before its line feed. -/
def stripCarriageReturn (raw : List UInt8) : List UInt8 :=
  if raw.getLast? = some carriageReturn then raw.dropLast else raw

/-- `DecodedLine` -/
structure DecodedLine (Text : Type) where
  text : Text
  startOffset : Nat
  endOffset : Nat
  nextOffset : Nat
  decodeReplacementCount : Nat

section Decoder

variable {Text : Type} (decode : List UInt8 → Text × Nat)

/-- The complete line that begins at the offset. -/
def completeLine (start : Nat) (raw : List UInt8) : DecodedLine Text where
  text := (decode (stripCarriageReturn raw)).1
  startOffset := start
  endOffset := start + (stripCarriageReturn raw).length
  nextOffset := start + raw.length + 1
  decodeReplacementCount := (decode (stripCarriageReturn raw)).2

/-- Complete lines one after another. -/
def completeLines : Nat → List (List UInt8) → List (DecodedLine Text)
  | _, [] => []
  | start, raw :: rest =>
    completeLine decode start raw :: completeLines (start + raw.length + 1) rest

/-- The last line, which no line feed ends. -/
def tailLine (start : Nat) : List UInt8 → List (DecodedLine Text)
  | [] => []
  | pending =>
    [{ text := (decode pending).1
       startOffset := start
       endOffset := start + pending.length
       nextOffset := start + pending.length
       decodeReplacementCount := (decode pending).2 }]

/-- `IncrementalLineDecoder` -/
structure IncrementalLineDecoder where
  pending : List UInt8
  bytesReceived : Nat
  deriving DecidableEq, Repr

namespace IncrementalLineDecoder

def new : IncrementalLineDecoder where
  pending := []
  bytesReceived := 0

/-- `feed_records(chunk)` -/
def feedRecords (decoder : IncrementalLineDecoder) (chunk : List UInt8) :
    IncrementalLineDecoder × List (DecodedLine Text) :=
  let dataStart := decoder.bytesReceived - decoder.pending.length
  let lines := Cutting.cut lineFeed [] (decoder.pending ++ chunk)
  ({ pending := lines.2, bytesReceived := decoder.bytesReceived + chunk.length },
    completeLines decode dataStart lines.1)

/-- `feed_records(b"", final=True)`: the pending bytes have no line feed. -/
def finish (decoder : IncrementalLineDecoder) :
    IncrementalLineDecoder × List (DecodedLine Text) :=
  ({ decoder with pending := [] },
    tailLine decode (decoder.bytesReceived - decoder.pending.length) decoder.pending)

/-- Chunks one after another. -/
def feedChunks (decoder : IncrementalLineDecoder) :
    List (List UInt8) → IncrementalLineDecoder × List (DecodedLine Text)
  | [] => (decoder, [])
  | chunk :: rest =>
    let fed := decoder.feedRecords decode chunk
    let later := feedChunks fed.1 rest
    (later.1, fed.2 ++ later.2)

end IncrementalLineDecoder

/-! ## What is read of a file up to an offset -/

/-- The complete lines of the bytes. -/
def linesOf (content : List UInt8) : List (DecodedLine Text) :=
  completeLines decode 0 (Cutting.cut lineFeed [] content).1

/-- The decoder that has been fed the bytes. -/
def decoderOf (content : List UInt8) : IncrementalLineDecoder where
  pending := (Cutting.cut lineFeed [] content).2
  bytesReceived := content.length

/-- Where the open line begins. -/
def tailStart (content : List UInt8) : Nat :=
  ((Cutting.cut lineFeed [] content).1.map (fun raw => raw.length + 1)).sum

/-- The line at the end that no line feed ends, if there is one. -/
def lastLineOf (content : List UInt8) : List (DecodedLine Text) :=
  ((decoderOf content).finish decode).2

/-- What is read of a whole file, its last line with it. -/
def allLinesOf (content : List UInt8) : List (DecodedLine Text) :=
  linesOf decode content ++ lastLineOf decode content

variable {decode}

theorem completeLines_append (a b : List (List UInt8)) : ∀ start,
    completeLines decode start (a ++ b) =
      completeLines decode start a ++
        completeLines decode (start + (a.map (fun raw => raw.length + 1)).sum) b := by
  induction a with
  | nil => exact fun _ => rfl
  | cons raw rest ih =>
    intro start
    rw [cons_append, completeLines, ih, completeLines, cons_append, map_cons,
      sum_cons, Nat.add_assoc start, Nat.add_assoc start]

theorem not_mem_pending (content : List UInt8) : lineFeed ∉ (decoderOf content).pending :=
  (Cutting.clean_cut content not_mem_nil).rest

/-- The open line goes from its beginning to the end of the bytes. -/
theorem tailStart_add (content : List UInt8) :
    tailStart content + (decoderOf content).pending.length = content.length :=
  Cutting.length_cut content

theorem start_pending (content : List UInt8) :
    (decoderOf content).bytesReceived - (decoderOf content).pending.length =
      tailStart content := by
  have h := tailStart_add content
  change content.length - _ = _
  omega

/-- A chunk goes on where the bytes before it ended. -/
theorem feedRecords_decoderOf (content chunk : List UInt8) :
    (decoderOf content).feedRecords decode chunk =
        (decoderOf (content ++ chunk),
          completeLines decode (tailStart content)
            (Cutting.cut lineFeed (Cutting.cut lineFeed [] content).2 chunk).1) ∧
      linesOf decode (content ++ chunk) =
        linesOf decode content ++ ((decoderOf content).feedRecords decode chunk).2 := by
  have hfed : (decoderOf content).feedRecords decode chunk =
      (decoderOf (content ++ chunk),
        completeLines decode (tailStart content)
          (Cutting.cut lineFeed (Cutting.cut lineFeed [] content).2 chunk).1) := by
    unfold IncrementalLineDecoder.feedRecords
    rw [start_pending, Cutting.cut_nil_append (not_mem_pending content)]
    simp only [decoderOf, Cutting.cut_append content chunk, length_append]
  refine ⟨hfed, ?_⟩
  rw [hfed, linesOf, Cutting.cut_append, completeLines_append, Nat.zero_add]
  rfl

/-- Chunks one after another are as good as all the bytes at once. -/
theorem feedChunks_decoderOf : ∀ (chunks : List (List UInt8)) (content : List UInt8),
    ((decoderOf content).feedChunks decode chunks).1 = decoderOf (content ++ chunks.flatten) ∧
      linesOf decode (content ++ chunks.flatten) =
        linesOf decode content ++ ((decoderOf content).feedChunks decode chunks).2
  | [], content => by simp [IncrementalLineDecoder.feedChunks]
  | chunk :: rest, content => by
    obtain ⟨hfed, hlines⟩ := @feedRecords_decoderOf _ decode content chunk
    obtain ⟨hlater, hmore⟩ := feedChunks_decoderOf rest (content ++ chunk)
    have hnext : ((decoderOf content).feedRecords decode chunk).1 =
        decoderOf (content ++ chunk) := by rw [hfed]
    rw [IncrementalLineDecoder.feedChunks, flatten_cons, ← append_assoc, hnext]
    exact ⟨hlater, by rw [hmore, hlines, append_assoc]⟩

variable (decode) in
/-- Chunks and the flush after them are read as their bytes are. -/
theorem feedChunks_finish (chunks : List (List UInt8)) :
    (IncrementalLineDecoder.new.feedChunks decode chunks).2 ++
        ((IncrementalLineDecoder.new.feedChunks decode chunks).1.finish decode).2 =
      allLinesOf decode chunks.flatten := by
  obtain ⟨hdecoder, hlines⟩ := @feedChunks_decoderOf _ decode chunks []
  rw [nil_append] at hdecoder hlines
  rw [allLinesOf, hlines, lastLineOf, ← hdecoder]
  rfl

end Decoder

/-! ## The reader -/

/-- `ChunkedLogReader` -/
structure ChunkedLogReader where
  chunkBytes : Nat
  positive : 0 < chunkBytes
  singleSnapshot : Bool

namespace ChunkedLogReader

/-- How many bytes are read next. -/
def readSize (reader : ChunkedLogReader) (remaining : Nat) : Nat :=
  if reader.singleSnapshot then remaining else min reader.chunkBytes remaining

/-- The chunks of the bytes that remain, in at most so many reads. -/
def chunksOf (reader : ChunkedLogReader) : Nat → List UInt8 → List (List UInt8)
  | 0, _ => []
  | _ + 1, [] => []
  | reads + 1, bytes =>
    bytes.take (reader.readSize bytes.length) ::
      chunksOf reader reads (bytes.drop (reader.readSize bytes.length))

theorem readSize_pos (reader : ChunkedLogReader) {remaining : Nat} (h : 0 < remaining) :
    0 < reader.readSize remaining := by
  unfold readSize
  split
  · exact h
  · exact Nat.lt_min.mpr ⟨reader.positive, h⟩

/-- One read for each byte is enough for all of them. -/
theorem flatten_chunksOf (reader : ChunkedLogReader) :
    ∀ (reads : Nat) (bytes : List UInt8), bytes.length ≤ reads →
      (reader.chunksOf reads bytes).flatten = bytes
  | 0, bytes, h => by rw [length_eq_zero_iff.mp (Nat.le_zero.mp h)]; rfl
  | _ + 1, [], _ => rfl
  | reads + 1, b :: rest, h => by
    have hpos : 0 < (b :: rest).length := Nat.succ_pos _
    have hread := reader.readSize_pos hpos
    rw [chunksOf, flatten_cons, flatten_chunksOf reader reads, take_append_drop]
    · rw [length_drop]
      omega
    · exact cons_ne_nil b rest

end ChunkedLogReader

/-! ## The index -/

/-- `IndexedFileLineStore`, with the bytes that its open file holds. -/
structure IndexedFileLineStore where
  boundary : SourceBoundary
  lineStarts : List Nat
  indexedEndOffset : Nat
  readable : List UInt8

section Store

variable {Text : Type} (decode : List UInt8 → Text × Nat)

/-- `_decode_record` -/
def decodeRecord (raw : List UInt8) : Text :=
  if raw.getLast? = some lineFeed then (decode (stripCarriageReturn raw.dropLast)).1
  else (decode raw).1

/-- The bytes of a span, decoded. -/
def readSpan (readable : List UInt8) (span : Nat × Nat) : Text :=
  decodeRecord decode ((readable.drop span.1).take (span.2 - span.1))

end Store

end ResiliencyExt.Attribution.RestartAgent
