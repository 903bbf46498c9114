import Mathlib.Algebra.Ring.Nat
import ResiliencyExt.Foundation.Text
import ResiliencyExt.Foundation.Unicode
import ResiliencyExt.Foundation.Utf8

set_option autoImplicit false

/-!
# Per-cycle logs: the lines of a rank

What the reader thread does to the text of one pipe: the bytes of a read are
decoded and their NUL characters spelled out, the text is split and its first
line joined to what is buffered, the lines that are complete are filtered,
prefixed with the rank and cut into chunks for the write queue.

Two facts about the noise filter carry the proofs about it.  A line that is
dropped holds neither a replacement character nor a rank prefix, and it has two
words, so that several such lines taken for one are not dropped.
-/

namespace ResiliencyExt.FaultTolerance.PerCycleLogs

open Foundation SplitLines Unicode List

abbrev Text := List Char

/-! ## The noise filter -/

/-- `_DEVICE_SECTION_HEADERS` -/
def deviceSectionHeaders : List Text :=
  ["Character devices:".toList, "Block devices:".toList]

/-- The characters of a device name in `_DEVICE_ENTRY_PATTERN`. -/
def isNameChar (c : Char) : Bool :=
  c.isAlphanum || c == '_' || c == '-' || c == '/'

/-- `_DEVICE_ENTRY_PATTERN`, on text without a final line end: one to three decimal digits,
white space and a device name. -/
def matchesDeviceEntry (stripped : Text) : Bool :=
  let number := stripped.takeWhile isDecimal
  let afterNumber := stripped.dropWhile isDecimal
  let name := afterNumber.dropWhile isSpace
  decide (1 ≤ number.length) && decide (number.length ≤ 3) &&
    !(afterNumber.takeWhile isSpace).isEmpty && !name.isEmpty && name.all isNameChar

/-- `_should_filter_line`.  That the first character is a digit is part of the pattern. -/
def shouldFilterLine (line : Text) : Bool :=
  if 65 < line.length then false
  else if line.isEmpty then false
  else
    let stripped := strip line
    if stripped.isEmpty then false
    else if deviceSectionHeaders.contains stripped then true
    else matchesDeviceEntry stripped

/-! ## Reads -/

/-- `text.replace('\x00', '<NUL>')` -/
def cleanNul (text : Text) : Text :=
  text.flatMap fun c => if c = '\x00' then "<NUL>".toList else [c]

/-- The text of one read. -/
def readText (data : List UInt8) : Text :=
  cleanNul (Utf8.decode data)

/-- Whether a line is complete: `line.endswith('\n')`. -/
def endsWithNewline (line : Text) : Bool :=
  line.getLast? == some '\n'

/-- Take off the last line if it is not complete. -/
def popIncomplete (lines : List Text) : List Text × Option Text :=
  match lines.getLast? with
  | some last => if endsWithNewline last then (lines, none) else (lines.dropLast, some last)
  | none => ([], none)

/-- The complete lines after a read, and the incomplete one that is buffered. -/
def assembleLines (buffered : Option Text) (text : Text) : List Text × Option Text :=
  match splitlines text with
  | [] => ([], buffered)
  | lines =>
    popIncomplete (match buffered with
      | some pending => joinFirst pending lines
      | none => lines)

/-! ## What is queued -/

/-- `f'{rank:>{width}}: '` if there is a width, else `f'{rank}: '`. -/
def rankPrefix (width rank : Nat) : Text :=
  replicate (width - (Text.decimal rank).length) ' ' ++ Text.decimal rank ++ ": ".toList

/-- `len(line.encode('utf-8'))` -/
def utf8Size (line : Text) : Nat :=
  (line.map Char.utf8Size).sum

/-- `_GRPC_MAX_CHUNK_SIZE` -/
def grpcMaxChunkSize : Nat := 256 * 1024

/-- The loop that cuts lines into chunks, with the chunk it is filling. -/
def chunkLines (maxChunkSize : Nat) : List Text → Nat → List Text → List (List Text)
  | chunk, _, [] => if chunk.isEmpty then [] else [chunk]
  | chunk, size, line :: lines =>
    if 0 < size ∧ maxChunkSize < size + utf8Size line then
      chunk :: chunkLines maxChunkSize [line] (utf8Size line) lines
    else chunkLines maxChunkSize (chunk ++ [line]) (size + utf8Size line) lines

/-- The data of the items that `_queue_lines_for_write` puts. -/
def queuedChunks (lines : List Text) : List Text :=
  (chunkLines grpcMaxChunkSize [] 0 lines).map flatten

/-- A complete line of a worker in the queue: nothing for noise. -/
def renderLine (pre : Text) (line : Text) : Text :=
  if shouldFilterLine line then [] else pre ++ line

/-- The incomplete line of a worker in the queue: `_flush_incomplete_line`. -/
def renderIncomplete (pre : Text) (line : Text) : Text :=
  if line.isEmpty then [] else pre ++ line ++ ['\n']

/-! ## Facts about the filter -/

theorem visible_of_isDigit {c : Char} (h : c.isDigit = true) :
    0x21 ≤ c.toNat ∧ c.toNat ≤ 0x7E := by
  simp only [Char.isDigit, Bool.and_eq_true, decide_eq_true_eq, UInt32.le_iff_toNat_le] at h
  have hzero : '0'.val.toNat = 48 := rfl
  have hnine : '9'.val.toNat = 57 := rfl
  unfold Char.toNat
  omega

theorem visible_of_isNameChar {c : Char} (h : isNameChar c = true) :
    0x21 ≤ c.toNat ∧ c.toNat ≤ 0x7E := by
  have hclass : (decide (c.val ≥ 'A'.val ∧
    c.val ≤ 'Z'.val) || (c.val ≥ 'a'.val && c.val ≤ 'z'.val) ||
      c.isDigit || c == '_' || c == '-' || c == '/') = true := h
  simp only [Bool.or_eq_true, Bool.and_eq_true, decide_eq_true_eq, beq_iff_eq, ge_iff_le,
    UInt32.le_iff_toNat_le] at hclass
  rcases hclass with (((((h | h) | h) | h) | h) | h)
  · have hlow : 'A'.val.toNat = 65 := rfl
    have hhigh : 'Z'.val.toNat = 90 := rfl
    unfold Char.toNat
    omega
  · have hlow : 'a'.val.toNat = 97 := rfl
    have hhigh : 'z'.val.toNat = 122 := rfl
    unfold Char.toNat
    omega
  · exact visible_of_isDigit h
  all_goals
    subst h
    decide

theorem cleanNul_append (xs ys : Text) : cleanNul (xs ++ ys) = cleanNul xs ++ cleanNul ys := by
  simp [cleanNul]

theorem words_header : ∀ header ∈ deviceSectionHeaders, words header = 2 := by
  decide +kernel

/-- What the pattern matches is a number, white space and a name. -/
theorem matchesDeviceEntry_split {stripped : Text} (h : matchesDeviceEntry stripped = true) :
    ∃ number space name : Text, stripped = number ++ space ++ name ∧
      number ≠ [] ∧ space ≠ [] ∧ name ≠ [] ∧ (∀ c ∈ number, isDecimal c = true) ∧
      (∀ c ∈ space, isSpace c = true) ∧ ∀ c ∈ name, isNameChar c = true := by
  simp only [matchesDeviceEntry, Bool.and_eq_true, decide_eq_true_eq, Bool.not_eq_true',
    isEmpty_eq_false_iff, all_eq_true] at h
  obtain ⟨⟨⟨⟨hpos, -⟩, hspace⟩, hname⟩, hall⟩ := h
  refine ⟨stripped.takeWhile isDecimal, (stripped.dropWhile isDecimal).takeWhile isSpace,
    (stripped.dropWhile isDecimal).dropWhile isSpace, ?_, ?_, hspace, hname,
    fun c hc => mem_takeWhile_imp hc, fun c hc => mem_takeWhile_imp hc, hall⟩
  · rw [append_assoc, takeWhile_append_dropWhile, takeWhile_append_dropWhile]
  · exact ne_nil_of_length_pos hpos

/-- A dropped line strips to a header or to what the pattern matches. -/
theorem strip_of_shouldFilterLine {line : Text} (h : shouldFilterLine line = true) :
    strip line ∈ deviceSectionHeaders ∨ matchesDeviceEntry (strip line) = true := by
  unfold shouldFilterLine at h
  split at h
  · cases h
  · split at h
    · cases h
    · simp only at h
      split at h
      · cases h
      · split at h
        · rename_i hheader
          exact .inl (contains_iff_mem.mp hheader)
        · exact .inr h

/-- The two kinds of noise, by their characters. -/
theorem chars_of_shouldFilterLine {line : Text} (h : shouldFilterLine line = true) :
    (∀ c ∈ line, isSpace c = true ∨ c ∈ deviceSectionHeaders.flatten) ∨
      ∀ c ∈ line, isSpace c = true ∨ isDecimal c = true ∨ isNameChar c = true := by
  rcases strip_of_shouldFilterLine h with hheader | hentry
  · refine .inl fun c hc => ?_
    rcases mem_strip_or_isSpace hc with hmem | hspace
    · exact .inr (mem_flatten.mpr ⟨_, hheader, hmem⟩)
    · exact .inl hspace
  · obtain ⟨number, space, name, hsplit, -, -, -, hnumber, hspaces, hname⟩ :=
      matchesDeviceEntry_split hentry
    refine .inr fun c hc => ?_
    rcases mem_strip_or_isSpace hc with hmem | hspace
    · rw [hsplit, mem_append, mem_append] at hmem
      rcases hmem with (hmem | hmem) | hmem
      · exact .inr (.inl (hnumber c hmem))
      · exact .inl (hspaces c hmem)
      · exact .inr (.inr (hname c hmem))
    · exact .inl hspace

/-- A line with a replacement character is kept. -/
theorem not_shouldFilterLine_of_replacement {line : Text} (h : Utf8.replacement ∈ line) :
    shouldFilterLine line = false := by
  by_contra hnoise
  rcases chars_of_shouldFilterLine (Bool.not_eq_false _ ▸ hnoise) with hchars | hchars
  · exact absurd (hchars _ h) (by decide +kernel)
  · exact absurd (hchars _ h) (by decide +kernel)

/-- A line with a rank prefix is kept. -/
theorem not_shouldFilterLine_rankPrefix (width rank : Nat) (line : Text) :
    shouldFilterLine (rankPrefix width rank ++ line) = false := by
  by_contra hnoise
  rcases chars_of_shouldFilterLine (Bool.not_eq_false _ ▸ hnoise) with hchars | hchars
  · obtain ⟨digit, hdigit⟩ := exists_mem_of_ne_nil _ (Text.decimal_ne_nil rank)
    have hmem : digit ∈ rankPrefix width rank ++ line := by
      simp [rankPrefix, hdigit]
    have hplain : deviceSectionHeaders.flatten.all (fun c => !c.isDigit) = true := by decide
    have hisDigit := Text.isDigit_of_mem_decimal hdigit
    rcases hchars digit hmem with hspace | hheader
    · rw [isSpace_of_visible (visible_of_isDigit hisDigit)] at hspace
      cases hspace
    · have hnot := all_eq_true.mp hplain digit hheader
      rw [hisDigit] at hnot
      cases hnot
  · have hmem : ':' ∈ rankPrefix width rank ++ line := by
      simp [rankPrefix]
    exact absurd (hchars _ hmem) (by decide +kernel)

/-- A dropped line has two words. -/
theorem words_of_shouldFilterLine {line : Text} (h : shouldFilterLine line = true) :
    words line = 2 := by
  rw [← words_strip]
  rcases strip_of_shouldFilterLine h with hheader | hentry
  · exact words_header _ hheader
  · obtain ⟨number, space, name, hsplit, hnumber, hspace, hname, hdigits, hspaces, hchars⟩ :=
      matchesDeviceEntry_split hentry
    have hnumberWords : words number = 1 :=
      words_of_not_isSpace hnumber fun c hc => isSpace_of_isDecimal (hdigits c hc)
    have hnameWords : words name = 1 :=
      words_of_not_isSpace hname fun c hc => isSpace_of_visible (visible_of_isNameChar (hchars c hc))
    obtain ⟨last, hlast⟩ := getLast?_isSome.mpr hspace |> Option.isSome_iff_exists.mp
    have hends : (number ++ space).getLast? = some last := by
      rw [getLast?_append, hlast, Option.some_or]
    rw [hsplit, words_append hends (hspaces last (mem_of_getLast? hlast)), hnameWords, words,
      wordsAfter_append, wordsAfter_of_isSpace hspaces, Nat.add_zero, ← words, hnumberWords]

end ResiliencyExt.FaultTolerance.PerCycleLogs
