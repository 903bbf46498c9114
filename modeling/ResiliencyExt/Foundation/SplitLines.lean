import Mathlib.Data.List.Chain

set_option autoImplicit false

/-!
# Foundation: splitting text into lines

`text.splitlines(keepends=True)`, which ends a line at every character that
Unicode or ASCII has for it and takes a carriage return with the line feed after
it as one end.

A text that comes in pieces is split as a whole by splitting the pieces and
gluing the last line of one to the first of the next, exactly when the piece
does not close its last line (`splitlines_append`).  Lines that are each one
line and close before the next read back as themselves (`splitlines_flatten`),
so a list of such lines is determined by its text.
-/

namespace ResiliencyExt.Foundation.SplitLines

open List

/-- The characters that end a line for `str.splitlines`. -/
def isLineEnd (c : Char) : Bool :=
  [0x0A, 0x0B, 0x0C, 0x0D, 0x1C, 0x1D, 0x1E, 0x85, 0x2028, 0x2029].contains c.toNat

/-- The line ends between a character and the next one: not within CR LF. -/
def breaks (c : Char) (following : Option Char) : Bool :=
  isLineEnd c && !(c == '\r' && following == some '\n')

/-- Text put in front of the first of some lines. -/
def joinFirst (text : List Char) : List (List Char) → List (List Char)
  | [] => [text]
  | line :: lines => (text ++ line) :: lines

/-- `text.splitlines(keepends=True)` -/
def splitlines : List Char → List (List Char)
  | [] => []
  | c :: cs =>
    if breaks c cs.head? then [c] :: splitlines cs else joinFirst [c] (splitlines cs)

example : splitlines "a\r\nb\rc".toList = ["a\r\n".toList, "b\r".toList, "c".toList] := by
  decide

/-- The last line of the text is at its end when `following` comes next. -/
def closes (text : List Char) (following : Option Char) : Bool :=
  text.getLast?.any fun c => breaks c following

/-- Lines with more lines, the first of which goes on with the last of them. -/
def glue : List (List Char) → List (List Char) → List (List Char)
  | [], more => more
  | [line], more => joinFirst line more
  | line :: second :: lines, more => line :: glue (second :: lines) more

/-! ## The lines of a text -/

variable {lines : List (List Char)} (text : List Char)

theorem splitlines_singleton (c : Char) : splitlines [c] = [[c]] := by
  rw [splitlines]
  split <;> rfl

theorem flatten_joinFirst (lines : List (List Char)) :
    (joinFirst text lines).flatten = text ++ lines.flatten := by
  cases lines with
  | nil => simp [joinFirst]
  | cons line lines => simp [joinFirst]

/-- The lines make up the text. -/
theorem flatten_splitlines : (splitlines text).flatten = text := by
  induction text with
  | nil => rfl
  | cons c cs ih =>
    rw [splitlines]
    split
    · rw [flatten_cons, ih]
      rfl
    · rw [flatten_joinFirst, ih]
      rfl

theorem ne_nil_of_mem_joinFirst {text : List Char} (htext : text ≠ [])
    (hlines : ∀ line ∈ lines, line ≠ []) : ∀ line ∈ joinFirst text lines, line ≠ [] := by
  cases lines with
  | nil =>
    intro line hmem
    exact mem_singleton.mp hmem ▸ htext
  | cons first rest =>
    intro line hmem
    rcases mem_cons.mp hmem with rfl | hmem
    · exact append_ne_nil_of_left_ne_nil htext first
    · exact hlines line (mem_cons_of_mem first hmem)

theorem ne_nil_of_mem_splitlines : ∀ line ∈ splitlines text, line ≠ [] := by
  induction text with
  | nil => exact fun _ hmem => absurd hmem not_mem_nil
  | cons c cs ih =>
    rw [splitlines]
    split
    · intro line hmem
      rcases mem_cons.mp hmem with rfl | hmem
      · exact cons_ne_nil c []
      · exact ih line hmem
    · exact ne_nil_of_mem_joinFirst (cons_ne_nil c []) ih

theorem splitlines_ne_nil {text : List Char} (h : text ≠ []) : splitlines text ≠ [] := by
  intro hnil
  have hflat := flatten_splitlines text
  rw [hnil] at hflat
  exact h hflat.symm

/-- The first line begins where the text does. -/
theorem head?_of_splitlines {text line : List Char} (h : splitlines text = line :: lines) :
    line.head? = text.head? := by
  have hne : line ≠ [] :=
    ne_nil_of_mem_splitlines text line (h ▸ mem_cons_self)
  rw [← flatten_splitlines text, h, flatten_cons]
  exact (head?_append_of_ne_nil line hne).symm

/-! ## Pieces of a text -/

theorem closes_cons {c : Char} {cs : List Char} (following : Option Char) (h : cs ≠ []) :
    closes (c :: cs) following = closes cs following := by
  rw [closes, closes, getLast?_cons_of_ne_nil h]

theorem closes_singleton (c : Char) (following : Option Char) :
    closes [c] following = breaks c following := rfl

theorem glue_joinFirst (h : lines ≠ []) (more : List (List Char)) :
    glue (joinFirst text lines) more = joinFirst text (glue lines more) := by
  match lines, h with
  | [line], _ =>
    cases more with
    | nil => rfl
    | cons first rest => simp [joinFirst, glue]
  | line :: second :: rest, _ => simp [joinFirst, glue]

theorem joinFirst_append (h : lines ≠ []) (more : List (List Char)) :
    joinFirst text lines ++ more = joinFirst text (lines ++ more) := by
  cases lines with
  | nil => exact absurd rfl h
  | cons line lines => rfl

/-- A text in two pieces: the lines are the lines of the pieces when the first piece closes its
last line, and otherwise that line goes on. -/
theorem splitlines_append {text : List Char} (htext : text ≠ []) (more : List Char) :
    splitlines (text ++ more) =
      if closes text more.head? then splitlines text ++ splitlines more
      else glue (splitlines text) (splitlines more) := by
  induction text with
  | nil => exact absurd rfl htext
  | cons c cs ih =>
    by_cases hcs : cs = []
    · subst hcs
      rw [splitlines_singleton, closes_singleton, singleton_append, splitlines]
      split <;> rfl
    · have hhead : (cs ++ more).head? = cs.head? := head?_append_of_ne_nil cs hcs
      have hlines := splitlines_ne_nil hcs
      rw [closes_cons _ hcs, cons_append, splitlines, splitlines, hhead, ih hcs]
      by_cases hbreaks : breaks c cs.head? = true
      · rw [if_pos hbreaks, if_pos hbreaks]
        split
        · rfl
        · cases hsplit : splitlines cs with
          | nil => exact absurd hsplit hlines
          | cons line lines => rfl
      · rw [if_neg hbreaks, if_neg hbreaks]
        split
        · rw [joinFirst_append _ hlines]
        · rw [glue_joinFirst _ hlines]

/-- Lines glued to lines, by the last of the first ones. -/
theorem glue_concat (lines : List (List Char)) (line : List Char) (more : List (List Char)) :
    glue (lines ++ [line]) more = lines ++ joinFirst line more := by
  induction lines with
  | nil => rfl
  | cons first rest ih =>
    cases rest with
    | nil => rfl
    | cons second rest => exact congrArg (first :: ·) ih

/-! ## Lines that read back -/

/-- Every line is one line, and closes before the next. -/
structure Separate (lines : List (List Char)) : Prop where
  single : ∀ line ∈ lines, splitlines line = [line]
  chain : lines.IsChain fun line following => closes line following.head? = true

/-- A text without line ends in front of a line is a part of it. -/
theorem splitlines_append_of_plain {text line : List Char} (htext : ∀ c ∈ text, isLineEnd c = false)
    (hline : splitlines line = [line]) : splitlines (text ++ line) = [text ++ line] := by
  induction text with
  | nil => exact hline
  | cons c cs ih =>
    have hbreaks : breaks c (cs ++ line).head? = false := by
      rw [breaks, htext c mem_cons_self, Bool.false_and]
    rw [cons_append, splitlines, if_neg (Bool.eq_false_iff.mp hbreaks),
      ih fun d hd => htext d (mem_cons_of_mem c hd)]
    rfl

/-- The lines of a text read back. -/
theorem separate_splitlines : Separate (splitlines text) := by
  induction text with
  | nil => exact ⟨fun _ hmem => absurd hmem not_mem_nil, .nil⟩
  | cons c cs ih =>
    rw [splitlines]
    cases hsplit : splitlines cs with
    | nil =>
      have hone : ∀ line ∈ [[c]], splitlines line = [line] := by
        intro line hmem
        rw [mem_singleton.mp hmem]
        exact splitlines_singleton c
      split
      · exact ⟨hone, .singleton _⟩
      · exact ⟨hone, .singleton _⟩
    | cons line lines =>
      rw [hsplit] at ih
      have hhead := head?_of_splitlines hsplit
      have hne : line ≠ [] :=
        ne_nil_of_mem_splitlines cs line (hsplit ▸ mem_cons_self)
      split
      · rename_i hbreaks
        refine ⟨fun l hl => ?_, isChain_cons_cons.mpr ⟨?_, ih.chain⟩⟩
        · rcases mem_cons.mp hl with rfl | hl
          · exact splitlines_singleton c
          · exact ih.single l hl
        · rw [closes_singleton, hhead]
          exact hbreaks
      · rename_i hbreaks
        refine ⟨fun l hl => ?_, ?_⟩
        · rcases mem_cons.mp hl with rfl | hl
          · have hself := ih.single line mem_cons_self
            rw [singleton_append, splitlines, hhead, if_neg hbreaks, hself]
            rfl
          · exact ih.single l (mem_cons_of_mem line hl)
        · cases lines with
          | nil => exact .singleton _
          | cons second rest =>
            obtain ⟨hclose, hrest⟩ := isChain_cons_cons.mp ih.chain
            refine isChain_cons_cons.mpr ⟨?_, hrest⟩
            rw [singleton_append, closes_cons _ hne]
            exact hclose

/-- Separate lines are the lines of their text. -/
theorem splitlines_flatten (h : Separate lines) : splitlines lines.flatten = lines := by
  induction lines with
  | nil => rfl
  | cons line lines ih =>
    have hself := h.single line mem_cons_self
    have hne : line ≠ [] := fun hnil => by
      rw [hnil] at hself
      cases hself
    have hrest : Separate lines :=
      ⟨fun l hl => h.single l (mem_cons_of_mem line hl), h.chain.tail⟩
    cases lines with
    | nil => simpa using hself
    | cons second rest =>
      have hsecond : second ≠ [] := fun hnil => by
        have hself := hrest.single second mem_cons_self
        rw [hnil] at hself
        cases hself
      have hclose := (isChain_cons_cons.mp h.chain).1
      have hhead : (second :: rest).flatten.head? = second.head? := by
        rw [flatten_cons]
        exact head?_append_of_ne_nil second hsecond
      rw [flatten_cons, splitlines_append hne, hhead, if_pos hclose, hself, ih hrest]
      rfl

end ResiliencyExt.Foundation.SplitLines
