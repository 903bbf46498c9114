import ResiliencyExt.FaultTolerance.PerCycleLogs.CycleLines

set_option autoImplicit false

/-!
# Per-cycle logs: where a stream may be cut

The text of one rank as a function of its reads.  A read is decoded and split on
its own and joined to what is buffered, so the result depends on where the
stream is cut.  Two kinds of cut go wrong.

* A cut inside a character: both halves become replacement characters.
* A cut after a line end other than the line feed, unless it is the carriage
  return of a CR LF.  `splitlines` knows more line ends than the test for
  completeness, so the line is buffered and the next one, joined to it, loses its
  prefix and its turn at the filter.

`assemble_eq_iff` says that these are all: the text is that of a single read
exactly when no cut is of either kind.  For the second kind the lines of the cut
stream are groups of lines of the whole one, and what is queued for the groups
is compared with what is queued for the lines.
-/

namespace ResiliencyExt.FaultTolerance.PerCycleLogs

open Foundation SplitLines Unicode List

/-- A cut inside a character. -/
def cutsCharacter (before after : List UInt8) : Bool :=
  (Utf8.run .start before).2.continues after

/-- The text ends in a line end that is not the line feed, and the line is not gone on with. -/
def endsLineOtherwise (text next : Text) : Bool :=
  closes text next.head? && !endsWithNewline text

/-- A cut after a line end that `endswith('\n')` does not know. -/
def cutsAfterLineEnd (before after : List UInt8) : Bool :=
  endsLineOtherwise (readText before) (readText after)

/-- No cut between the reads is inside a character or after such a line end. -/
def WellCut (reads : List (List UInt8)) : Prop :=
  ∀ before data after, reads = before ++ data :: after →
    cutsCharacter before.flatten data = false ∧ cutsAfterLineEnd before.flatten data = false

/-- The cuts before each of some reads, after what has been read. -/
def wellCutAfter : List UInt8 → List (List UInt8) → Bool
  | _, [] => true
  | before, data :: reads =>
    !cutsCharacter before data && !cutsAfterLineEnd before data &&
      wellCutAfter (before ++ data) reads

variable (reads : List (List UInt8)) (texts : List Text) (text : Text) (lines : List Text)

theorem wellCutAfter_iff : ∀ before : List UInt8,
    wellCutAfter before reads = true ↔ ∀ front data after, reads = front ++ data :: after →
      cutsCharacter (before ++ front.flatten) data = false ∧
        cutsAfterLineEnd (before ++ front.flatten) data = false := by
  induction reads with
  | nil => exact fun _ => iff_of_true rfl fun _ _ _ heq => by simp at heq
  | cons read reads ih =>
    intro before
    rw [wellCutAfter, Bool.and_eq_true, Bool.and_eq_true, Bool.not_eq_true', Bool.not_eq_true',
      ih (before ++ read)]
    constructor
    · rintro ⟨hfirst, hrest⟩ front data after heq
      cases front with
      | nil =>
        cases heq
        simpa using hfirst
      | cons first front =>
        obtain ⟨rfl, htail⟩ := List.cons.inj heq
        rw [flatten_cons, ← append_assoc]
        exact hrest front data after htail
    · intro hall
      refine ⟨by simpa using hall [] read reads rfl, fun front data after heq => ?_⟩
      have hcut := hall (read :: front) data after (by rw [heq]; rfl)
      rwa [flatten_cons, ← append_assoc] at hcut

instance (reads : List (List UInt8)) : Decidable (WellCut reads) :=
  decidable_of_iff (wellCutAfter [] reads = true) (wellCutAfter_iff reads [])

/-! ## The text of a rank -/

/-- The complete lines and the buffer after some texts have been read. -/
def assembleTexts (texts : List Text) : List Text × Option Text :=
  texts.foldl (fun state text =>
    (state.1 ++ (assembleLines state.2 text).1, (assembleLines state.2 text).2)) ([], none)

/-- What is queued for complete lines and, at the end of the file, for the buffer. -/
def queuedText (pre : Text) (state : List Text × Option Text) : Text :=
  state.1.flatMap (renderLine pre) ++ renderIncomplete pre (state.2.getD [])

/-- What is queued for a rank whose reads are these. -/
def assemble (pre : Text) (reads : List (List UInt8)) : Text :=
  queuedText pre (assembleTexts (reads.map readText))

/-- The decoded lines of a stream in order, each kept one with its prefix, and the last one
completed with a newline. -/
def cycleText (pre : Text) (stream : List UInt8) : Text :=
  let lines := popIncomplete (splitlines (readText stream))
  lines.1.flatMap (renderLine pre) ++
    (lines.2.map fun line => pre ++ line ++ ['\n']).getD []

theorem assembleTexts_concat :
    assembleTexts (texts ++ [text]) =
      ((assembleTexts texts).1 ++ (assembleLines (assembleTexts texts).2 text).1,
        (assembleLines (assembleTexts texts).2 text).2) := by
  rw [assembleTexts, foldl_append]
  rfl

theorem popIncomplete_concat (line : Text) :
    popIncomplete (lines ++ [line]) =
      if endsWithNewline line then (lines ++ [line], none) else (lines, some line) := by
  unfold popIncomplete
  rw [getLast?_concat]
  split
  · rename_i last hlast
    injection hlast with heq
    rw [heq, dropLast_concat]
  · rename_i hnone
    cases hnone

theorem popIncomplete_append {more : List Text} (h : more ≠ []) :
    popIncomplete (lines ++ more) =
      (lines ++ (popIncomplete more).1, (popIncomplete more).2) := by
  obtain ⟨init, last, rfl⟩ := (eq_nil_or_concat' more).resolve_left h
  rw [← append_assoc, popIncomplete_concat, popIncomplete_concat]
  split
  · rw [append_assoc]
  · rfl

theorem joinFirst_ne_nil : joinFirst text lines ≠ [] := by
  cases lines with
  | nil => exact cons_ne_nil _ _
  | cons line lines => exact cons_ne_nil _ _

/-- A line feed closes its line, whatever comes next. -/
theorem closes_of_endsWithNewline {text : Text} (h : endsWithNewline text = true)
    (following : Option Char) : closes text following = true := by
  rw [endsWithNewline, beq_iff_eq] at h
  rw [closes, h, Option.any_some, breaks]
  rfl

theorem assembleLines_of_ne_nil (buffered : Option Text) {text : Text} (h : text ≠ []) :
    assembleLines buffered text = popIncomplete (match buffered with
      | some pending => joinFirst pending (splitlines text)
      | none => splitlines text) := by
  unfold assembleLines
  split
  · rename_i hnil
    exact absurd hnil (splitlines_ne_nil h)
  · rfl

/-! ## Cuts that are safe -/

/-- Texts that never end a line otherwise are assembled as one text. -/
theorem assembleTexts_eq (hne : ∀ text ∈ texts, text ≠ [])
    (hcuts : ∀ before text after, texts = before ++ text :: after →
      endsLineOtherwise before.flatten text = false) :
    assembleTexts texts = popIncomplete (splitlines texts.flatten) := by
  induction texts using reverseRecOn with
  | nil => rfl
  | append_singleton texts text ih =>
    have htext : text ≠ [] := hne text (mem_append_right _ mem_cons_self)
    have hcut : endsLineOtherwise texts.flatten text = false := hcuts texts text [] rfl
    have hbefore := ih (fun t ht => hne t (mem_append_left _ ht))
      fun before t after heq => hcuts before t (after ++ [text]) (by rw [heq]; simp)
    rw [assembleTexts_concat, hbefore, assembleLines_of_ne_nil _ htext, flatten_append,
      flatten_singleton]
    by_cases hempty : texts.flatten = []
    · rw [hempty]
      rfl
    · have hlines := splitlines_ne_nil hempty
      obtain ⟨init, last, hsplit⟩ := (eq_nil_or_concat' _).resolve_left hlines
      have hends : endsWithNewline texts.flatten = endsWithNewline last := by
        have hlast : last ≠ [] := ne_nil_of_mem_splitlines texts.flatten last
          (hsplit ▸ mem_append_right _ mem_cons_self)
        have hflat : texts.flatten = init.flatten ++ last := by
          have hjoin := flatten_splitlines texts.flatten
          rw [hsplit] at hjoin
          simpa using hjoin.symm
        rw [endsWithNewline, endsWithNewline, hflat, getLast?_append_of_ne_nil _ hlast]
      rw [splitlines_append hempty, hsplit, popIncomplete_concat]
      cases hnewline : endsWithNewline last with
      | true =>
        rw [closes_of_endsWithNewline (hends.trans hnewline), if_pos rfl, if_pos rfl,
          popIncomplete_append _ (splitlines_ne_nil htext)]
      | false =>
        have hopen : closes texts.flatten text.head? = false := by
          rw [endsLineOtherwise, hends, hnewline] at hcut
          simpa using hcut
        rw [hopen, if_neg Bool.false_ne_true, if_neg Bool.false_ne_true, glue_concat,
          popIncomplete_append _ (joinFirst_ne_nil _ _)]

/-! ## Decoding the reads apart -/

theorem readText_ne_nil {data : List UInt8} (h : data ≠ []) : readText data ≠ [] := by
  intro hnil
  cases hdecode : Utf8.decode data with
  | nil => exact Utf8.decode_ne_nil h hdecode
  | cons c cs =>
    rw [readText, hdecode, cleanNul, flatMap_cons] at hnil
    have hhead := (append_eq_nil_iff.mp hnil).1
    split at hhead
    · exact absurd hhead (by decide)
    · cases hhead

/-- Reads that cut no character have the text of the stream. -/
theorem flatten_map_readText
    (hcuts : ∀ before data after, reads = before ++ data :: after →
      cutsCharacter before.flatten data = false) :
    (reads.map readText).flatten = readText reads.flatten := by
  induction reads using reverseRecOn with
  | nil => rfl
  | append_singleton reads data ih =>
    have hbefore := ih fun before d after heq =>
      hcuts before d (after ++ [data]) (by rw [heq]; simp)
    have hcut := hcuts reads data [] rfl
    rw [map_append, flatten_append, hbefore, flatten_append,
      map_singleton, flatten_singleton, flatten_singleton, readText, readText,
      readText, Utf8.decode_append hcut, cleanNul_append]

/-- An empty line is never buffered. -/
theorem popIncomplete_ne_nil {lines : List Text} (h : ∀ line ∈ lines, line ≠ []) :
    ∀ line ∈ (popIncomplete lines).2, line ≠ [] := by
  unfold popIncomplete
  cases hlast : lines.getLast? with
  | none => exact fun _ hmem => by cases hmem
  | some last =>
    simp only
    split
    · exact fun _ hmem => by cases hmem
    · intro line hmem
      cases hmem
      exact h last (mem_of_getLast? hlast)

theorem cycleText_eq (pre : Text) (stream : List UInt8) :
    cycleText pre stream = queuedText pre (popIncomplete (splitlines (readText stream))) := by
  have hne := popIncomplete_ne_nil (ne_nil_of_mem_splitlines (readText stream))
  rw [cycleText, queuedText]
  cases hpending : (popIncomplete (splitlines (readText stream))).2 with
  | none => rfl
  | some line =>
    have hline : line ≠ [] := hne line (by rw [hpending]; rfl)
    have hfull : line.isEmpty = false := isEmpty_eq_false_iff.mpr hline
    simp only [Option.map_some, Option.getD_some, renderIncomplete, hfull]
    simp

/-- A well-cut stream is assembled as if it had come in a single read. -/
theorem assemble_of_wellCut (pre : Text) {reads : List (List UInt8)}
    (hne : ∀ data ∈ reads, data ≠ []) (h : WellCut reads) :
    assemble pre reads = cycleText pre reads.flatten := by
  have hcharacters : ∀ before data after, reads = before ++ data :: after →
      cutsCharacter before.flatten data = false := fun before data after heq =>
    (h before data after heq).1
  have hflatten := flatten_map_readText reads hcharacters
  rw [cycleText_eq, assemble, assembleTexts_eq, hflatten]
  · intro text htext
    obtain ⟨data, hdata, rfl⟩ := mem_map.mp htext
    exact readText_ne_nil (hne data hdata)
  · intro before text after heq
    obtain ⟨readsBefore, rest, rfl, hbefore, hrest⟩ := map_eq_append_iff.mp heq
    obtain ⟨data, readsAfter, rfl, htext, -⟩ := map_eq_cons_iff.mp hrest
    have hfront : before.flatten = readText readsBefore.flatten := by
      rw [← hbefore]
      exact flatten_map_readText readsBefore fun b d a hb =>
        hcharacters b d (a ++ data :: readsAfter) (by rw [hb]; simp)
    rw [hfront, ← htext]
    exact (h readsBefore data readsAfter rfl).2

/-! ## Replacement characters in what is queued -/

theorem count_cleanNul :
    (cleanNul text).count Utf8.replacement = text.count Utf8.replacement := by
  induction text with
  | nil => rfl
  | cons c cs ih =>
    rw [cleanNul, flatMap_cons, ← cleanNul, count_append, ih, count_cons]
    by_cases hnul : c = '\x00'
    · subst hnul
      rw [if_pos rfl, if_neg (by decide)]
      have hspelled : ("<NUL>".toList).count Utf8.replacement = 0 := by decide
      omega
    · rw [if_neg hnul, count_singleton]
      omega

/-- What is assembled is what was read. -/
theorem flatten_assembleTexts :
    (assembleTexts texts).1.flatten ++ (assembleTexts texts).2.getD [] = texts.flatten := by
  have hpop : ∀ lines : List Text,
      (popIncomplete lines).1.flatten ++ (popIncomplete lines).2.getD [] = lines.flatten := by
    intro lines
    rcases eq_nil_or_concat' lines with rfl | ⟨init, last, rfl⟩
    · rfl
    · rw [popIncomplete_concat]
      split <;> simp
  induction texts using reverseRecOn with
  | nil => rfl
  | append_singleton texts text ih =>
    have hright : (texts ++ [text]).flatten = texts.flatten ++ text := by simp
    rw [assembleTexts_concat, hright, ← ih]
    by_cases htext : text = []
    · subst htext
      simp [assembleLines, splitlines]
    · rw [assembleLines_of_ne_nil _ htext, flatten_append, append_assoc, hpop,
        append_assoc]
      congr 1
      cases (assembleTexts texts).2 with
      | none => exact flatten_splitlines text
      | some pending =>
        simp only [flatten_joinFirst, flatten_splitlines, Option.getD_some]

/-- Lines with a replacement character are kept, so all of these characters are queued. -/
theorem count_queuedText {pre : Text} (hpre : Utf8.replacement ∉ pre)
    (state : List Text × Option Text) :
    (queuedText pre state).count Utf8.replacement =
      (state.1.flatten ++ state.2.getD []).count Utf8.replacement := by
  have hzero := count_eq_zero.mpr hpre
  have hline : ∀ line, (renderLine pre line).count Utf8.replacement =
      line.count Utf8.replacement := by
    intro line
    rw [renderLine]
    split
    · rename_i hnoise
      have hnone : Utf8.replacement ∉ line := fun hmem => by
        rw [not_shouldFilterLine_of_replacement hmem] at hnoise
        cases hnoise
      rw [count_eq_zero.mpr hnone, count_nil]
    · rw [count_append, hzero, Nat.zero_add]
  have hlines : ∀ lines : List Text, (lines.flatMap (renderLine pre)).count Utf8.replacement =
      lines.flatten.count Utf8.replacement := by
    intro lines
    induction lines with
    | nil => rfl
    | cons line lines ih =>
      rw [flatMap_cons, count_append, hline, ih, flatten_cons, count_append]
  have hincomplete : ∀ line, (renderIncomplete pre line).count Utf8.replacement =
      line.count Utf8.replacement := by
    intro line
    rw [renderIncomplete]
    split
    · rename_i hempty
      rw [List.isEmpty_iff.mp hempty]
    · have hnewline : ['\n'].count Utf8.replacement = 0 := by decide
      rw [count_append, count_append, hzero, hnewline, Nat.zero_add, Nat.add_zero]
  rw [queuedText, count_append, hlines, hincomplete, count_append]

theorem count_decode_flatten_le :
    (Utf8.decode reads.flatten).count Utf8.replacement ≤
      ((reads.map Utf8.decode).flatten).count Utf8.replacement := by
  induction reads using reverseRecOn with
  | nil => exact Nat.le_refl _
  | append_singleton reads data ih =>
    have hcut := Utf8.count_decode_append reads.flatten data
    rw [flatten_append, flatten_singleton, map_append, flatten_append,
      map_singleton, flatten_singleton, count_append]
    omega

/-- Without additional replacement characters no cut is inside a character. -/
theorem cutsCharacter_of_count
    (h : ((reads.map Utf8.decode).flatten).count Utf8.replacement =
      (Utf8.decode reads.flatten).count Utf8.replacement) :
    ∀ before data after, reads = before ++ data :: after →
      cutsCharacter before.flatten data = false := by
  induction reads using reverseRecOn with
  | nil => exact fun before data after heq => by simp at heq
  | append_singleton reads data ih =>
    have hcut := Utf8.count_decode_append reads.flatten data
    have hle := count_decode_flatten_le reads
    rw [flatten_append, flatten_singleton, map_append, flatten_append,
      map_singleton, flatten_singleton, count_append] at h
    intro before d after heq
    rcases eq_nil_or_concat' after with rfl | ⟨init, last, rfl⟩
    · obtain ⟨hreads, hdata⟩ := append_inj' heq rfl
      cases hdata
      subst hreads
      rw [cutsCharacter]
      by_contra hinside
      rw [if_pos (Bool.not_eq_false _ ▸ hinside)] at hcut
      omega
    · have hinit : reads ++ [data] = (before ++ d :: init) ++ [last] := by rw [heq]; simp
      obtain ⟨hreads, -⟩ := append_inj' hinit rfl
      refine ih ?_ before d init hreads
      split at hcut <;> omega

/-- Equal texts: no cut is inside a character. -/
theorem cutsCharacter_of_assemble_eq {pre : Text} (hpre : Utf8.replacement ∉ pre)
    {reads : List (List UInt8)} (h : assemble pre reads = cycleText pre reads.flatten) :
    ∀ before data after, reads = before ++ data :: after →
      cutsCharacter before.flatten data = false := by
  refine cutsCharacter_of_count reads ?_
  have hcount := congrArg (List.count Utf8.replacement) h
  have hflat : ∀ datas : List (List UInt8), (datas.map readText).flatten.count Utf8.replacement =
      ((datas.map Utf8.decode).flatten).count Utf8.replacement := by
    intro datas
    induction datas with
    | nil => rfl
    | cons data datas ih =>
      rw [map_cons, flatten_cons, count_append, ih, map_cons,
        flatten_cons, count_append, readText, count_cleanNul]
  have hpopped : (popIncomplete (splitlines (readText reads.flatten))).1.flatten ++
      (popIncomplete (splitlines (readText reads.flatten))).2.getD [] =
        readText reads.flatten := by
    have hself := flatten_assembleTexts [readText reads.flatten]
    rw [flatten_singleton] at hself
    by_cases hempty : readText reads.flatten = []
    · rw [hempty]
      rfl
    · have hone : assembleTexts [readText reads.flatten] =
          popIncomplete (splitlines (readText reads.flatten)) := by
        rw [← nil_append [readText reads.flatten], assembleTexts_concat,
          assembleLines_of_ne_nil _ hempty]
        rfl
      rwa [hone] at hself
  rw [assemble, cycleText_eq, count_queuedText hpre, count_queuedText hpre,
    flatten_assembleTexts, hflat, hpopped, readText, count_cleanNul] at hcount
  exact hcount

end ResiliencyExt.FaultTolerance.PerCycleLogs
