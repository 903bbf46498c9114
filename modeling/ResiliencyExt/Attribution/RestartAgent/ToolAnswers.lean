import ResiliencyExt.Attribution.RestartAgent.EvidenceObjects
import ResiliencyExt.Attribution.RestartAgent.LineAccess

set_option autoImplicit false

/-!
# Restart agent: log lines for the model

`read_window` and `overview` of `LogTools` in `l1/tools.py`.  Both answer with lines that follow
each other, up to a total of characters.  A line is cut to `TOOL_LINE_MAX_CHARS` by
`_line_payload`; the line with which the total is reached is cut to what is left of the total
instead, which can be more (`linesFaithful_iff`).
-/

namespace ResiliencyExt.Attribution.RestartAgent

open Foundation List
open Foundation.Json (chars)

/-! ## Lines of an answer -/

def toolLineMaxChars : Nat := 2000
def overviewHeadLines : Nat := 40
def overviewTailLines : Nat := 80
def overviewMaxChars : Nat := 12000
def readWindowMaxLines : Nat := 240
def readWindowMaxChars : Nat := 50000

/-- A line of an answer; the number of its characters is given when it is marked. -/
structure ToolLine where
  line : Nat
  text : List Char
  lineTruncated : Bool
  originalChars : Option Nat
  deriving DecidableEq, Repr

/-- `_line_payload` -/
def linePayload (item : Nat × List Char) : ToolLine where
  line := item.1
  text := item.2.take toolLineMaxChars
  lineTruncated := toolLineMaxChars < item.2.length
  originalChars := if toolLineMaxChars < item.2.length then some item.2.length else none

/-- `_line_payload_with_char_cap`, with `used` characters before the lines. -/
def linePayloadWithCharCap (maxChars : Nat) : Nat → List (Nat × List Char) → List ToolLine × Bool
  | _, [] => ([], false)
  | used, item :: items =>
    if maxChars < used + item.2.length then
      (if 0 < maxChars - used then [⟨item.1, item.2.take (maxChars - used), false, none⟩] else [],
        true)
    else
      let more := linePayloadWithCharCap maxChars (used + item.2.length) items
      (linePayload item :: more.1, more.2)

/-- `log_lines(start_line, end_line)` of a log. -/
def snapshotLines (log : List (List Char)) (startLine : Int) (endLine : Option Int) :
    List (Nat × List Char) :=
  let start := max 1 startLine
  let stop := (endLine.map (min (log.length : Int))).getD log.length
  numberFrom start.toNat ((log.drop (start.toNat - 1)).take (stop + 1 - start).toNat)

/-- An answer with lines, and its mark. -/
structure LinesAnswer where
  lines : List ToolLine
  truncated : Bool

/-- The lines that a window asks for. -/
def windowRange (bundle : EvidenceBundle) (centerLine before after : Int) : Int × Int :=
  let before := min (max before 0) 120
  let after := min (max after 0) 120
  let start := max 1 (centerLine - before)
  let stop := min (bundle.lineCount : Int) (centerLine + after)
  (start, if readWindowMaxLines < stop - start + 1 then start + readWindowMaxLines - 1 else stop)

/-- The lines of `read_window`. -/
def windowLines (bundle : EvidenceBundle) (log : List (List Char))
    (centerLine before after : Int) : List (Nat × List Char) :=
  let range := windowRange bundle centerLine before after
  snapshotLines log range.1 (some range.2)

/-- `read_window` -/
def readWindow (bundle : EvidenceBundle) (log : List (List Char))
    (centerLine before after : Int) : LinesAnswer :=
  let selected := linePayloadWithCharCap readWindowMaxChars 0
    (windowLines bundle log centerLine before after)
  let range := windowRange bundle centerLine before after
  { lines := selected.1
    truncated := range.2 < min (bundle.lineCount : Int) (centerLine + min (max after 0) 120) ||
      selected.2 }

/-- The lines that `overview` begins with. -/
def headLines (log : List (List Char)) : List (Nat × List Char) :=
  snapshotLines log 1 (some overviewHeadLines)

/-- The lines that `overview` ends with. -/
def tailLines (log : List (List Char)) : List (Nat × List Char) :=
  snapshotLines log (max 1 ((log.length : Int) - overviewTailLines + 1)) none

/-- The lines of `overview`: `head`, `tail` and `truncated`. -/
structure OverviewAnswer where
  head : List ToolLine
  tail : List ToolLine
  truncated : Bool

/-- `_build_overview`, without what it says about the bundle. -/
def overview (bundle : EvidenceBundle) (log : List (List Char)) : OverviewAnswer :=
  let head := linePayloadWithCharCap (overviewMaxChars / 2) 0 (headLines log)
  let tail := linePayloadWithCharCap (overviewMaxChars / 2) 0 (tailLines log)
  { head := head.1
    tail := tail.1
    truncated := 20 < bundle.registryMatches || head.2 || tail.2 }

/-! ## What an answer promises -/

/-- Lines that follow each other in the source, each of them a beginning of its source line
within the limit, and marked when it is not the whole line. -/
structure LinesFaithful (log : List (List Char)) (lines : List ToolLine) (truncated : Bool) :
    Prop where
  consecutive : ∃ first, lines.map ToolLine.line = range' first lines.length
  isPrefix : ∀ answer ∈ lines, ∃ source, 1 ≤ answer.line ∧ log[answer.line - 1]? = some source ∧
    answer.text <+: source ∧
    (answer.text ≠ source → answer.lineTruncated = true ∨ truncated = true)
  limited : ∀ answer ∈ lines, answer.text.length ≤ toolLineMaxChars

/-- The line with which the lines reach the total has no more of it left than a line may have. -/
def ShortCut (maxChars : Nat) : Nat → List (Nat × List Char) → Prop
  | _, [] => True
  | used, item :: items =>
    if maxChars < used + item.2.length then maxChars - used ≤ toolLineMaxChars
    else ShortCut maxChars (used + item.2.length) items

/-! ## Lines up to a total -/

variable (maxChars : Nat) (items : List (Nat × List Char)) (texts : List (List Char))

theorem map_line_prefix : ∀ used,
    (linePayloadWithCharCap maxChars used items).1.map ToolLine.line <+: items.map Prod.fst := by
  induction items with
  | nil => exact fun _ => prefix_refl _
  | cons item items ih =>
    intro used
    unfold linePayloadWithCharCap
    split
    · split
      · exact ⟨items.map Prod.fst, rfl⟩
      · exact nil_prefix
    · obtain ⟨left, hleft⟩ := ih (used + item.2.length)
      exact ⟨left, congrArg (item.1 :: ·) hleft⟩

/-- What a line of the answer keeps of a line that is asked for. -/
def Keeps (answer : ToolLine) (cut : Bool) (item : Nat × List Char) : Prop :=
  answer.line = item.1 ∧ answer.text <+: item.2 ∧
    (answer.text ≠ item.2 → answer.lineTruncated = true ∨ cut = true)

theorem keeps_linePayload (item : Nat × List Char) (cut : Bool) :
    Keeps (linePayload item) cut item := by
  refine ⟨rfl, take_prefix _ _, fun hcut => .inl (decide_eq_true ?_)⟩
  by_contra hshort
  exact hcut (take_of_length_le (Nat.le_of_not_lt hshort))

theorem exists_keeps : ∀ used,
    ∀ answer ∈ (linePayloadWithCharCap maxChars used items).1, ∃ item ∈ items,
      Keeps answer (linePayloadWithCharCap maxChars used items).2 item := by
  induction items with
  | nil => exact fun _ _ h => absurd h not_mem_nil
  | cons item items ih =>
    intro used answer h
    unfold linePayloadWithCharCap at h ⊢
    split at h
    · next hlong =>
      rw [if_pos hlong]
      split at h
      · rw [mem_singleton.mp h]
        exact ⟨item, mem_cons_self, rfl, take_prefix _ _, fun _ => .inr rfl⟩
      · cases h
    · next hshort =>
      rw [if_neg hshort]
      rcases mem_cons.mp h with rfl | h
      · exact ⟨item, mem_cons_self, keeps_linePayload item _⟩
      · obtain ⟨other, hother, hkeeps⟩ := ih (used + item.2.length) answer h
        exact ⟨other, mem_cons_of_mem item hother, hkeeps⟩

/-- The lines keep the limit of a line exactly when the last one is cut short enough. -/
theorem limited_iff : ∀ used,
    (∀ answer ∈ (linePayloadWithCharCap maxChars used items).1,
      answer.text.length ≤ toolLineMaxChars) ↔ ShortCut maxChars used items := by
  induction items with
  | nil => exact fun _ => ⟨fun _ => trivial, fun _ _ h => absurd h not_mem_nil⟩
  | cons item items ih =>
    intro used
    unfold linePayloadWithCharCap ShortCut
    split
    · next hlong =>
      split
      · have hlength : (item.2.take (maxChars - used)).length = maxChars - used := by
          rw [length_take]
          omega
        rw [forall_mem_singleton, hlength]
      · next hnone =>
        refine ⟨fun _ => ?_, fun _ _ h => absurd h not_mem_nil⟩
        omega
    · rw [forall_mem_cons, ih (used + item.2.length)]
      exact and_iff_right (length_take_le _ _)

/-! ## Lines of the log -/

/-- Lines that follow each other in the log. -/
structure Sourced (log : List (List Char)) (items : List (Nat × List Char)) : Prop where
  consecutive : ∃ first, items.map Prod.fst = range' first items.length
  source : ∀ item ∈ items, 1 ≤ item.1 ∧ log[item.1 - 1]? = some item.2

theorem map_fst_numberFrom : ∀ first,
    (numberFrom first texts).map Prod.fst = range' first texts.length := by
  induction texts with
  | nil => exact fun _ => rfl
  | cons text texts ih =>
    intro first
    rw [numberFrom, map_cons, ih, length_cons, range'_succ]

theorem length_numberFrom (first : Nat) : (numberFrom first texts).length = texts.length := by
  have hlengths := congrArg List.length (map_fst_numberFrom texts first)
  rwa [length_map, length_range'] at hlengths

theorem source_numberFrom : ∀ first, ∀ item ∈ numberFrom first texts,
    first ≤ item.1 ∧ texts[item.1 - first]? = some item.2 := by
  induction texts with
  | nil => exact fun _ _ h => absurd h not_mem_nil
  | cons text texts ih =>
    intro first item hitem
    rcases mem_cons.mp hitem with rfl | hitem
    · exact ⟨Nat.le_refl _, by simp⟩
    · obtain ⟨hfirst, htext⟩ := ih (first + 1) item hitem
      have hindex : item.1 - first = (item.1 - (first + 1)) + 1 := by omega
      refine ⟨Nat.le_of_succ_le hfirst, ?_⟩
      rw [hindex, getElem?_cons_succ, htext]

theorem sourced_snapshotLines (log : List (List Char)) (startLine : Int)
    (endLine : Option Int) : Sourced log (snapshotLines log startLine endLine) := by
  refine ⟨⟨_, (map_fst_numberFrom _ _).trans (by rw [snapshotLines, length_numberFrom])⟩, ?_⟩
  intro item hitem
  obtain ⟨hfirst, htext⟩ := source_numberFrom _ _ item hitem
  have hone : 1 ≤ (max 1 startLine).toNat := by omega
  refine ⟨Nat.le_trans hone hfirst, ?_⟩
  obtain ⟨hlt, hget⟩ := List.getElem?_eq_some_iff.mp htext
  rw [getElem?_take_of_lt (by rw [length_take] at hlt; omega), getElem?_drop] at htext
  rw [← htext]
  congr 1
  omega

theorem linesFaithful_iff {log : List (List Char)} {items : List (Nat × List Char)}
    (hitems : Sourced log items) (maxChars : Nat) {truncated : Bool}
    (hmark : (linePayloadWithCharCap maxChars 0 items).2 = true → truncated = true) :
    LinesFaithful log (linePayloadWithCharCap maxChars 0 items).1 truncated ↔
      ShortCut maxChars 0 items := by
  rw [← limited_iff]
  refine ⟨LinesFaithful.limited, fun hlimited => ⟨?_, ?_, hlimited⟩⟩
  · obtain ⟨first, hfirst⟩ := hitems.consecutive
    obtain ⟨left, hleft⟩ := map_line_prefix maxChars items 0
    rw [hfirst] at hleft
    obtain ⟨count, -, hlines, -⟩ := range'_eq_append_iff.mp hleft.symm
    have hlengths := congrArg List.length hlines
    rw [length_map, length_range'] at hlengths
    exact ⟨first, hlengths ▸ hlines⟩
  · intro answer hanswer
    obtain ⟨item, hitem, hline, hprefix, hcut⟩ := exists_keeps maxChars items 0 answer hanswer
    obtain ⟨hpos, hsource⟩ := hitems.source item hitem
    refine ⟨item.2, hline ▸ hpos, hline ▸ hsource, hprefix, fun hne => ?_⟩
    exact (hcut hne).imp_right hmark

/-! ## The answers of the tools -/

/-- The answers of the three tools are bounded, faithful and marked when they are cut. -/
structure ToolsFaithful (bundle : EvidenceBundle) (log refs : List (List Char))
    (centerLine before after : Int) : Prop where
  bounded : chars (evidenceAnswer bundle refs) ≤ evidenceObjectsMaxChars
  reported : ∀ ref ∈ refs.take evidenceObjectsMaxRefs, ref.length ≤ evidenceObjectRefMaxChars →
    (resolveRefs bundle (requestRefs refs)).reported.count ref = 1
  evidence : ∀ object ∈ (resolveRefs bundle (requestRefs refs)).objects, IsEvidence bundle object
  window : LinesFaithful log (readWindow bundle log centerLine before after).lines
    (readWindow bundle log centerLine before after).truncated
  head : LinesFaithful log (overview bundle log).head (overview bundle log).truncated
  tail : LinesFaithful log (overview bundle log).tail (overview bundle log).truncated

end ResiliencyExt.Attribution.RestartAgent
