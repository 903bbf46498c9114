import ResiliencyExt.Foundation.Dict

set_option autoImplicit false

/-!
# Restart agent: the text that the model has seen

`l2/grounding.py`.  The payloads that went to the model are dictionaries in which a field of a
line number stands beside the fields of the text of that line.  `Shows` says what such a payload
shows, and `model_visible_line_texts` collects exactly this (`mem_textsOf_modelVisible`).
-/

namespace ResiliencyExt.Attribution.RestartAgent

open Foundation List

abbrev LineText : Type :=
  List Char

/-- A value of a payload; `other` is none of an integer, a text, a list and a mapping. -/
inductive Payload where
  | int (value : Int)
  | str (text : LineText)
  | list (items : List Payload)
  | dict (entries : List (LineText × Payload))
  | other

/-- `_is_line_field` of a field with an integer value. -/
def isLineField (field : LineText) (line : Int) : Bool :=
  (field = "line".toList || "_line".toList.isSuffixOf field) && 0 < line

/-- `_paired_text_fields` -/
def pairedTextFields (lineField : LineText) : List LineText :=
  if lineField = "line".toList then ["text".toList, "quote".toList]
  else
    let stem := lineField.take (lineField.length - "_line".toList.length)
    let fields := [stem ++ "_text".toList, stem ++ "_quote".toList]
    if lineField = "first_line".toList then fields ++ ["representative_quote".toList] else fields

/-- The texts of each line. -/
abbrev LineTexts : Type :=
  Dict Int (List LineText)

/-- The texts of one line. -/
def textsOf (visible : LineTexts) (line : Int) : List LineText :=
  (visible.get? line).getD []

/-- `result.setdefault(line, set()).add(text)` -/
def addText (result : LineTexts) (line : Int) (text : LineText) : LineTexts :=
  result.set line ((textsOf result line).insert text)

/-- The texts of one field of a mapping. -/
def collectField (entries : List (LineText × Payload)) (result : LineTexts)
    (field : LineText × Payload) : LineTexts :=
  match field.2 with
  | .int line =>
    if isLineField field.1 line then
      (pairedTextFields field.1).foldl (fun result textField =>
        match entries.lookup textField with
        | some (.str text) => if text ≠ [] then addText result line text else result
        | _ => result) result
    else result
  | _ => result

mutual

/-- `_collect_line_texts` -/
def collectLineTexts : Payload → LineTexts → LineTexts
  | .dict entries, result => collectValues entries (entries.foldl (collectField entries) result)
  | .list items, result => collectItems items result
  | _, result => result

def collectValues : List (LineText × Payload) → LineTexts → LineTexts
  | [], result => result
  | (_, value) :: entries, result => collectValues entries (collectLineTexts value result)

def collectItems : List Payload → LineTexts → LineTexts
  | [], result => result
  | item :: items, result => collectItems items (collectLineTexts item result)

end

/-- An event of the transcript that says what the model was shown. -/
inductive TranscriptEvent where
  | bundleSnapshot (modelVisiblePayload : Payload)
  | toolResult (result : Payload)
  | other

/-- `isinstance(value, Mapping)` -/
def Payload.isMapping : Payload → Bool
  | .dict _ => true
  | _ => false

/-- The loop of `model_visible_line_texts`, with `saw_model_payload`. -/
def visibleStep (state : LineTexts × Bool) : TranscriptEvent → LineTexts × Bool
  | .bundleSnapshot payload =>
    if payload.isMapping then (collectLineTexts payload state.1, true) else state
  | .toolResult result => (collectLineTexts result state.1, state.2)
  | .other => state

/-- `model_visible_line_texts` -/
def modelVisibleLineTexts (promptPayload : Payload) (transcript : List TranscriptEvent) :
    LineTexts :=
  let state := transcript.foldl visibleStep (Dict.empty, false)
  if state.2 then state.1 else collectLineTexts promptPayload state.1

/-! ## What a payload shows -/

/-- The payload shows `text` for `line`. -/
inductive Shows (line : Int) (text : LineText) : Payload → Prop where
  | here {entries : List (LineText × Payload)} {field textField : LineText}
      (hfield : (field, .int line) ∈ entries) (hline : isLineField field line = true)
      (hpaired : textField ∈ pairedTextFields field)
      (htext : entries.lookup textField = some (.str text)) (hne : text ≠ []) :
      Shows line text (.dict entries)
  | value {entries : List (LineText × Payload)} {field : LineText} {value : Payload}
      (hmem : (field, value) ∈ entries)
        (h : Shows line text value) : Shows line text (.dict entries)
  | item {items : List Payload} {item : Payload} (hmem : item ∈ items)
      (h : Shows line text item) : Shows line text (.list items)

variable {line : Int} {text : LineText}

theorem mem_textsOf_addText {result : LineTexts} {line' : Int} {text' : LineText} :
    text ∈ textsOf (addText result line' text') line ↔
      (line' = line ∧ text' = text) ∨ text ∈ textsOf result line := by
  unfold addText textsOf
  rw [Dict.get?_set]
  split
  · next heq =>
    subst heq
    rw [Option.getD_some, mem_insert_iff]
    exact or_congr ⟨fun h => ⟨rfl, h.symm⟩, fun h => h.2.symm⟩ Iff.rfl
  · next hne =>
    exact ⟨.inr, fun h => h.resolve_left fun h => hne h.1.symm⟩

/-- `addText` for each text of `texts`. -/
theorem mem_textsOf_foldl {α : Type} {add : LineTexts → α → LineTexts} (adds : α → Prop)
    (hadd : ∀ (result : LineTexts) (a : α),
      text ∈ textsOf (add result a) line ↔ adds a ∨ text ∈ textsOf result line)
    (items : List α) (result : LineTexts) :
    text ∈ textsOf (items.foldl add result) line ↔
      (∃ a ∈ items, adds a) ∨ text ∈ textsOf result line := by
  induction items generalizing result with
  | nil => exact ⟨.inr, fun h => h.resolve_left fun ⟨_, hmem, _⟩ => nomatch hmem⟩
  | cons a items ih =>
    rw [foldl_cons, ih, hadd, exists_mem_cons_iff, or_left_comm, or_assoc]

/-- One field with the text that is paired with it. -/
def FieldShows (entries : List (LineText × Payload)) (line : Int) (text : LineText)
    (field : LineText × Payload) : Prop :=
  field.2 = .int line ∧ isLineField field.1 line = true ∧
    ∃ textField ∈ pairedTextFields field.1,
      entries.lookup textField = some (.str text) ∧ text ≠ []

theorem mem_textsOf_collectField (entries : List (LineText × Payload)) (result : LineTexts)
    (field : LineText × Payload) :
    text ∈ textsOf (collectField entries result field) line ↔
      FieldShows entries line text field ∨ text ∈ textsOf result line := by
  obtain ⟨name, value⟩ := field
  have hnone : value ≠ .int line → ¬ FieldShows entries line text (name, value) :=
    fun hne h => hne h.1
  unfold collectField
  cases value with
  | int line' =>
    dsimp only
    split
    · next hfield =>
      rw [mem_textsOf_foldl fun textField => line' = line ∧
        entries.lookup textField = some (.str text) ∧ text ≠ []]
      · refine or_congr ⟨?_, ?_⟩ Iff.rfl
        · rintro ⟨textField, hmem, rfl, hlookup, hne⟩
          exact ⟨rfl, hfield, textField, hmem, hlookup, hne⟩
        · rintro ⟨heq, _, textField, hmem, hlookup, hne⟩
          exact ⟨textField, hmem, Payload.int.inj heq, hlookup, hne⟩
      · intro result textField
        split
        · next text' hlookup =>
          rw [hlookup]
          split
          · next hne =>
            rw [mem_textsOf_addText]
            refine or_congr (and_congr Iff.rfl ⟨?_, ?_⟩) Iff.rfl
            · rintro rfl
              exact ⟨rfl, hne⟩
            · rintro ⟨heq, _⟩
              exact Payload.str.inj (Option.some.inj heq)
          · next hnil =>
            refine ⟨.inr, fun h => h.resolve_left fun ⟨_, heq, hne⟩ => hne ?_⟩
            rw [← Payload.str.inj (Option.some.inj heq)]
            exact Classical.not_not.mp hnil
        · next hother =>
          exact ⟨.inr, fun h => h.resolve_left fun ⟨_, heq, _⟩ => hother text heq⟩
    · next hfield =>
      refine ⟨.inr, fun h => h.resolve_left fun hshows => hfield ?_⟩
      rw [Payload.int.inj hshows.1]
      exact hshows.2.1
  | str | list | dict | other =>
    exact ⟨.inr, fun h => h.resolve_left (hnone nofun)⟩

/-- A mapping shows what its fields show and what its values show. -/
theorem shows_dict_iff {entries : List (LineText × Payload)} :
    Shows line text (.dict entries) ↔
      (∃ field ∈ entries, Shows line text field.2) ∨
        ∃ field ∈ entries, FieldShows entries line text field := by
  constructor
  · rintro (⟨hfield, hline, hpaired, htext, hne⟩ | ⟨hmem, h⟩)
    · exact .inr ⟨_, hfield, rfl, hline, _, hpaired, htext, hne⟩
    · exact .inl ⟨_, hmem, h⟩
  · rintro (⟨field, hmem, h⟩ | ⟨⟨name, value⟩, hmem, hint, hline, textField, hpaired, htext, hne⟩)
    · exact .value hmem h
    · exact .here (hint ▸ hmem) hline hpaired htext hne

mutual

/-- `_collect_line_texts` adds what the payload shows. -/
theorem mem_textsOf_collect : ∀ (payload : Payload) (result : LineTexts),
    text ∈ textsOf (collectLineTexts payload result) line ↔
      Shows line text payload ∨ text ∈ textsOf result line
  | .dict entries, result => by
    rw [collectLineTexts, mem_textsOf_collectValues entries,
      mem_textsOf_foldl _ (mem_textsOf_collectField entries), shows_dict_iff, or_assoc]
  | .list items, result => by
    rw [collectLineTexts, mem_textsOf_collectItems items]
    refine or_congr ⟨fun ⟨item, hmem, h⟩ => .item hmem h, ?_⟩ Iff.rfl
    rintro ⟨⟩
    next item h hmem => exact ⟨item, hmem, h⟩
  | .int _, result => by
    rw [collectLineTexts]
    · exact ⟨.inr, fun h => h.resolve_left nofun⟩
    · exact nofun
    · exact nofun
  | .str _, result => by
    rw [collectLineTexts]
    · exact ⟨.inr, fun h => h.resolve_left nofun⟩
    · exact nofun
    · exact nofun
  | .other, result => by
    rw [collectLineTexts]
    · exact ⟨.inr, fun h => h.resolve_left nofun⟩
    · exact nofun
    · exact nofun

theorem mem_textsOf_collectValues : ∀ (entries : List (LineText × Payload)) (result : LineTexts),
    text ∈ textsOf (collectValues entries result) line ↔
      (∃ field ∈ entries, Shows line text field.2) ∨ text ∈ textsOf result line
  | [], result => ⟨.inr, fun h => h.resolve_left fun ⟨_, hmem, _⟩ => nomatch hmem⟩
  | (name, value) :: entries, result => by
    rw [collectValues, mem_textsOf_collectValues entries, mem_textsOf_collect value,
      exists_mem_cons_iff, or_left_comm, or_assoc]

theorem mem_textsOf_collectItems : ∀ (items : List Payload) (result : LineTexts),
    text ∈ textsOf (collectItems items result) line ↔
      (∃ item ∈ items, Shows line text item) ∨ text ∈ textsOf result line
  | [], result => ⟨.inr, fun h => h.resolve_left fun ⟨_, hmem, _⟩ => nomatch hmem⟩
  | item :: items, result => by
    rw [collectItems, mem_textsOf_collectItems items, mem_textsOf_collect item,
      exists_mem_cons_iff, or_left_comm, or_assoc]

end

/-- An event that went to the model. -/
def TranscriptEvent.payload : TranscriptEvent → Option Payload
  | .bundleSnapshot payload => if payload.isMapping then some payload else none
  | .toolResult result => some result
  | .other => none

/-- A snapshot of what the model was shown at the start. -/
def TranscriptEvent.isSnapshot : TranscriptEvent → Bool
  | .bundleSnapshot payload => payload.isMapping
  | _ => false

/-- `text` was shown to the model for `line`, in an event of the transcript or, without a snapshot
there, in the prompt. -/
def ShownToModel (promptPayload : Payload) (transcript : List TranscriptEvent) (line : Int)
    (text : LineText) : Prop :=
  (∃ event ∈ transcript, ∃ payload, event.payload = some payload ∧ Shows line text payload) ∨
    (transcript.any TranscriptEvent.isSnapshot = false ∧ Shows line text promptPayload)

theorem mem_textsOf_foldl_visibleStep (transcript : List TranscriptEvent)
    (state : LineTexts × Bool) :
    (text ∈ textsOf (transcript.foldl visibleStep state).1 line ↔
      (∃ event ∈ transcript, ∃ payload, event.payload = some payload ∧ Shows line text payload) ∨
        text ∈ textsOf state.1 line) ∧
      (transcript.foldl visibleStep state).2 =
        (state.2 || transcript.any TranscriptEvent.isSnapshot) := by
  induction transcript generalizing state with
  | nil =>
    exact ⟨⟨.inr, fun h => h.resolve_left fun ⟨_, hmem, _⟩ => nomatch hmem⟩,
      (Bool.or_false _).symm⟩
  | cons event transcript ih =>
    have hstep : (text ∈ textsOf (visibleStep state event).1 line ↔
        (∃ payload, event.payload = some payload ∧ Shows line text payload) ∨
          text ∈ textsOf state.1 line) ∧
        (visibleStep state event).2 = (state.2 || event.isSnapshot) := by
      cases event with
      | bundleSnapshot payload =>
        cases hmapping : payload.isMapping with
        | true => simp [visibleStep, TranscriptEvent.payload, TranscriptEvent.isSnapshot,
            hmapping, mem_textsOf_collect]
        | false => simp [visibleStep, TranscriptEvent.payload, TranscriptEvent.isSnapshot,
            hmapping]
      | toolResult result => simp [visibleStep, TranscriptEvent.payload,
          TranscriptEvent.isSnapshot, mem_textsOf_collect]
      | other => simp [visibleStep, TranscriptEvent.payload, TranscriptEvent.isSnapshot]
    obtain ⟨htexts, hsaw⟩ := ih (visibleStep state event)
    rw [foldl_cons]
    constructor
    · rw [htexts, hstep.1, exists_mem_cons_iff, or_left_comm, or_assoc]
    · rw [hsaw, hstep.2, any_cons, Bool.or_assoc]

/-- `model_visible_line_texts` has exactly what was shown to the model. -/
theorem mem_textsOf_modelVisible (promptPayload : Payload) (transcript : List TranscriptEvent) :
    text ∈ textsOf (modelVisibleLineTexts promptPayload transcript) line ↔
      ShownToModel promptPayload transcript line text := by
  obtain ⟨htexts, hsaw⟩ := @mem_textsOf_foldl_visibleStep line text transcript (Dict.empty, false)
  have hempty : ¬ text ∈ textsOf (Dict.empty : LineTexts) line := not_mem_nil
  unfold modelVisibleLineTexts ShownToModel
  dsimp only
  rw [Bool.false_or] at hsaw
  rw [hsaw]
  split
  · next hsnapshot =>
    rw [htexts, hsnapshot]
    simp [hempty]
  · next hsnapshot =>
    rw [mem_textsOf_collect, htexts, Bool.eq_false_iff.mpr hsnapshot]
    simp [hempty, or_comm]

/-- A line with text is one of the entries. -/
theorem mem_entries_of_mem_textsOf {visible : LineTexts} (h : text ∈ textsOf visible line) :
    (line, textsOf visible line) ∈ visible.entries := by
  unfold textsOf at h ⊢
  cases hget : visible.get? line with
  | none =>
    rw [hget] at h
    cases h
  | some texts => exact Dict.mem_of_get?_eq_some hget

theorem textsOf_of_mem_entries {visible : LineTexts} {texts : List LineText}
    (h : (line, texts) ∈ visible.entries) : textsOf visible line = texts := by
  rw [textsOf, Dict.get?_eq_some_of_mem h]
  rfl

end ResiliencyExt.Attribution.RestartAgent
