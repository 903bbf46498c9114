import Mathlib.Data.List.Infix

set_option autoImplicit false

/-!
# Foundation: search in texts

`afterFirst` is what stands behind the first occurrence of a fragment, which is where
`str.find` with an offset goes on.  Looking for one fragment after another in this way finds
them in order and without overlap whenever they are there at all (`findInOrder_iff`).
-/

namespace ResiliencyExt.Foundation.TextSearch

variable {α : Type} [DecidableEq α]

/-- The text behind the first occurrence of `fragment`. -/
def afterFirst (fragment : List α) : List α → Option (List α)
  | [] => if fragment = [] then some [] else none
  | c :: rest =>
    if fragment <+: c :: rest then some ((c :: rest).drop fragment.length)
    else afterFirst fragment rest

/-- `fragment in text` -/
def occursIn (fragment text : List α) : Bool :=
  (afterFirst fragment text).isSome

/-- The fragments are found one behind the other. -/
def findInOrder : List (List α) → List α → Bool
  | [], _ => true
  | fragment :: fragments, text =>
    match afterFirst fragment text with
    | none => false
    | some rest => findInOrder fragments rest

/-- The fragments stand in the text in order and without overlap. -/
def InOrder : List (List α) → List α → Prop
  | [], _ => True
  | fragment :: fragments, text =>
    ∃ before rest, text = before ++ (fragment ++ rest) ∧ InOrder fragments rest

theorem afterFirst_sound {fragment text rest : List α} (h : afterFirst fragment text = some rest) :
    ∃ before, text = before ++ (fragment ++ rest) := by
  induction text with
  | nil =>
    rw [afterFirst] at h
    split at h
    · next hnil =>
      cases h
      exact ⟨[], by rw [hnil]; rfl⟩
    · cases h
  | cons c text ih =>
    rw [afterFirst] at h
    split at h
    · next hprefix =>
      cases h
      obtain ⟨rest, hrest⟩ := hprefix
      refine ⟨[], ?_⟩
      rw [← hrest, List.drop_left]
      rfl
    · obtain ⟨before, hbefore⟩ := ih h
      exact ⟨c :: before, congrArg (c :: ·) hbefore⟩

/-- No occurrence of the fragment ends before the first one. -/
theorem exists_afterFirst {fragment text before rest : List α}
    (h : text = before ++ (fragment ++ rest)) :
    ∃ more, afterFirst fragment text = some (more ++ rest) := by
  induction text generalizing before with
  | nil =>
    obtain ⟨-, hfragment⟩ := List.append_eq_nil_iff.mp h.symm
    obtain ⟨rfl, rfl⟩ := List.append_eq_nil_iff.mp hfragment
    exact ⟨[], rfl⟩
  | cons c text ih =>
    rw [afterFirst]
    split
    · next hprefix =>
      obtain ⟨tail, htail⟩ := hprefix
      rw [← htail, List.drop_left]
      have hlength := congrArg List.length (htail.trans h)
      simp only [List.length_append] at hlength
      have hsuffix : rest <:+ tail := by
        have hbehind : rest <:+ c :: text := ⟨before ++ fragment, by rw [h, List.append_assoc]⟩
        exact List.suffix_of_suffix_length_le hbehind ⟨fragment, htail⟩ (by omega)
      obtain ⟨more, hmore⟩ := hsuffix
      exact ⟨more, congrArg some hmore.symm⟩
    · next hnot =>
      cases before with
      | nil => exact absurd ⟨rest, h.symm⟩ hnot
      | cons d before => exact ih (List.cons.inj h).2

theorem occursIn_iff {fragment text : List α} : occursIn fragment text = true ↔
    fragment <:+: text := by
  constructor
  · intro h
    obtain ⟨rest, hrest⟩ := Option.isSome_iff_exists.mp h
    obtain ⟨before, hbefore⟩ := afterFirst_sound hrest
    exact ⟨before, rest, by rw [hbefore, List.append_assoc]⟩
  · rintro ⟨before, rest, h⟩
    obtain ⟨more, hmore⟩ := exists_afterFirst (h.symm.trans (List.append_assoc before fragment rest))
    rw [occursIn, hmore]
    rfl

omit [DecidableEq α] in
/-- Text in front does no harm. -/
theorem InOrder.append_left {fragments : List (List α)} {text : List α} (more : List α)
    (h : InOrder fragments text) : InOrder fragments (more ++ text) := by
  cases fragments with
  | nil => trivial
  | cons fragment fragments =>
    obtain ⟨before, rest, rfl, hrest⟩ := h
    exact ⟨more ++ before, rest, by rw [List.append_assoc], hrest⟩

theorem findInOrder_iff (fragments : List (List α)) (text : List α) :
    findInOrder fragments text = true ↔ InOrder fragments text := by
  induction fragments generalizing text with
  | nil => exact ⟨fun _ => trivial, fun _ => rfl⟩
  | cons fragment fragments ih =>
    rw [findInOrder]
    constructor
    · intro h
      split at h
      · cases h
      · next rest hrest =>
        obtain ⟨before, hbefore⟩ := afterFirst_sound hrest
        exact ⟨before, rest, hbefore, (ih rest).mp h⟩
    · rintro ⟨before, rest, htext, hrest⟩
      obtain ⟨more, hmore⟩ := exists_afterFirst htext
      rw [hmore]
      exact (ih _).mpr (hrest.append_left more)

/-! ## Replacing -/

/-- `replaceAll` behind an occurrence, of which `skip` more elements are to be passed. -/
def replaceAllFrom (fragment value : List α) : Nat → List α → List α
  | _, [] => []
  | skip + 1, _ :: rest => replaceAllFrom fragment value skip rest
  | 0, c :: rest =>
    if fragment <+: c :: rest then value ++ replaceAllFrom fragment value (fragment.length - 1) rest
    else c :: replaceAllFrom fragment value 0 rest

/-- `text.replace(fragment, value)`, for a fragment that is not empty. -/
def replaceAll (fragment value text : List α) : List α :=
  replaceAllFrom fragment value 0 text

/-- At how many places of the text the fragment stands. -/
def occurrences (fragment text : List α) : Nat :=
  text.tails.countP fun rest => decide (fragment <+: rest)

theorem replaceAll_cons_of_ne {fragment : List α} (value : List α) {c : α} {rest : List α}
    (h : ¬ fragment <+: c :: rest) :
    replaceAll fragment value (c :: rest) = c :: replaceAll fragment value rest := by
  rw [replaceAll, replaceAllFrom, if_neg h]
  rfl

theorem replaceAllFrom_append (fragment value : List α) (passed rest : List α) :
    replaceAllFrom fragment value passed.length (passed ++ rest) =
      replaceAll fragment value rest := by
  induction passed with
  | nil => rfl
  | cons c passed ih => exact ih

theorem replaceAll_append (value : List α) (c : α) (fragment rest : List α) :
    replaceAll (c :: fragment) value (c :: fragment ++ rest) =
      value ++ replaceAll (c :: fragment) value rest := by
  rw [List.cons_append, replaceAll, replaceAllFrom, if_pos ⟨rest, rfl⟩, List.length_cons,
    Nat.add_sub_cancel, replaceAllFrom_append]

theorem replaceAll_of_not_mem {a : α} {text : List α} (fragment value : List α) (h : a ∉ text) :
    replaceAll (a :: fragment) value text = text := by
  induction text with
  | nil => rfl
  | cons c text ih =>
    obtain ⟨hc, htext⟩ := not_or.mp (List.mem_cons.not.mp h)
    rw [replaceAll_cons_of_ne value fun hprefix => hc (List.cons_prefix_cons.mp hprefix).1,
      ih htext]

theorem occurrences_cons (fragment : List α) (c : α) (rest : List α) :
    occurrences fragment (c :: rest) =
      occurrences fragment rest + if fragment <+: c :: rest then 1 else 0 := by
  rw [occurrences, List.tails_cons, List.countP_cons]
  simp only [decide_eq_true_eq]
  rfl

/-- A single element is replaced wherever it is. -/
theorem replaceAll_singleton (a : α) (value text : List α) :
    replaceAll [a] value text = text.flatMap fun c => if c = a then value else [c] := by
  induction text with
  | nil => rfl
  | cons c text ih =>
    rw [List.flatMap_cons, ← ih]
    split
    · next heq =>
      subst heq
      exact replaceAll_append value c [] text
    · next hne =>
      refine replaceAll_cons_of_ne value fun hprefix => hne ?_
      exact (List.cons_prefix_cons.mp hprefix).1.symm

end ResiliencyExt.Foundation.TextSearch
