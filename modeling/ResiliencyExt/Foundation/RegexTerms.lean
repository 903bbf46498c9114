import ResiliencyExt.Foundation.Regex
import ResiliencyExt.Foundation.TextSearch

set_option autoImplicit false

/-!
# Foundation: terms that a pattern needs

A search for a pattern is often preceded by a search for plain terms in the text in lower case.
`covers` is a check of the pattern itself: whatever a pattern that passes it matches has one of
the terms in it (`covers_sound`), so that the first search loses nothing (`term_of_found`).
-/

namespace ResiliencyExt.Foundation.Regex

open List

variable {data : CharData} {ignoreCase : Bool}

/-! ## The check -/

/-- The texts in lower case that a pattern goes over, when it is written out in ASCII. -/
def spellings : Pattern → Option (List (List Char))
  | .empty | .wordBoundary | .textStart | .textEnd | .notAhead _ | .notBehind _ => some [[]]
  | .one (.char x) => if isAscii x then some [[x.toLower]] else none
  | .one (.set false items) =>
    items.mapM fun item =>
      match item with
      | .char x => if isAscii x then some [x.toLower] else none
      | _ => none
  | .seq first second => do
    let heads ← spellings first
    let tails ← spellings second
    some (heads.flatMap fun head => tails.map (head ++ ·))
  | .alt left right => do
    let lefts ← spellings left
    let rights ← spellings right
    some (lefts ++ rights)
  | .repeated body 0 (some 1) _ => (spellings body).map ([] :: ·)
  | .group _ body => spellings body
  | .one _ | .repeated _ _ _ _ | .backref _ => none

/-- A term of the list is in the text. -/
def containsAny (terms : List (List Char)) (text : List Char) : Bool :=
  terms.any fun term => TextSearch.occursIn term text

/-- Whatever the pattern matches has one of the terms in it. -/
def covers (terms : List (List Char)) (r : Pattern) : Bool :=
  match spellings r with
  | some texts => texts.all (containsAny terms)
  | none =>
    match r with
    | .seq first second => covers terms first || covers terms second
    | .alt left right => covers terms left && covers terms right
    | .group _ body => covers terms body
    | .repeated body (_ + 1) _ _ => covers terms body
    | _ => false

/-! ## Soundness -/

/-- A term is in the text in lower case. -/
def HasTerm (terms : List (List Char)) (text : List Char) : Prop :=
  ∃ term ∈ terms, ∃ before piece after, text = before ++ (piece ++ after) ∧ Folds piece term

variable {terms texts : List (List Char)} {text : List Char} {c : Char} {p q : Cursor}
    {r : Pattern}

theorem HasTerm.append_left (more : List Char) (h : HasTerm terms text) :
    HasTerm terms (more ++ text) := by
  obtain ⟨term, hterm, before, piece, after, rfl, hfolds⟩ := h
  exact ⟨term, hterm, more ++ before, piece, after, (append_assoc _ _ _).symm, hfolds⟩

theorem HasTerm.of_suffix {rest : List Char} (hsuffix : rest <:+ text) (h : HasTerm terms rest) :
    HasTerm terms text := by
  obtain ⟨more, rfl⟩ := hsuffix
  exact h.append_left more

/-- A text that a pattern goes over, in one of its written-out forms. -/
def GoesOver (texts : List (List Char)) (p q : Cursor) : Prop :=
  ∃ taken, p.rest = taken ++ q.rest ∧ ∃ text ∈ texts, Folds taken text

theorem goesOver_refl (h : [] ∈ texts) (p : Cursor) : GoesOver texts p p :=
  ⟨[], rfl, [], h, .nil⟩

theorem admits_char {x : Char} (h : (CharClass.char x).admits ignoreCase c = true) :
    x = c ∨ x ∈ caseVariants c := by
  simp only [CharClass.admits, contains_iff_mem] at h
  split at h
  · exact .inr h
  · exact .inl (mem_singleton.mp h)

theorem fold?_of_admits {x : Char} (hplain : isSpecial c = false) (hx : isAscii x = true)
    (h : (CharClass.char x).admits ignoreCase c = true) : fold? c = some x.toLower := by
  rcases admits_char h with rfl | hmem
  · exact if_pos hx
  · exact fold?_of_mem_caseVariants hplain hx hmem

theorem spellings_set_items {items : List ClassItem}
    (h : (items.mapM fun item => match item with | .char x => if isAscii x then some [x.toLower] else none | _ => none) = some texts) :
    ∀ item ∈ items, ∃ x, item = .char x ∧ isAscii x = true ∧ [x.toLower] ∈ texts := by
  induction items generalizing texts with
  | nil => exact nofun
  | cons first items ih =>
    rw [mapM_cons] at h
    obtain ⟨text, hfirst, h⟩ := Option.bind_eq_some_iff.mp h
    obtain ⟨rest, hrest, h⟩ := Option.bind_eq_some_iff.mp h
    cases h
    intro item hitem
    rcases mem_cons.mp hitem with rfl | hitem
    · split at hfirst
      · next x =>
        split at hfirst
        · next hx =>
          cases hfirst
          exact ⟨x, rfl, hx, mem_cons_self⟩
        · cases hfirst
      · cases hfirst
    · obtain ⟨x, hx, hascii, hmem⟩ := ih hrest item hitem
      exact ⟨x, hx, hascii, mem_cons_of_mem _ hmem⟩

/-- A class that is written out admits one of its characters, up to case. -/
theorem exists_of_admits_set {items : List ClassItem} (hplain : isSpecial c = false)
    (hexact : spellings (.one (.set false items)) = some texts)
    (h : (CharClass.set false items).admits ignoreCase c = true) :
    ∃ text ∈ texts, Folds [c] text := by
  simp only [CharClass.admits, bne_iff_ne, ne_eq, Bool.not_eq_false] at h
  obtain ⟨y, hy, hitems⟩ := any_eq_true.mp h
  obtain ⟨item, hitem, hadmits⟩ := any_eq_true.mp hitems
  obtain ⟨x, rfl, hascii, hmem⟩ := spellings_set_items hexact item hitem
  have hxy : y = x := of_decide_eq_true hadmits
  subst hxy
  have hfold : fold? c = some y.toLower := by
    split at hy
    · exact fold?_of_mem_caseVariants hplain hascii hy
    · cases mem_singleton.mp hy
      exact if_pos hascii
  exact ⟨[y.toLower], hmem, .cons hfold .nil⟩

theorem spellings_repeated {body : Pattern} {least : Nat} {most : Option Nat} {greedy : Bool}
    (h : spellings (.repeated body least most greedy) = some texts) :
    least = 0 ∧ most = some 1 ∧ ∃ texts', spellings body = some texts' ∧ texts = [] :: texts' := by
  rcases least with _ | least
  · rcases most with _ | _ | _ | most
    · cases h
    · cases h
    · obtain ⟨texts', hbody, rfl⟩ := Option.map_eq_some_iff.mp h
      exact ⟨rfl, rfl, texts', hbody, rfl⟩
    · cases h
  · cases h

/-- An option runs its body once or not at all. -/
theorem mem_iterate_once {body : Cursor → List Cursor} {greedy : Bool} {fuel : Nat}
    (h : q ∈ iterate body greedy (fuel + 1) 0 (some 1) p) : q = p ∨ q ∈ body p := by
  have hlast : ∀ middle, iterate body greedy fuel 0 (some 0) middle = [middle] := by
    intro middle
    cases fuel with
    | zero => rfl
    | succ fuel => cases greedy <;> rfl
  have hmore : q ∈ (body p).flatMap (iterate body greedy fuel 0 (some 0)) → q ∈ body p := by
    intro hq
    obtain ⟨middle, hmiddle, hq⟩ := mem_flatMap.mp hq
    rw [hlast, mem_singleton] at hq
    exact hq ▸ hmiddle
  cases greedy with
  | true =>
    rcases mem_append.mp h with hq | hq
    · exact .inr (hmore hq)
    · exact .inl (mem_singleton.mp hq)
  | false =>
    rcases mem_cons.mp h with hq | hq
    · exact .inl hq
    · exact .inr (hmore hq)

/-- A pattern that is written out goes over one of its texts, up to case. -/
theorem spellings_sound (hexact : spellings r = some texts) (h : q ∈ run data ignoreCase r p)
    (hplain : ∀ c ∈ p.rest, isSpecial c = false) : GoesOver texts p q := by
  induction r generalizing texts p q with
  | empty =>
    cases hexact
    cases mem_singleton.mp h
    exact goesOver_refl mem_cons_self p
  | one cls =>
    obtain ⟨c, hrest, hadmits⟩ := mem_step h
    have hc : isSpecial c = false := hplain c (hrest ▸ mem_cons_self)
    refine ⟨[c], hrest, ?_⟩
    cases cls with
    | char x =>
      simp only [spellings] at hexact
      split at hexact
      · next hascii =>
        cases hexact
        exact ⟨_, mem_cons_self, .cons (fold?_of_admits hc hascii hadmits) .nil⟩
      · cases hexact
    | set negated items =>
      cases negated with
      | true => cases hexact
      | false => exact exists_of_admits_set hc hexact hadmits
    | dot => cases hexact
    | space => cases hexact
    | nonSpace => cases hexact
    | digit => cases hexact
  | seq first second ihfirst ihsecond =>
    simp only [spellings] at hexact
    obtain ⟨heads, hheads, hexact⟩ := Option.bind_eq_some_iff.mp hexact
    obtain ⟨tails, htails, hexact⟩ := Option.bind_eq_some_iff.mp hexact
    cases hexact
    obtain ⟨middle, hmiddle, hq⟩ := mem_flatMap.mp h
    obtain ⟨taken, hrest, head, hhead, hfolds⟩ := ihfirst hheads hmiddle hplain
    obtain ⟨taken', hrest', tail, htail, hfolds'⟩ := ihsecond htails hq fun c hc =>
      hplain c (hrest ▸ mem_append_right _ hc)
    refine ⟨taken ++ taken', by rw [hrest, hrest', append_assoc], head ++ tail, ?_,
      rel_append hfolds hfolds'⟩
    exact mem_flatMap.mpr ⟨head, hhead, mem_map_of_mem htail⟩
  | alt left right ihleft ihright =>
    simp only [spellings] at hexact
    obtain ⟨lefts, hlefts, hexact⟩ := Option.bind_eq_some_iff.mp hexact
    obtain ⟨rights, hrights, hexact⟩ := Option.bind_eq_some_iff.mp hexact
    cases hexact
    rcases mem_append.mp h with hq | hq
    · obtain ⟨taken, hrest, text, htext, hfolds⟩ := ihleft hlefts hq hplain
      exact ⟨taken, hrest, text, mem_append_left _ htext, hfolds⟩
    · obtain ⟨taken, hrest, text, htext, hfolds⟩ := ihright hrights hq hplain
      exact ⟨taken, hrest, text, mem_append_right _ htext, hfolds⟩
  | repeated body least most greedy ih =>
    obtain ⟨rfl, rfl, texts', hbody, rfl⟩ := spellings_repeated hexact
    rcases mem_iterate_once h with rfl | hq
    · exact goesOver_refl mem_cons_self _
    · obtain ⟨taken, hrest, text, htext, hfolds⟩ := ih hbody hq hplain
      exact ⟨taken, hrest, text, mem_cons_of_mem _ htext, hfolds⟩
  | group name body ih =>
    obtain ⟨q', hq', rfl⟩ := mem_map.mp h
    have hover := ih hexact hq' hplain
    exact hover
  | backref name => cases hexact
  | wordBoundary | textStart | textEnd | notAhead body =>
    cases hexact
    exact eq_of_mem_ite h ▸ goesOver_refl mem_cons_self _
  | notBehind cls =>
    cases hexact
    unfold run at h
    split at h
    · cases h
    · exact mem_singleton.mp h ▸ goesOver_refl mem_cons_self _

theorem Folds.split {a b : List Char} (h : Folds text (a ++ b)) :
    ∃ t u, text = t ++ u ∧ Folds t a ∧ Folds u b :=
  ⟨_, _, (take_append_drop a.length text).symm, forall₂_take_append _ _ _ h,
    forall₂_drop_append _ _ _ h⟩

/-- A text that folds to one with a term has the term. -/
theorem hasTerm_of_folds {taken : List Char} (hfolds : Folds taken text)
    (hterms : containsAny terms text = true) (rest : List Char) :
    HasTerm terms (taken ++ rest) := by
  obtain ⟨term, hterm, hoccurs⟩ := any_eq_true.mp hterms
  obtain ⟨before, after, rfl⟩ := TextSearch.occursIn_iff.mp hoccurs
  obtain ⟨front, back, rfl, hfront, _⟩ := hfolds.split
  obtain ⟨head, piece, rfl, _, hpiece⟩ := hfront.split
  refine ⟨term, hterm, head, piece, back ++ rest, ?_, hpiece⟩
  rw [append_assoc, append_assoc]

theorem hasTerm_of_spellings (hexact : spellings r = some texts)
    (hall : texts.all (containsAny terms) = true) (h : q ∈ run data ignoreCase r p)
    (hplain : ∀ c ∈ p.rest, isSpecial c = false) : HasTerm terms p.rest := by
  obtain ⟨taken, hrest, text, htext, hfolds⟩ := spellings_sound hexact h hplain
  exact hrest ▸ hasTerm_of_folds hfolds (all_eq_true.mp hall text htext) _

/-- Whatever a pattern that passes the check matches has one of the terms. -/
theorem covers_sound (hcovers : covers terms r = true) (h : q ∈ run data ignoreCase r p)
    (hplain : ∀ c ∈ p.rest, isSpecial c = false) : HasTerm terms p.rest := by
  induction r generalizing p q with
  | seq first second ihfirst ihsecond =>
    unfold covers at hcovers
    split at hcovers
    · next texts hexact => exact hasTerm_of_spellings hexact hcovers h hplain
    · obtain ⟨middle, hmiddle, hq⟩ := mem_flatMap.mp h
      rcases (Bool.or_eq_true _ _).mp hcovers with hfirst | hsecond
      · exact ihfirst hfirst hmiddle hplain
      · have hsuffix := suffix_of_mem_run hmiddle
        exact (ihsecond hsecond hq fun c hc => hplain c (hsuffix.subset hc)).of_suffix hsuffix
  | alt left right ihleft ihright =>
    unfold covers at hcovers
    split at hcovers
    · next texts hexact => exact hasTerm_of_spellings hexact hcovers h hplain
    · obtain ⟨hleft, hright⟩ := (Bool.and_eq_true _ _).mp hcovers
      rcases mem_append.mp h with hq | hq
      · exact ihleft hleft hq hplain
      · exact ihright hright hq hplain
  | group name body ih =>
    unfold covers at hcovers
    split at hcovers
    · next texts hexact => exact hasTerm_of_spellings hexact hcovers h hplain
    · obtain ⟨q', hq', _⟩ := mem_map.mp h
      exact ih hcovers hq' hplain
  | repeated body least most greedy ih =>
    cases least with
    | zero =>
      unfold covers at hcovers
      split at hcovers
      · next texts hexact => exact hasTerm_of_spellings hexact hcovers h hplain
      · cases hcovers
    | succ least =>
      unfold covers at hcovers
      split at hcovers
      · next texts hexact => exact hasTerm_of_spellings hexact hcovers h hplain
      · rcases mem_iterate h with ⟨_, hzero⟩ | ⟨middle, hmiddle, _⟩
        · cases hzero
        · exact ih hcovers hmiddle hplain
  | _ =>
    unfold covers at hcovers
    split at hcovers
    · next texts hexact => exact hasTerm_of_spellings hexact hcovers h hplain
    · cases hcovers

/-! ## Searches -/

/-- A search that succeeds has run the pattern somewhere in the text. -/
theorem exists_run_of_searchFrom {before : List Char} {m : Cursor × Cursor}
    (h : searchFrom data ignoreCase r before text = some m) :
    m.1.rest <:+ text ∧ m.2 ∈ run data ignoreCase r m.1 := by
  induction text generalizing before with
  | nil =>
    obtain ⟨q, hq, rfl⟩ := Option.map_eq_some_iff.mp h
    exact ⟨suffix_refl _, mem_of_mem_head? hq⟩
  | cons c rest ih =>
    unfold searchFrom at h
    split at h
    · next q hq =>
      cases h
      exact ⟨suffix_refl _, mem_of_mem_head? hq⟩
    · obtain ⟨hsuffix, hrun⟩ := ih h
      exact ⟨hsuffix.trans (suffix_cons c rest), hrun⟩

/-- A term of a text is in the text in lower case. -/
theorem containsAny_lower_of_hasTerm (h : HasTerm terms text) :
    containsAny terms (lower data text) = true := by
  obtain ⟨term, hmem, before, piece, after, htext, hfolds⟩ := h
  refine any_eq_true.mpr ⟨term, hmem, TextSearch.occursIn_iff.mpr ?_⟩
  exact htext ▸ infix_lower hfolds before after

/-- A text without special letters in which a covered pattern is found has a term in lower
case. -/
theorem containsAny_of_found (hcovers : covers terms r = true)
    (hplain : ∀ c ∈ text, isSpecial c = false) (h : found data ignoreCase r text = true) :
    containsAny terms (lower data text) = true := by
  obtain ⟨m, hm⟩ := Option.isSome_iff_exists.mp h
  obtain ⟨hsuffix, hrun⟩ := exists_run_of_searchFrom hm
  have hterm := covers_sound hcovers hrun fun c hc => hplain c (hsuffix.subset hc)
  exact containsAny_lower_of_hasTerm (hterm.of_suffix hsuffix)

end ResiliencyExt.Foundation.Regex
