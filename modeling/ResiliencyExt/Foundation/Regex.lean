import Mathlib.Data.List.Infix
import ResiliencyExt.Foundation.Unicode

set_option autoImplicit false

/-!
# Foundation: regular expressions of Python

A pattern is run from a cursor in a text and gives all the cursors it can end at, in the
order in which a backtracking matcher comes to them; the match is the first.  Letters are
compared up to case as `re.IGNORECASE` does it, which takes three letters beyond ASCII for an
ASCII letter that `str.lower` does not make of them (`fold?_of_mem_caseVariants`).
-/

namespace ResiliencyExt.Foundation.Regex

open List

/-- What `str` and `re` take from the Unicode database for characters beyond ASCII. -/
structure CharData where
  /-- `c.isalnum()` -/
  isAlnum : Char → Bool
  /-- What becomes of `c` in `text.lower()`, between two texts. -/
  lower : List Char → Char → List Char → List Char

/-! ## Letters -/

def kelvinSign : Char := '\u212A'
def dottedI : Char := '\u0130'
def dotlessI : Char := '\u0131'
def longS : Char := '\u017F'

def isAscii (c : Char) : Bool :=
  c.toNat < 128

/-- The ASCII letters that a character is taken for under `re.IGNORECASE`; another character
stands for itself. -/
def caseVariants (c : Char) : List Char :=
  if c = kelvinSign then ['k', 'K']
  else if c = dottedI ∨ c = dotlessI then ['i', 'I']
  else if c = longS then ['s', 'S']
  else [c.toLower, c.toUpper]

/-- One character of a text under `str.lower`. -/
def lowerAt (data : CharData) (before : List Char) (c : Char) (after : List Char) : List Char :=
  if isAscii c then [c.toLower]
  else if c = kelvinSign then ['k']
  else data.lower before c after

def lowerFrom (data : CharData) : List Char → List Char → List Char
  | _, [] => []
  | before, c :: rest => lowerAt data before c rest ++ lowerFrom data (before ++ [c]) rest

/-- `text.lower()` -/
def lower (data : CharData) (text : List Char) : List Char :=
  lowerFrom data [] text

/-- `\w` -/
def isWord (data : CharData) (c : Char) : Bool :=
  c = '_' || if isAscii c then c.isAlphanum else data.isAlnum c

/-! ## Patterns -/

inductive ClassItem where
  | char (c : Char)
  | range (first last : Char)
  | space
  | digit
  deriving DecidableEq, Repr

inductive CharClass where
  | char (c : Char)
  | dot
  | space
  | nonSpace
  | digit
  | set (negated : Bool) (items : List ClassItem)
  deriving DecidableEq, Repr

/-- A pattern.  The body of an unbounded repetition matches no empty text. -/
inductive Pattern where
  | empty
  | one (cls : CharClass)
  | seq (first second : Pattern)
  | alt (left right : Pattern)
  | repeated (body : Pattern) (least : Nat) (most : Option Nat) (greedy : Bool)
  | group (name : String) (body : Pattern)
  | backref (name : String)
  | wordBoundary
  | textStart
  | textEnd
  | notAhead (body : Pattern)
  | notBehind (cls : CharClass)
  deriving DecidableEq, Repr

def ClassItem.admits : ClassItem → Char → Bool
  | .char x, c => c = x
  | .range first last, c => first ≤ c && c ≤ last
  | .space, c => Unicode.isSpace c
  | .digit, c => Unicode.isDecimal c

/-- The characters of a class, under `re.IGNORECASE` or not. -/
def CharClass.admits (ignoreCase : Bool) (cls : CharClass) (c : Char) : Bool :=
  match cls with
  | .char x => (if ignoreCase then caseVariants c else [c]).contains x
  | .dot => c ≠ '\n'
  | .space => Unicode.isSpace c
  | .nonSpace => !Unicode.isSpace c
  | .digit => Unicode.isDecimal c
  | .set negated items =>
    ((if ignoreCase then caseVariants c else [c]).any fun x =>
      items.any fun item => item.admits x) != negated

namespace Pattern

/-- One pattern after the other. -/
def cat : List Pattern → Pattern
  | [] => .empty
  | [r] => r
  | r :: rest => .seq r (cat rest)

/-- The first of the patterns that leads to a match. -/
def oneOf : List Pattern → Pattern
  | [] => .empty
  | [r] => r
  | r :: rest => .alt r (oneOf rest)

def lit (text : String) : Pattern :=
  cat (text.toList.map fun c => .one (.char c))

/-- `r*` -/
def many (r : Pattern) : Pattern :=
  .repeated r 0 none true

/-- `r+` -/
def plus (r : Pattern) : Pattern :=
  .repeated r 1 none true

/-- `r?` -/
def opt (r : Pattern) : Pattern :=
  .repeated r 0 (some 1) true

/-- `r{least,most}` -/
def times (r : Pattern) (least most : Nat) : Pattern :=
  .repeated r least (some most) true

/-- `.*` -/
def anything : Pattern :=
  many (.one .dot)

/-- `.*?` -/
def lazily : Pattern :=
  .repeated (.one .dot) 0 none false

def spaces : Pattern :=
  many (.one .space)

/-- `\s+` -/
def someSpace : Pattern :=
  plus (.one .space)

/-- `\d+` -/
def digits : Pattern :=
  plus (.one .digit)

/-- `[items]` -/
def anyOf (items : List ClassItem) : Pattern :=
  .one (.set false items)

/-- `[^items]` -/
def noneOf (items : List ClassItem) : Pattern :=
  .one (.set true items)

end Pattern

/-- The characters of a class that is written as a text. -/
def chars (text : String) : List ClassItem :=
  text.toList.map .char

/-! ## Matching -/

/-- A place in a text, and the groups so far, the last one first. -/
structure Cursor where
  /-- The text before the place, backwards. -/
  before : List Char
  rest : List Char
  groups : List (String × List Char)
  deriving DecidableEq, Repr

namespace Cursor

def start (text : List Char) : Cursor :=
  ⟨[], text, []⟩

/-- Go over one character that is admitted. -/
def step (admits : Char → Bool) (p : Cursor) : List Cursor :=
  match p.rest with
  | [] => []
  | c :: rest => if admits c then [⟨c :: p.before, rest, p.groups⟩] else []

/-- Go over a text. -/
def stepText : List Char → Cursor → List Cursor
  | [], p => [p]
  | x :: text, p => (p.step fun c => c = x).flatMap (stepText text)

/-- The value of a group. -/
def get? (p : Cursor) (name : String) : Option (List Char) :=
  (p.groups.find? fun g => g.1 = name).map Prod.snd

/-- The text between two cursors, the first of which is `p`. -/
def textTo (p q : Cursor) : List Char :=
  p.rest.take (p.rest.length - q.rest.length)

end Cursor

/-- The ends of repeated runs of `body`, greedy or not. -/
def iterate (body : Cursor → List Cursor) (greedy : Bool) :
    Nat → Nat → Option Nat → Cursor → List Cursor
  | 0, least, _, p => if least = 0 then [p] else []
  | fuel + 1, least, most, p =>
    let more := if most = some 0 then []
      else (body p).flatMap (iterate body greedy fuel (least - 1) (most.map (· - 1)))
    if 0 < least then more else if greedy then more ++ [p] else p :: more

section Matching

variable (data : CharData) (ignoreCase : Bool)

/-- The ends of a pattern from a cursor, in the order of a backtracking matcher. -/
def run : Pattern → Cursor → List Cursor
  | .empty, p => [p]
  | .one cls, p => p.step (cls.admits ignoreCase)
  | .seq first second, p => (run first p).flatMap (run second)
  | .alt left right, p => run left p ++ run right p
  | .repeated body least most greedy, p =>
    iterate (run body) greedy (p.rest.length + least + 1) least most p
  | .group name body, p =>
    (run body p).map fun q => { q with groups := (name, p.textTo q) :: q.groups }
  | .backref name, p =>
    match p.get? name with
    | none => []
    | some text => p.stepText text
  | .wordBoundary, p =>
    if p.before.head?.any (isWord data) != p.rest.head?.any (isWord data) then [p] else []
  | .textStart, p => if p.before.isEmpty then [p] else []
  | .textEnd, p => if p.rest.isEmpty || p.rest = ['\n'] then [p] else []
  | .notAhead body, p => if (run body p).isEmpty then [p] else []
  | .notBehind cls, p => if p.before.head?.any (cls.admits ignoreCase) then [] else [p]

/-- The first match at or behind a place: where it begins and where it ends. -/
def searchFrom (r : Pattern) : List Char → List Char → Option (Cursor × Cursor)
  | before, [] => (run data ignoreCase r ⟨before, [], []⟩).head?.map fun q => (⟨before, [], []⟩, q)
  | before, c :: rest =>
    match (run data ignoreCase r ⟨before, c :: rest, []⟩).head? with
    | some q => some (⟨before, c :: rest, []⟩, q)
    | none => searchFrom r (c :: before) rest

/-- `pattern.search(text)` -/
def search (r : Pattern) (text : List Char) : Option (Cursor × Cursor) :=
  searchFrom data ignoreCase r [] text

/-- Whether `pattern.search(text)` finds a match. -/
def found (r : Pattern) (text : List Char) : Bool :=
  (search data ignoreCase r text).isSome

/-- `pattern.match(text)` -/
def matchStart (r : Pattern) (text : List Char) : Option Cursor :=
  (run data ignoreCase r (.start text)).head?

/-- The value of a group of `pattern.search(text)`, when there is a match. -/
def searchGroup (r : Pattern) (name : String) (text : List Char) : Option (List Char) :=
  (search data ignoreCase r text).bind fun m => m.2.get? name

end Matching

/-! ## Case -/

theorem forall_ascii {P : Char → Bool}
    (h : ((List.range 128).all fun n => P (Char.ofNat n)) = true) {c : Char}
    (hc : isAscii c = true) : P c = true := by
  have hlt : c.toNat < 128 := of_decide_eq_true hc
  exact Char.ofNat_toNat c ▸ all_eq_true.mp h c.toNat (mem_range.mpr hlt)

/-- A character beyond ASCII has no ASCII case. -/
theorem toLower_of_not_isAscii {c : Char} (h : isAscii c = false) :
    c.toLower = c ∧ c.toUpper = c := by
  have hlarge : 128 ≤ c.val.toNat := Nat.le_of_not_lt (of_decide_eq_false h)
  have hZ : 'Z'.val.toNat = 90 := rfl
  have hz : 'z'.val.toNat = 122 := rfl
  constructor
  · refine dif_neg fun hrange => ?_
    have hle := UInt32.le_iff_toNat_le.mp hrange.2
    omega
  · refine dif_neg fun hrange => ?_
    have hle := UInt32.le_iff_toNat_le.mp hrange.2
    omega

/-- A letter that `re.IGNORECASE` takes for an ASCII letter without `str.lower` doing so. -/
def isSpecial (c : Char) : Bool :=
  c = dottedI || c = dotlessI || c = longS

/-- The ASCII character that a character is in lower case, whatever is around it. -/
def fold? (c : Char) : Option Char :=
  if isAscii c then some c.toLower else if c = kelvinSign then some 'k' else none

/-- A text is `word` in lower case. -/
def Folds (text word : List Char) : Prop :=
  List.Forall₂ (fun c x => fold? c = some x) text word

theorem fold?_of_mem_caseVariants {c x : Char} (hplain : isSpecial c = false)
    (hx : isAscii x = true) (h : x ∈ caseVariants c) : fold? c = some x.toLower := by
  simp only [isSpecial, Bool.or_eq_false_iff, decide_eq_false_iff_not] at hplain
  obtain ⟨⟨hdotted, hdotless⟩, hlong⟩ := hplain
  unfold caseVariants at h
  split at h
  · next hkelvin =>
    subst hkelvin
    simp only [mem_cons, not_mem_nil, or_false] at h
    rcases h with rfl | rfl <;> rfl
  · rw [if_neg (not_or.mpr ⟨hdotted, hdotless⟩)] at h
    cases hc : isAscii c with
    | true =>
      have hlower : ([c.toLower, c.toUpper].all fun x => x.toLower == c.toLower) = true :=
        forall_ascii (P := fun c => [c.toLower, c.toUpper].all fun x => x.toLower == c.toLower)
          (by decide +kernel) hc
      rw [fold?, if_pos hc, eq_of_beq (all_eq_true.mp hlower x h)]
    | false =>
      obtain ⟨hlower, hupper⟩ := toLower_of_not_isAscii hc
      rw [hlower, hupper] at h
      simp only [mem_cons, not_mem_nil, or_false, or_self] at h
      rw [h, hc] at hx
      cases hx

theorem lowerAt_of_fold? {data : CharData} {before after : List Char} {c x : Char}
    (h : fold? c = some x) : lowerAt data before c after = [x] := by
  unfold fold? at h
  unfold lowerAt
  split at h
  · next hascii =>
    cases h
    rw [if_pos hascii]
  · next hnot =>
    rw [if_neg hnot]
    split at h
    · next hkelvin =>
      cases h
      rw [if_pos hkelvin]
    · cases h

theorem lowerFrom_of_folds {data : CharData} {text word : List Char} (h : Folds text word)
    (before after : List Char) :
    lowerFrom data before (text ++ after) = word ++ lowerFrom data (before ++ text) after := by
  induction h generalizing before with
  | nil => rw [append_nil, nil_append, nil_append]
  | @cons c x text word hc hrest ih =>
    rw [cons_append, lowerFrom, lowerAt_of_fold? hc, ih, append_assoc,
      singleton_append, singleton_append, cons_append]

/-- A word that a piece of a text is in lower case is in the text in lower case. -/
theorem infix_lower {data : CharData} {piece word : List Char} (h : Folds piece word)
    (before after : List Char) : word <:+: lower data (before ++ (piece ++ after)) := by
  have hfrom : ∀ sofar, word <:+: lowerFrom data sofar (before ++ (piece ++ after)) := by
    induction before with
    | nil =>
      intro sofar
      rw [nil_append, lowerFrom_of_folds h]
      exact (prefix_append _ _).isInfix
    | cons c before ih =>
      intro sofar
      rw [cons_append, lowerFrom]
      exact (ih _).trans (suffix_append _ _).isInfix
  exact hfrom []

/-! ## What a pattern goes over -/

section Runs

variable {data : CharData} {ignoreCase : Bool}

variable {p q : Cursor} {body : Cursor → List Cursor} {greedy : Bool} {fuel least : Nat}
    {most : Option Nat}

theorem mem_step {admits : Char → Bool} (h : q ∈ p.step admits) :
    ∃ c, p.rest = c :: q.rest ∧ admits c = true := by
  unfold Cursor.step at h
  split at h
  · cases h
  · next c rest hrest =>
    split at h
    · next hadmits =>
      cases mem_singleton.mp h
      exact ⟨c, hrest, hadmits⟩
    · cases h

/-- An iteration that has to run the body runs it first. -/
theorem mem_iterate (h : q ∈ iterate body greedy fuel least most p) :
    q = p ∧ least = 0 ∨ ∃ middle ∈ body p, ∃ fuel' least' most',
      q ∈ iterate body greedy fuel' least' most' middle ∧ fuel' < fuel := by
  cases fuel with
  | zero =>
    unfold iterate at h
    split at h
    · next hzero => exact .inl ⟨mem_singleton.mp h, hzero⟩
    · cases h
  | succ fuel =>
    have hmore : q ∈ (if most = some 0 then []
        else (body p).flatMap (iterate body greedy fuel (least - 1) (most.map (· - 1)))) →
        ∃ middle ∈ body p, ∃ fuel' least' most',
          q ∈ iterate body greedy fuel' least' most' middle ∧ fuel' < fuel + 1 := by
      intro hq
      split at hq
      · cases hq
      · obtain ⟨middle, hmiddle, hq⟩ := mem_flatMap.mp hq
        exact ⟨middle, hmiddle, fuel, _, _, hq, Nat.lt_succ_self fuel⟩
    unfold iterate at h
    dsimp only at h
    split at h
    · exact .inr (hmore h)
    · next hzero =>
      have hleast : least = 0 := by omega
      split at h
      · rcases mem_append.mp h with hq | hq
        · exact .inr (hmore hq)
        · exact .inl ⟨mem_singleton.mp hq, hleast⟩
      · rcases mem_cons.mp h with rfl | hq
        · exact .inl ⟨rfl, hleast⟩
        · exact .inr (hmore hq)

/-- What a body that goes forward does, iterations of it do. -/
theorem suffix_of_mem_iterate (hbody : ∀ p q, q ∈ body p → q.rest <:+ p.rest)
    (h : q ∈ iterate body greedy fuel least most p) : q.rest <:+ p.rest := by
  induction fuel using Nat.strongRecOn generalizing p least most with
  | ind fuel ih =>
    rcases mem_iterate h with ⟨rfl, _⟩ | ⟨middle, hmiddle, fuel', _, _, hq, hless⟩
    · exact suffix_refl _
    · exact (ih fuel' hless hq).trans (hbody p middle hmiddle)

theorem suffix_of_mem_stepText {text : List Char} : ∀ {p q : Cursor}, q ∈ p.stepText text →
    q.rest <:+ p.rest := by
  induction text with
  | nil =>
    intro p q h
    cases mem_singleton.mp h
    exact suffix_refl _
  | cons x text ih =>
    intro p q h
    obtain ⟨middle, hmiddle, hq⟩ := mem_flatMap.mp h
    obtain ⟨c, hrest, _⟩ := mem_step hmiddle
    exact (ih hq).trans ⟨[c], hrest.symm⟩

theorem eq_of_mem_ite {c : Prop} [Decidable c] (h : q ∈ (if c then [p] else [])) : q = p := by
  split at h
  · exact mem_singleton.mp h
  · cases h

/-- A pattern goes forward. -/
theorem suffix_of_mem_run {r : Pattern} (h : q ∈ run data ignoreCase r p) :
    q.rest <:+ p.rest := by
  induction r generalizing p q with
  | empty =>
    cases mem_singleton.mp h
    exact suffix_refl _
  | one cls =>
    obtain ⟨c, hrest, _⟩ := mem_step h
    exact ⟨[c], hrest.symm⟩
  | seq first second ihfirst ihsecond =>
    obtain ⟨middle, hmiddle, hq⟩ := mem_flatMap.mp h
    exact (ihsecond hq).trans (ihfirst hmiddle)
  | alt left right ihleft ihright =>
    exact (mem_append.mp h).elim ihleft ihright
  | repeated body least most greedy ih =>
    exact suffix_of_mem_iterate (fun _ _ => ih) h
  | group name body ih =>
    obtain ⟨q', hq', rfl⟩ := mem_map.mp h
    have hsuffix := ih hq'
    exact hsuffix
  | backref name =>
    unfold run at h
    split at h
    · cases h
    · exact suffix_of_mem_stepText h
  | wordBoundary => exact eq_of_mem_ite h ▸ suffix_refl _
  | textStart => exact eq_of_mem_ite h ▸ suffix_refl _
  | textEnd => exact eq_of_mem_ite h ▸ suffix_refl _
  | notAhead body => exact eq_of_mem_ite h ▸ suffix_refl _
  | notBehind cls =>
    unfold run at h
    split at h
    · cases h
    · exact mem_singleton.mp h ▸ suffix_refl _

end Runs

end ResiliencyExt.Foundation.Regex
