import Mathlib.Data.List.Forall2

set_option autoImplicit false

/-!
# Foundation: glob patterns

The patterns of `fnmatch`, which `glob` uses for one part of a path: `*`, `?`, `[seq]` and
`[!seq]`.  A bracket that is not closed stands for itself, as does a closing bracket outside.
-/

namespace ResiliencyExt.Foundation.Glob

open List

/-- A part of a pattern that stands for one character; a set is a list of ranges. -/
inductive CharClass where
  | any
  | literal (c : Char)
  | set (negated : Bool) (ranges : List (Char × Char))

inductive Token where
  | star
  | one (cls : CharClass)

def CharClass.accepts : CharClass → Char → Bool
  | any, _ => true
  | literal c, d => decide (d = c)
  | set negated ranges, d => (ranges.any fun range => decide (range.1 ≤ d ∧ d ≤ range.2)) != negated

/-! ## Reading a pattern -/

/-- The text up to the first closing bracket. -/
def closing : List Char → Option (List Char)
  | [] => none
  | c :: rest => if c = ']' then some [] else (closing rest).map (c :: ·)

/-- What a bracket holds.  A closing bracket that comes first is an element of the set. -/
def sequence : List Char → Option (List Char)
  | [] => none
  | c :: rest => (closing rest).map (c :: ·)

/-- The ranges of a set; `-` is a character of the set at its ends. -/
def ranges : List Char → List (Char × Char)
  | low :: '-' :: high :: rest => (low, high) :: ranges rest
  | c :: rest => (c, c) :: ranges rest
  | [] => []

/-- The set behind an opening bracket, with the length of its text. -/
def bracket : List Char → Option (CharClass × Nat)
  | '!' :: rest => (sequence rest).map fun seq => (.set true (ranges seq), seq.length + 2)
  | text => (sequence text).map fun seq => (.set false (ranges seq), seq.length + 1)

/-- The tokens of a pattern, of which `skip` more characters belong to the last set. -/
def tokensFrom : Nat → List Char → List Token
  | _, [] => []
  | skip + 1, _ :: rest => tokensFrom skip rest
  | 0, c :: rest =>
    if c = '*' then .star :: tokensFrom 0 rest
    else if c = '?' then .one .any :: tokensFrom 0 rest
    else if c = '[' then
      match bracket rest with
      | some (cls, length) => .one cls :: tokensFrom length rest
      | none => .one (.literal c) :: tokensFrom 0 rest
    else .one (.literal c) :: tokensFrom 0 rest

def tokens (pattern : List Char) : List Token :=
  tokensFrom 0 pattern

/-! ## Matching -/

def accepts : List Token → List Char → Bool
  | [], name => name.isEmpty
  | .star :: rest, name => name.tails.any (accepts rest)
  | .one _ :: _, [] => false
  | .one cls :: rest, c :: name => cls.accepts c && accepts rest name

/-- `fnmatch.fnmatchcase(name, pattern)` -/
def fnmatch (name pattern : List Char) : Bool :=
  accepts (tokens pattern) name

/-- Without a star the characters of the name go with the tokens one by one. -/
theorem accepts_map_one (classes : List CharClass) (name : List Char) :
    accepts (classes.map .one) name = true ↔
      Forall₂ (fun cls c => cls.accepts c = true) classes name := by
  induction classes generalizing name with
  | nil => cases name <;> simp [accepts, forall₂_nil_left_iff]
  | cons cls classes ih =>
    cases name with
    | nil => exact iff_of_false nofun nofun
    | cons c name => simp [accepts, ih]

end ResiliencyExt.Foundation.Glob
