import ResiliencyExt.Attribution.RestartAgent.Registry
import ResiliencyExt.FaultTolerance.CycleInfo.NodeList
import ResiliencyExt.Foundation.RegexGroups

set_option autoImplicit false

/-!
# Restart agent: what a line names

`identity.py`: the rank, the GPU, the node and the failure iteration that a line names.  The
ingestion of a log reads the rank in a way of its own, `_fast_numeric_rank`, which looks for a
number, a colon and a blank at the head of the line before it falls back on `extract_rank`.

`int` takes texts of decimal digits, and not more than 4300 of them; `str.isdigit` takes other
digits as well, such as superscripts.
-/

namespace ResiliencyExt.Attribution.RestartAgent

open Foundation
open Foundation.Regex
open Foundation.Unicode
open ResiliencyExt.FaultTolerance.CycleInfo (intValue)

/-! ## Numbers -/

/-- What `int` and a division raise, `ValueError` and `OverflowError`. -/
inductive LineError where
  | valueError
  | overflowError
  deriving DecidableEq, Repr

/-- `sys.int_info.default_max_str_digits` -/
def maxStrDigits : Nat := 4300

/-- A text that `int` takes. -/
def IntText (digits : List Char) : Prop :=
  digits ≠ [] ∧ (∀ c ∈ digits, isDecimal c = true) ∧ digits.length ≤ maxStrDigits

instance (digits : List Char) : Decidable (IntText digits) :=
  inferInstanceAs (Decidable (_ ∧ _ ∧ _))

/-- `int(digits)`, of a text without signs, blanks and underscores. -/
def intOf (digits : List Char) : Except LineError Nat :=
  if IntText digits then .ok (intValue digits) else .error .valueError

/-- `_numeric_field` -/
def numericField : Option (List Char) → Except LineError (Option Nat)
  | none => .ok none
  | some value => if value ≠ [] ∧ value.all isDigit then (intOf value).map some else .ok none

/-! ## Patterns -/

namespace LinePattern

open Pattern RegistryPattern

/-- `[=:\s_-]*` -/
def fieldSigns : Pattern :=
  many (anyOf [.char '=', .char ':', .space, .char '_', .char '-'])

/-- `[=:\s]+` -/
def someFieldSigns : Pattern :=
  plus (anyOf [.char '=', .char ':', .space])

/-- `^\s*(\d+):\s+` -/
def numberPrefix : Pattern :=
  cat [.textStart, spaces, .group "1" digits, .one (.char ':'), someSpace]

/-- `(?:^|[\s\[])(?:rank|global_rank)[=:\s_-]*(\d+)` -/
def rankField : Pattern :=
  cat [oneOf [.textStart, anyOf [.space, .char '[']], oneOf [lit "rank", lit "global_rank"],
    fieldSigns, .group "1" digits]

def gpuField : Pattern :=
  oneOf [cat [edge, lit "cuda:", .group "1" digits, edge],
    cat [edge, lit "gpu", fieldSigns, .group "2" digits, edge],
    cat [edge, lit "device", someFieldSigns, .group "3" digits, edge]]

def nodeField : Pattern :=
  cat [edge, lit "node", someFieldSigns,
    .group "1" (plus (anyOf ([.range 'a' 'z', .range '0' '9'] ++ chars "_.-")))]

/-- `_FAILURE_ITERATION_RE` -/
def failureIteration : Pattern :=
  cat [edge, lit "iteration", spaces, opt (oneOf [lit "=", lit ":"]), spaces,
    .group "1" digits, edge]

/-- `_ROUTING_PREFIX_RE` -/
def routingPrefix : Pattern :=
  cat [.textStart, spaces, digits, lit ":", spaces,
    opt (cat [lit "[rank", digits, lit "]:", spaces])]

/-- `\d{n}` -/
def digitTimes (n : Nat) : Pattern :=
  times (.one .digit) n n

/-- `\d{2}:\d{2}:\d{2}(?:\.\d+)?` -/
def clockTime : Pattern :=
  cat [digitTimes 2, lit ":", digitTimes 2, lit ":", digitTimes 2,
    opt (cat [lit ".", digits])]

/-- `_ISO_TIMESTAMP_PREFIX_RE` -/
def isoTimestampPrefix : Pattern :=
  cat [.textStart, spaces, lit "[", digitTimes 4, lit "-", digitTimes 2, lit "-", digitTimes 2,
    anyOf [.char 't', .space], clockTime, lit "]", spaces]

/-- `_NCCL_HOST_ROUTING_PREFIX_RE` -/
def ncclHostRoutingPrefix : Pattern :=
  cat [.textStart, spaces, plus (anyOf (nameStart ++ [.range '0' '9', .char '.', .char '-'])),
    lit ":", digits, lit ":", digits, someSpace, lit "[", digits, lit "]", spaces]

end LinePattern

/-! ## What a line names -/

/-- `pattern.sub("", text)` of a pattern that begins at the start of a text. -/
def dropStart (data : CharData) (ignoreCase : Bool) (r : Pattern) (text : List Char) : List Char :=
  match matchStart data ignoreCase r text with
  | some q => q.rest
  | none => text

section Extractors

variable (data : CharData) (text : List Char)

/-- `_strip_routing_prefix` -/
def stripRoutingPrefix : List Char :=
  dropStart data false LinePattern.ncclHostRoutingPrefix
    (dropStart data true LinePattern.isoTimestampPrefix
      (dropStart data false LinePattern.routingPrefix text))

/-- `extract_rank` -/
def extractRank : Option (List Char) :=
  match searchGroup data false LinePattern.numberPrefix "1" text with
  | some digits => some digits
  | none => searchGroup data true LinePattern.rankField "1" text

/-- `extract_gpu` -/
def extractGpu : Option (List Char) :=
  (search data true LinePattern.gpuField text).bind fun m => ["1", "2", "3"].findSome? m.2.get?

/-- `extract_node` -/
def extractNode : Option (List Char) :=
  searchGroup data true LinePattern.nodeField "1" text

/-- `extract_failure_iteration` -/
def extractFailureIteration : Except LineError (Option Nat) :=
  match searchGroup data true LinePattern.failureIteration "1" (stripRoutingPrefix data text) with
  | none => .ok none
  | some digits => (intOf digits).map some

/-- What `_fast_numeric_rank` calls `int` on: digits at the head of the line, when a colon and a
blank or a tab follow them. -/
def fastPrefix : Option (List Char) :=
  let stripped := text.dropWhile isSpace
  let head := stripped.takeWhile (· ≠ ':')
  match stripped.dropWhile (· ≠ ':') with
  | [] => none
  | _ :: remainder =>
    if (head ≠ [] ∧ head.all isDigit) ∧
        (remainder.head? = some ' ' ∨ remainder.head? = some '\t') then some head
    else none

/-- `_fast_numeric_rank` -/
def fastNumericRank (lowered : List Char) : Except LineError (Option Nat) :=
  match fastPrefix text with
  | some digits => (intOf digits).map some
  | none =>
    if TextSearch.occursIn "rank".toList lowered then numericField (extractRank data text)
    else .ok none

end Extractors

/-! ## Texts that `int` takes -/

variable {digits : List Char}

theorem intOf_of_intText (h : IntText digits) : intOf digits = .ok (intValue digits) :=
  if_pos h

theorem intOf_eq_ok_iff {value : Nat} :
    intOf digits = .ok value ↔ IntText digits ∧ value = intValue digits := by
  unfold intOf
  split
  · next h =>
    rw [Except.ok.injEq]
    exact ⟨fun heq => ⟨h, heq.symm⟩, fun heq => heq.2.symm⟩
  · next h =>
    constructor
    · intro heq
      cases heq
    · exact fun heq => absurd heq.1 h

theorem intOf_map_some_eq_ok_iff {value : Option Nat} :
    (intOf digits).map some = .ok value ↔ IntText digits ∧ value = some (intValue digits) := by
  unfold intOf
  split
  · next h =>
    rw [Except.map, Except.ok.injEq]
    exact ⟨fun heq => ⟨h, heq.symm⟩, fun heq => heq.2.symm⟩
  · next h =>
    constructor
    · intro heq
      cases heq
    · exact fun heq => absurd heq.1 h

/-- A run of digits that a pattern has found is read when it is not too long. -/
theorem intText_iff_of_digits (h : digits ≠ [] ∧ ∀ c ∈ digits, isDecimal c = true) :
    IntText digits ↔ digits.length ≤ maxStrDigits :=
  ⟨fun htext => htext.2.2, fun hlength => ⟨h.1, h.2, hlength⟩⟩

theorem all_isDigit_of_isDecimal (h : ∀ c ∈ digits, isDecimal c = true) :
    digits.all isDigit = true :=
  List.all_eq_true.mpr fun c hc => isDigit_of_isDecimal (h c hc)

/-- A field of decimal digits is a number. -/
theorem numericField_of_digits (h : digits ≠ [] ∧ ∀ c ∈ digits, isDecimal c = true) :
    numericField (some digits) = (intOf digits).map some :=
  if_pos ⟨h.1, all_isDigit_of_isDecimal h.2⟩

end ResiliencyExt.Attribution.RestartAgent
