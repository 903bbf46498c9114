import Mathlib.Data.Char
import Mathlib.Data.List.Sort
import Mathlib.Data.Prod.Lex
import ResiliencyExt.Foundation.Dict
import ResiliencyExt.Foundation.Hostlist
import ResiliencyExt.Foundation.Unicode
set_option autoImplicit false

/-!
# Cycle info: node lists

`hostnames_to_slurm_nodelist` writes the short names of the nodes of a cycle as a host
list.  Names are taken apart into a prefix and a number, the numbers of a prefix are kept
by their values, and all of them are written as wide as the widest of them was spelled.
`slurm_sort_addrs` orders addresses by prefix and number.
-/

namespace ResiliencyExt.FaultTolerance.CycleInfo

open Foundation Hostlist Unicode List

/-! ## The source -/

/-- `addr.split(".")[0].strip()` -/
def shortName (addr : List Char) : List Char :=
  strip (addr.takeWhile (· ≠ '.'))

/-- The value of a decimal digit. -/
def digitValue (c : Char) : Nat :=
  match zeros.find? fun base => base ≤ c.toNat && c.toNat ≤ base + 9 with
  | some base => c.toNat - base
  | none => 0

/-- `int(digits)` -/
def intValue (digits : List Char) : Nat :=
  digits.foldl (fun value c => 10 * value + digitValue c) 0

/-- `_parse_hostname_prefix_suffix`: what `^(.*?)(\d+)$` matches.  The end of the pattern is
also before a line end that ends the name, and a point matches no line end. -/
def parseHostnamePrefixSuffix (name : List Char) : Option (List Char × Nat × List Char) :=
  let body := if name.getLast? = some '\n' then name.dropLast else name
  let before := body.rdropWhile isDecimal
  let digits := body.rtakeWhile isDecimal
  if digits = [] ∨ '\n' ∈ before then none else some (before, intValue digits, digits)

/-- `_numbers_to_slurm_ranges` -/
def numbersToSlurmRanges (numbers : List Nat) (pad : Nat) : List (List Char) :=
  (runs numbers).map (rangeText pad)

/-- `by_prefix`: the numbers of each prefix, with one spelling of each. -/
def byPrefix (parsed : List (List Char × Nat × List Char)) :
    Dict (List Char) (Dict Nat (List Char)) :=
  parsed.foldl (fun d p => d.alter p.1 Dict.empty fun nums => nums.set p.2.1 p.2.2) Dict.empty

/-- `pad`: the width of the widest spelling. -/
def padWidth (numToSuffix : Dict Nat (List Char)) (nums : List Nat) : Nat :=
  (nums.map fun n => ((numToSuffix.get? n).getD []).length).foldr max 0

/-- One item of the list: a prefix with its numbers. -/
def prefixItem (before : List Char) (numToSuffix : Dict Nat (List Char)) : List Char :=
  let nums := numToSuffix.keys.insertionSort (· ≤ ·)
  bracketItem before (commaJoin (numbersToSlurmRanges nums (padWidth numToSuffix nums)))

/-- `short_names` -/
def shortNames (addrs : List (List Char)) : List (List Char) :=
  (addrs.filter (· ≠ [])).map shortName

/-- `hostnames_to_slurm_nodelist` -/
def hostnamesToSlurmNodelist (addrs : List (List Char)) : List Char :=
  if shortNames addrs = [] then []
  else
    match (shortNames addrs).mapM parseHostnamePrefixSuffix with
    | none => commaJoin ((shortNames addrs).dedup.insertionSort (· ≤ ·))
    | some parsed =>
      commaJoin (((byPrefix parsed).keys.insertionSort (· ≤ ·)).map fun before =>
        prefixItem before (((byPrefix parsed).get? before).getD Dict.empty))

/-- The sort key of `slurm_sort_addrs`, of a short name. -/
def nameKey (name : List Char) : Nat ×ₗ List Char ×ₗ Nat :=
  match parseHostnamePrefixSuffix name with
  | some (before, n, _) => toLex (0, toLex (before, n))
  | none => toLex (1, toLex (name, 0))

/-- `slurm_sort_addrs` -/
def slurmSortAddrs (addrs : List (List Char)) : List (List Char) :=
  addrs.insertionSort fun a b => nameKey (shortName a) ≤ nameKey (shortName b)

/-- `ranks_to_range_str` -/
def ranksToRangeStr (ranks : List Nat) : List Char :=
  commaJoin ((runs ranks).map (rangeText 0))

/-! ## Taking names apart -/

/-- A name that does not end a line. -/
def Unended (name : List Char) : Prop :=
  name.getLast? ≠ some '\n'

/-- A text that does not end in a digit. -/
def Undigited (before : List Char) : Prop :=
  before.rdropWhile isDecimal = before

variable {before digits : List Char} {c : Char}

theorem parse_eq {name : List Char} (h : Unended name) :
    parseHostnamePrefixSuffix name =
      if name.rtakeWhile isDecimal = [] ∨ '\n' ∈ name.rdropWhile isDecimal then none
      else some (name.rdropWhile isDecimal, intValue (name.rtakeWhile isDecimal),
        name.rtakeWhile isDecimal) := by
  simp only [parseHostnamePrefixSuffix, if_neg h]

/-- The prefix and the digits of a name spell it, and the digits are all it ends in. -/
theorem parse_eq_some {name : List Char} {n : Nat} (h : Unended name)
    (hparse : parseHostnamePrefixSuffix name = some (before, n, digits)) :
    name = before ++ digits ∧ n = intValue digits ∧ digits ≠ [] ∧
      (∀ c ∈ digits, isDecimal c = true) ∧ '\n' ∉ before ∧ Undigited before := by
  rw [parse_eq h] at hparse
  split_ifs at hparse with hnone
  obtain ⟨hdigits, hline⟩ := not_or.mp hnone
  simp only [Option.some.injEq, Prod.mk.injEq] at hparse
  obtain ⟨rfl, rfl, rfl⟩ := hparse
  exact ⟨rdropWhile_append_rtakeWhile.symm, rfl, hdigits,
    fun c hc => mem_rtakeWhile_imp hc, hline, rdropWhile_idempotent _ _⟩

theorem isDecimal_of_isDigit (h : c.isDigit = true) : isDecimal c = true := by
  simp only [Char.isDigit, Bool.and_eq_true, decide_eq_true_eq, UInt32.le_iff_toNat_le] at h
  refine any_eq_true.mpr ⟨0x30, mem_cons_self, ?_⟩
  have hzero : '0'.val.toNat = 48 := rfl
  have hnine : '9'.val.toNat = 57 := rfl
  simp only [Char.toNat, Bool.and_eq_true, decide_eq_true_eq]
  omega

/-- The value of an ASCII digit. -/
theorem digitValue_of_isDigit (h : c.isDigit = true) : digitValue c = c.toNat - '0'.toNat := by
  simp only [Char.isDigit, Bool.and_eq_true, decide_eq_true_eq, UInt32.le_iff_toNat_le] at h
  have hzero : '0'.val.toNat = 48 := rfl
  have hnine : '9'.val.toNat = 57 := rfl
  have hfind : zeros.find? (fun base => base ≤ c.toNat && c.toNat ≤ base + 9) = some 0x30 := by
    refine find?_cons_of_pos ?_
    simp only [Char.toNat, Bool.and_eq_true, decide_eq_true_eq]
    omega
  rw [digitValue, hfind]
  rfl

theorem digitValue_lt (c : Char) : digitValue c < 10 := by
  unfold digitValue
  split
  next base hfind =>
      have hrange := find?_some hfind
      simp only [Bool.and_eq_true, decide_eq_true_eq] at hrange
      omega
  next => exact Nat.succ_pos 9

theorem intValue_concat (digits : List Char) (c : Char) :
    intValue (digits ++ [c]) = 10 * intValue digits + digitValue c := by
  rw [intValue, foldl_append]
  rfl

/-- A number is below the power of ten of its width. -/
theorem intValue_lt (digits : List Char) : intValue digits < Nat.pow 10 digits.length := by
  induction digits using reverseRecOn with
  | nil => exact Nat.succ_pos 0
  | append_singleton digits c ih =>
    have hdigit := digitValue_lt c
    rw [intValue_concat, length_append, length_singleton, Nat.pow_eq, Nat.pow_succ]
    rw [Nat.pow_eq] at ih
    omega

/-- ASCII digits stand for the number they are the decimal digits of. -/
theorem intValue_of_isDigit (h : ∀ c ∈ digits, c.isDigit = true) :
    intValue digits = value digits := by
  induction digits using reverseRecOn with
  | nil => rfl
  | append_singleton digits c ih =>
    have hc : c.isDigit = true := h c (mem_append_right _ mem_cons_self)
    rw [intValue_concat, ih fun d hd => h d (mem_append_left _ hd),
      digitValue_of_isDigit hc, value, value, Nat.ofDigitChars_append]
    rfl

/-- A number is no wider than its spelling. -/
theorem length_decimal_intValue (h : digits ≠ []) :
    (Text.decimal (intValue digits)).length ≤ digits.length :=
  (Nat.length_toDigits_le_iff (by decide) (length_pos_of_ne_nil h)).mpr
    (intValue_lt digits)

theorem rdropWhile_append_of_isDecimal (before : List Char)
    (h : ∀ c ∈ digits, isDecimal c = true) :
    (before ++ digits).rdropWhile isDecimal = before.rdropWhile isDecimal := by
  induction digits using reverseRecOn with
  | nil => rw [append_nil]
  | append_singleton digits c ih =>
    have hc : isDecimal c = true := h c (mem_append_right _ mem_cons_self)
    rw [← append_assoc, rdropWhile_concat_pos _ _ _ hc,
      ih fun d hd => h d (mem_append_left _ hd)]

theorem eq_of_digitValue_eq {d : Char} (hc : c.isDigit = true) (hd : d.isDigit = true)
    (h : digitValue c = digitValue d) : c = d := by
  rw [digitValue_of_isDigit hc, digitValue_of_isDigit hd] at h
  simp only [Char.isDigit, Bool.and_eq_true, decide_eq_true_eq, UInt32.le_iff_toNat_le] at hc hd
  have hzero : '0'.val.toNat = 48 := rfl
  have hnat : c.toNat = d.toNat := by
    simp only [Char.toNat] at h ⊢
    omega
  exact Char.toNat_inj.mp hnat

/-- ASCII digits of one width that stand for one number are the same. -/
theorem eq_of_intValue_eq {s : List Char} : ∀ {t : List Char},
    (∀ c ∈ s, c.isDigit = true) → (∀ c ∈ t, c.isDigit = true) → s.length = t.length →
    intValue s = intValue t → s = t := by
  induction s using reverseRecOn with
  | nil =>
    intro t _ _ hlength _
    exact (length_eq_zero_iff.mp hlength.symm).symm
  | append_singleton s c ih =>
    intro t hs ht hlength hvalue
    rcases eq_nil_or_concat' t with rfl | ⟨t, d, rfl⟩
    · simp at hlength
    · have hc := digitValue_lt c
      have hd := digitValue_lt d
      rw [intValue_concat, intValue_concat] at hvalue
      have hrest : s = t := by
        refine ih (fun e he => hs e (mem_append_left _ he))
          (fun e he => ht e (mem_append_left _ he)) ?_ (by omega)
        simpa using hlength
      have hlast : c = d :=
        eq_of_digitValue_eq (hs c (mem_append_right _ mem_cons_self))
          (ht d (mem_append_right _ mem_cons_self)) (by omega)
      rw [hrest, hlast]

/-- A number written as wide as it was spelled is spelled as it was. -/
theorem zfill_intValue (h : ∀ c ∈ digits, c.isDigit = true) (hne : digits ≠ []) :
    zfill digits.length (intValue digits) = digits := by
  have hwidth := length_decimal_intValue hne
  refine eq_of_intValue_eq (fun c hc => isDigit_of_mem_zfill hc) h ?_ ?_
  · rw [length_zfill]
    omega
  · rw [intValue_of_isDigit fun c hc => isDigit_of_mem_zfill hc, value_zfill]

/-- A name put together from a prefix and a number is taken apart into them. -/
theorem parse_append_zfill (hbefore : Undigited before) (hline : '\n' ∉ before) (width n : Nat) :
    parseHostnamePrefixSuffix (before ++ zfill width n) =
      some (before, n, zfill width n) := by
  have hdecimal : ∀ c ∈ zfill width n, isDecimal c = true :=
    fun c hc => isDecimal_of_isDigit (isDigit_of_mem_zfill hc)
  have hunended : Unended (before ++ zfill width n) := by
    rw [Unended, getLast?_append_of_ne_nil _ (zfill_ne_nil width n)]
    intro hlast
    exact not_mem_zfill rfl (mem_of_getLast? hlast)
  have hdrop : (before ++ zfill width n).rdropWhile isDecimal = before :=
    (rdropWhile_append_of_isDecimal before hdecimal).trans hbefore
  have htake : (before ++ zfill width n).rtakeWhile isDecimal = zfill width n := by
    have hsplit : before ++ (before ++ zfill width n).rtakeWhile isDecimal =
        before ++ zfill width n :=
      calc before ++ (before ++ zfill width n).rtakeWhile isDecimal
          = (before ++ zfill width n).rdropWhile isDecimal ++
              (before ++ zfill width n).rtakeWhile isDecimal := by rw [hdrop]
        _ = before ++ zfill width n := rdropWhile_append_rtakeWhile
    exact append_cancel_left hsplit
  have hvalue : intValue (zfill width n) = n := by
    rw [intValue_of_isDigit fun c hc => isDigit_of_mem_zfill hc, value_zfill]
  rw [parse_eq hunended, hdrop, htake, hvalue,
    if_neg (not_or.mpr ⟨zfill_ne_nil width n, hline⟩)]

/-- The key of a name put together from a prefix and a number. -/
theorem nameKey_append_zfill (hbefore : Undigited before) (hline : '\n' ∉ before) (width n : Nat) :
    nameKey (before ++ zfill width n) = toLex (0, toLex (before, n)) := by
  rw [nameKey, parse_append_zfill hbefore hline]

example : hostnamesToSlurmNodelist ["node9".toList, "node10".toList] = "node[09-10]".toList := by
  decide +kernel

end ResiliencyExt.FaultTolerance.CycleInfo
