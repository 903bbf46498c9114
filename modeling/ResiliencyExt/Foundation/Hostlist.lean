import ResiliencyExt.Foundation.Text
set_option autoImplicit false

/-!
# Foundation: host lists in bracket notation

A host list is a list of items behind commas.  An item is a name, or a name with numbers
between brackets: `node[001-003,005]` stands for `node001`, `node002`, `node003` and
`node005`.  The numbers of a range are written as wide as its first.

Ascending runs of numbers are written as ranges and read back as the numbers, in their
order, whatever that order is.
-/

namespace ResiliencyExt.Foundation.Hostlist

open Text List

/-! ## Numbers -/

/-- `str(n).zfill(width)` -/
def zfill (width n : Nat) : List Char :=
  replicate (width - (decimal n).length) '0' ++ decimal n

/-- The number that a text of ASCII digits stands for. -/
def value (digits : List Char) : Nat :=
  Nat.ofDigitChars 10 digits 0

variable {n : Nat} {c : Char} {numbers : List Nat} {text before : List Char}
    {words : List (List Char)} (width : Nat) (run : Nat × Nat)

@[simp] theorem value_zfill (n : Nat) : value (zfill width n) = n := by
  rw [value, zfill, Nat.ofDigitChars_append, Nat.ofDigitChars_replicate_zero, Nat.mul_zero]
  exact Nat.ofDigitChars_ten_toDigits

theorem length_zfill (n : Nat) : (zfill width n).length = max width (decimal n).length := by
  rw [zfill, length_append, length_replicate]
  omega

theorem isDigit_of_mem_zfill {width : Nat} (h : c ∈ zfill width n) : c.isDigit = true := by
  rcases mem_append.mp h with h | h
  · rw [eq_of_mem_replicate h]
    rfl
  · exact isDigit_of_mem_decimal h

theorem zfill_ne_nil (n : Nat) : zfill width n ≠ [] :=
  append_ne_nil_of_right_ne_nil _ (decimal_ne_nil n)

theorem not_mem_zfill {width : Nat} (h : c.isDigit = false) : c ∉ zfill width n :=
  fun hmem => absurd ((isDigit_of_mem_zfill hmem).symm.trans h) Bool.noConfusion

theorem length_decimal_mono {m : Nat} (h : m ≤ n) : (decimal m).length ≤ (decimal n).length := by
  have hpos : 0 < (decimal n).length := length_pos_of_ne_nil (decimal_ne_nil n)
  have hn : n < 10 ^ (decimal n).length :=
    (Nat.length_toDigits_le_iff (by decide) hpos).mp (le_refl _)
  exact (Nat.length_toDigits_le_iff (by decide) hpos).mpr (lt_of_le_of_lt h hn)

/-- A number is as wide as the first of its range asks for. -/
theorem zfill_length_zfill {width m : Nat} (h : m ≤ n) :
    zfill (zfill width m).length n = zfill width n := by
  have hlen := length_decimal_mono h
  have hpad : max width (decimal m).length - (decimal n).length =
      width - (decimal n).length := by omega
  rw [length_zfill, zfill, zfill, hpad]

/-! ## Ranges -/

/-- The ascending runs of a list that goes on after `last`, the first of them begun at
`start`. -/
def runsFrom (start last : Nat) : List Nat → List (Nat × Nat)
  | [] => [(start, last)]
  | n :: rest =>
    if n = last + 1 then runsFrom start n rest else (start, last) :: runsFrom n n rest

/-- The ascending runs of a list. -/
def runs : List Nat → List (Nat × Nat)
  | [] => []
  | n :: rest => runsFrom n n rest

/-- The numbers of a run. -/
def runNumbers (run : Nat × Nat) : List Nat :=
  range' run.1 (run.2 + 1 - run.1)

theorem runNumbers_succ {start last : Nat} (h : start ≤ last) :
    runNumbers (start, last + 1) = runNumbers (start, last) ++ [last + 1] := by
  have hlen : last + 1 + 1 - start = last + 1 - start + 1 := by omega
  have hend : start + (last + 1 - start) = last + 1 := by omega
  simp only [runNumbers]
  rw [hlen, range'_concat, Nat.one_mul, hend]

theorem flatMap_runsFrom (rest : List Nat) : ∀ {start last : Nat}, start ≤ last →
    (runsFrom start last rest).flatMap runNumbers = runNumbers (start, last) ++ rest := by
  induction rest with
  | nil => simp [runsFrom]
  | cons n rest ih =>
    intro start last hle
    unfold runsFrom
    split_ifs with hnext
    · rw [hnext, ih (by omega), runNumbers_succ hle, append_assoc,
        singleton_append]
    · rw [flatMap_cons, ih (le_refl n)]
      simp [runNumbers]

/-- The runs hold the numbers of the list, in its order. -/
theorem flatMap_runs (numbers : List Nat) : (runs numbers).flatMap runNumbers = numbers := by
  cases numbers with
  | nil => rfl
  | cons n rest =>
    rw [runs, flatMap_runsFrom rest (le_refl n)]
    simp [runNumbers]

theorem runs_ne_nil (h : numbers ≠ []) : runs numbers ≠ [] := by
  intro hnil
  have hnumbers := flatMap_runs numbers
  rw [hnil] at hnumbers
  exact h hnumbers.symm

/-- A run as it is written, its numbers `width` wide. -/
def rangeText (width : Nat) (run : Nat × Nat) : List Char :=
  if run.1 ≠ run.2 then zfill width run.1 ++ '-' :: zfill width run.2 else zfill width run.1

/-- The first number of a range, as it is written. -/
def lower (part : List Char) : List Char :=
  part.takeWhile (· ≠ '-')

/-- The last number of a range, as it is written. -/
def upper (part : List Char) : List Char :=
  match part.dropWhile (· ≠ '-') with
  | [] => part
  | _ :: digits => digits

/-- The numbers a range stands for. -/
def rangeNumbers (part : List Char) : List Nat :=
  runNumbers (value (lower part), value (upper part))

theorem ne_dash_of_mem_zfill {width : Nat} (h : c ∈ zfill width n) :
    decide (c ≠ '-') = true := by
  refine decide_eq_true fun heq => ?_
  rw [heq] at h
  exact not_mem_zfill rfl h

theorem lower_rangeText : lower (rangeText width run) = zfill width run.1 := by
  unfold rangeText lower
  split
  · rw [takeWhile_append_of_pos fun c hc => ne_dash_of_mem_zfill hc]
    simp
  · exact takeWhile_eq_self_iff.mpr fun c hc => ne_dash_of_mem_zfill hc

theorem value_upper_rangeText : value (upper (rangeText width run)) = run.2 := by
  unfold rangeText upper
  split_ifs with hrun
  · rw [dropWhile_append_of_pos fun c hc => ne_dash_of_mem_zfill hc]
    simp
  · have hall : (zfill width run.1).dropWhile (· ≠ '-') = [] :=
      dropWhile_eq_nil_iff.mpr fun c hc => ne_dash_of_mem_zfill hc
    rw [hall, value_zfill]
    exact not_not.mp hrun

theorem rangeNumbers_rangeText : rangeNumbers (rangeText width run) = runNumbers run := by
  rw [rangeNumbers, lower_rangeText, value_zfill, value_upper_rangeText]

theorem rangeText_ne_nil : rangeText width run ≠ [] := by
  unfold rangeText
  split
  · exact append_ne_nil_of_left_ne_nil (zfill_ne_nil _ _) _
  · exact zfill_ne_nil _ _

theorem digit_or_dash_of_mem_rangeText {width : Nat} {run : Nat × Nat}
    (h : c ∈ rangeText width run) : c.isDigit = true ∨ c = '-' := by
  unfold rangeText at h
  split at h
  · rcases mem_append.mp h with h | h
    · exact .inl (isDigit_of_mem_zfill h)
    · exact (mem_cons.mp h).symm.imp_left isDigit_of_mem_zfill
  · exact .inl (isDigit_of_mem_zfill h)

theorem not_mem_rangeText {width : Nat} {run : Nat × Nat} (hdigit : c.isDigit = false)
    (hdash : c ≠ '-') : c ∉ rangeText width run := by
  intro h
  rcases digit_or_dash_of_mem_rangeText h with h | h
  · exact absurd (h.symm.trans hdigit) Bool.noConfusion
  · exact hdash h

/-- `",".join(words)` -/
def commaJoin (words : List (List Char)) : List Char :=
  intercalate [','] words

/-- The numbers of ranges behind commas. -/
def expandNumbers (text : List Char) : List Nat :=
  if text = [] then [] else (text.splitOn ',').flatMap rangeNumbers

theorem splitOn_commaJoin_ranges (hne : numbers ≠ []) (width : Nat) :
    (commaJoin ((runs numbers).map (rangeText width))).splitOn ',' =
      (runs numbers).map (rangeText width) := by
  refine splitOn_intercalate ',' (fun part hpart => ?_) ?_
  · obtain ⟨run, _, rfl⟩ := mem_map.mp hpart
    exact not_mem_rangeText rfl (by decide)
  · simpa using runs_ne_nil hne

theorem commaJoin_ranges_ne_nil (hne : numbers ≠ []) (width : Nat) :
    commaJoin ((runs numbers).map (rangeText width)) ≠ [] := by
  intro hnil
  have hsplit := splitOn_commaJoin_ranges hne width
  rw [hnil] at hsplit
  have hmem : [] ∈ (runs numbers).map (rangeText width) := by
    rw [← hsplit]
    exact mem_cons_self
  obtain ⟨run, _, hrun⟩ := mem_map.mp hmem
  exact rangeText_ne_nil width run hrun

/-- Numbers written as ranges read back as they were, in their order. -/
theorem expandNumbers_ranges (numbers : List Nat) :
    expandNumbers (commaJoin ((runs numbers).map (rangeText width))) = numbers := by
  rcases eq_or_ne numbers [] with rfl | hne
  · rfl
  · rw [expandNumbers, if_neg (commaJoin_ranges_ne_nil hne width),
      splitOn_commaJoin_ranges hne width, flatMap_map]
    simp only [rangeNumbers_rangeText]
    exact flatMap_runs numbers

/-! ## Names -/

/-- The numbers of a range as they are written in names. -/
def rangeNames (part : List Char) : List (List Char) :=
  (rangeNumbers part).map (zfill (lower part).length)

theorem rangeNames_rangeText :
    rangeNames (rangeText width run) = (runNumbers run).map (zfill width) := by
  rw [rangeNames, rangeNumbers_rangeText, lower_rangeText]
  refine map_congr_left fun n hn => zfill_length_zfill ?_
  obtain ⟨i, _, rfl⟩ := mem_range'.mp hn
  omega

/-- The items of a host list, after an open bracket or not. -/
def items : Bool → List Char → List (List Char)
  | _, [] => [[]]
  | inside, c :: rest =>
    if c = ',' ∧ inside = false then [] :: items false rest
    else (items (if c = '[' then true else if c = ']' then false else inside) rest).modifyHead
      (c :: ·)

/-- The names of one item: what is before and behind the brackets, around each number. -/
def expandItem (item : List Char) : List (List Char) :=
  match item.dropWhile (· ≠ '[') with
  | [] => [item]
  | _ :: rest =>
    ((rest.takeWhile (· ≠ ']')).splitOn ',').flatMap fun part =>
      (rangeNames part).map fun digits =>
        item.takeWhile (· ≠ '[') ++ digits ++ (rest.dropWhile (· ≠ ']')).drop 1

/-- The names of a host list. -/
def expand (text : List Char) : List (List Char) :=
  if text = [] then [] else (items false text).flatMap expandItem

/-- Nothing in a plain text has a meaning in a host list. -/
def Plain (text : List Char) : Prop :=
  ∀ c ∈ text, c ≠ ',' ∧ c ≠ '[' ∧ c ≠ ']'

theorem plain_of_all (h : text.all (fun c => c != ',' && c != '[' && c != ']') = true) :
    Plain text := by
  intro c hc
  have hplain := all_eq_true.mp h c hc
  simp only [Bool.and_eq_true, bne_iff_ne, and_assoc] at hplain
  exact hplain

/-- Nothing between brackets ends them. -/
def Bracketed (text : List Char) : Prop :=
  ∀ c ∈ text, c ≠ '[' ∧ c ≠ ']'

/-- A name with numbers between brackets. -/
def bracketItem (before numbers : List Char) : List Char :=
  before ++ '[' :: numbers ++ [']']

theorem items_plain (h : Plain text) (rest : List Char) :
    items false (text ++ rest) = (items false rest).modifyHead (text ++ ·) := by
  induction text with
  | nil => exact (congrFun modifyHead_id (items false rest)).symm
  | cons c text ih =>
    obtain ⟨hcomma, hopen, hclose⟩ := h c mem_cons_self
    rw [cons_append, items, if_neg fun hc => hcomma hc.1, if_neg hopen, if_neg hclose,
      ih fun d hd => h d (mem_cons_of_mem c hd), modifyHead_modifyHead]
    rfl

theorem items_bracketed (h : Bracketed text) (rest : List Char) :
    items true (text ++ rest) = (items true rest).modifyHead (text ++ ·) := by
  induction text with
  | nil => exact (congrFun modifyHead_id (items true rest)).symm
  | cons c text ih =>
    obtain ⟨hopen, hclose⟩ := h c mem_cons_self
    rw [cons_append, items, if_neg fun hc => Bool.noConfusion hc.2, if_neg hopen,
      if_neg hclose, ih fun d hd => h d (mem_cons_of_mem c hd),
      modifyHead_modifyHead]
    rfl

/-- No comma of the item is one between items. -/
def IsItem (item : List Char) : Prop :=
  ∀ rest, items false (item ++ rest) = (items false rest).modifyHead (item ++ ·)

theorem isItem_of_plain (h : Plain text) : IsItem text :=
  items_plain h

theorem isItem_bracketItem {numbers : List Char} (hbefore : Plain before)
    (hnumbers : Bracketed numbers) : IsItem (bracketItem before numbers) := by
  intro rest
  have hclosed : items true (']' :: rest) = (items false rest).modifyHead (']' :: ·) := rfl
  have hopened : items false ('[' :: (numbers ++ ']' :: rest)) =
      (items true (numbers ++ ']' :: rest)).modifyHead ('[' :: ·) := rfl
  simp only [bracketItem, append_assoc, cons_append, nil_append]
  rw [items_plain hbefore, hopened, items_bracketed hnumbers, hclosed]
  simp only [modifyHead_modifyHead]
  refine congrArg (fun g => modifyHead g (items false rest)) (funext fun text => ?_)
  simp

/-- Items behind commas are told apart. -/
theorem items_commaJoin (hitems : ∀ w ∈ words, IsItem w) (hne : words ≠ []) :
    items false (commaJoin words) = words := by
  induction words with
  | nil => exact absurd rfl hne
  | cons w words ih =>
    have hw : IsItem w := hitems w mem_cons_self
    cases words with
    | nil =>
      have hlone := hw []
      simpa [items, commaJoin] using hlone
    | cons w' words =>
      have hrest := ih (fun v hv => hitems v (mem_cons_of_mem w hv)) (by simp)
      have hjoin : commaJoin (w :: w' :: words) = w ++ ',' :: commaJoin (w' :: words) := by
        simp [commaJoin, intercalate_cons_cons]
      have hcomma : items false (',' :: commaJoin (w' :: words)) =
          [] :: items false (commaJoin (w' :: words)) := rfl
      rw [hjoin, hw, hcomma, hrest, modifyHead_cons, append_nil]

/-- A host list stands for the names of its items. -/
theorem expand_commaJoin (hitems : ∀ w ∈ words, IsItem w) (hnil : ∀ w ∈ words, w ≠ []) :
    expand (commaJoin words) = words.flatMap expandItem := by
  rcases eq_or_ne words [] with rfl | hne
  · rfl
  · have htext : commaJoin words ≠ [] := by
      intro htext
      have hwords := items_commaJoin hitems hne
      rw [htext] at hwords
      exact hnil [] (by rw [← hwords]; exact mem_cons_self) rfl
    rw [expand, if_neg htext, items_commaJoin hitems hne]

theorem dropWhile_plain (h : Plain text) : text.dropWhile (· ≠ '[') = [] :=
  dropWhile_eq_nil_iff.mpr fun c hc => decide_eq_true (h c hc).2.1

theorem expandItem_plain (h : Plain text) : expandItem text = [text] := by
  rw [expandItem, dropWhile_plain h]

/-- The names of an item with brackets at its end. -/
theorem expandItem_bracketItem {numbers : List Char} (hbefore : Plain before)
    (hnumbers : Bracketed numbers) : expandItem (bracketItem before numbers) =
      (numbers.splitOn ',').flatMap fun part =>
        (rangeNames part).map fun digits => before ++ digits := by
  have hopen : ∀ c ∈ before, decide (c ≠ '[') = true :=
    fun c hc => decide_eq_true (hbefore c hc).2.1
  have hclose : ∀ c ∈ numbers, decide (c ≠ ']') = true :=
    fun c hc => decide_eq_true (hnumbers c hc).2
  have hdrop : (bracketItem before numbers).dropWhile (· ≠ '[') = '[' :: numbers ++ [']'] := by
    rw [bracketItem, append_assoc, dropWhile_append_of_pos hopen]
    rfl
  have htake : (bracketItem before numbers).takeWhile (· ≠ '[') = before := by
    rw [bracketItem, append_assoc, takeWhile_append_of_pos hopen]
    simp
  have hinside : (numbers ++ [']']).takeWhile (· ≠ ']') = numbers := by
    rw [takeWhile_append_of_pos hclose]
    simp
  have hbehind : (numbers ++ [']']).dropWhile (· ≠ ']') = [']'] := by
    rw [dropWhile_append_of_pos hclose]
    simp
  simp only [expandItem, hdrop, htake, cons_append, hinside, hbehind, drop_one,
    tail_cons, append_nil]

theorem not_mem_commaJoin (hcomma : c ≠ ',') (h : ∀ w ∈ words, c ∉ w) : c ∉ commaJoin words := by
  induction words with
  | nil => exact not_mem_nil
  | cons w words ih =>
    cases words with
    | nil => simpa [commaJoin] using h w mem_cons_self
    | cons w' words =>
      have hrest := ih fun v hv => h v (mem_cons_of_mem w hv)
      have hw := h w mem_cons_self
      rw [commaJoin] at hrest ⊢
      rw [intercalate_cons_cons]
      simp [hw, hcomma, hrest]

theorem bracketed_ranges (numbers : List Nat) :
    Bracketed (commaJoin ((runs numbers).map (rangeText width))) := by
  have hnone : ∀ c : Char, c.isDigit = false → c ≠ '-' → c ≠ ',' →
      c ∉ commaJoin ((runs numbers).map (rangeText width)) := by
    intro c hdigit hdash hcomma
    refine not_mem_commaJoin hcomma fun part hpart => ?_
    obtain ⟨run, _, rfl⟩ := mem_map.mp hpart
    exact not_mem_rangeText hdigit hdash
  intro c hc
  constructor
  · rintro rfl
    exact hnone _ rfl (by decide) (by decide) hc
  · rintro rfl
    exact hnone _ rfl (by decide) (by decide) hc

/-- The names of numbers written as ranges between brackets. -/
theorem expandItem_ranges (hbefore : Plain before) (width : Nat) (hne : numbers ≠ []) :
    expandItem (bracketItem before (commaJoin ((runs numbers).map (rangeText width)))) =
      numbers.map fun n => before ++ zfill width n := by
  rw [expandItem_bracketItem hbefore (bracketed_ranges width numbers),
    splitOn_commaJoin_ranges hne, flatMap_map]
  simp only [rangeNames_rangeText, map_map]
  rw [← map_flatMap, flatMap_runs]
  rfl

end ResiliencyExt.Foundation.Hostlist
