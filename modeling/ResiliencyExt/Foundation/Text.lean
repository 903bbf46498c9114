import Mathlib.Data.List.DropRight

set_option autoImplicit false

/-!
# Foundation: delimited decimal text

Strings are lists of characters.  The operations are those of Python's `str`
and `int` on ASCII text: `strip`, `int(s)`, `str(n)`, `str(b)` of a byte
string, and a list of words packed into one string behind separators.

A packed list is only ever extended by appending words that each end in the
separator, so the words of a concatenation are the words of its parts
(`words_append`), and the decimal words of numbers read back as the numbers
(`parseInts_entries`).
-/

namespace ResiliencyExt.Foundation.Text

open List

/-! ## Characters and integers -/

/-- ASCII white space, as `str.strip` removes it. -/
def isSpace (c : Char) : Bool :=
  c.toNat = 32 || (9 ≤ c.toNat && c.toNat ≤ 13) || (28 ≤ c.toNat && c.toNat ≤ 31)

/-- `s.strip()` -/
def strip (s : List Char) : List Char :=
  (s.dropWhile isSpace).rdropWhile isSpace

/-- `str(n)` of a non-negative integer. -/
def decimal (n : Nat) : List Char :=
  Nat.toDigits 10 n

/-- The rest of a digit string after its first digits have the value `value`;
a single underscore may stand between two digits. -/
def parseDigits (value : Nat) : List Char → Option Nat
  | [] => some value
  | '_' :: c :: rest =>
    if c.isDigit then parseDigits (10 * value + (c.toNat - '0'.toNat)) rest else none
  | c :: rest =>
    if c.isDigit then parseDigits (10 * value + (c.toNat - '0'.toNat)) rest else none

/-- A digit string begins with a digit. -/
def parseNat : List Char → Option Nat
  | [] => none
  | c :: rest => if c.isDigit then parseDigits (c.toNat - '0'.toNat) rest else none

/-- `int(s)`; `none` stands for the `ValueError`. -/
def parseInt (s : List Char) : Option Int :=
  match strip s with
  | '-' :: rest => (parseNat rest).map fun n : Nat => -(n : Int)
  | '+' :: rest => (parseNat rest).map fun n : Nat => (n : Int)
  | rest => (parseNat rest).map fun n : Nat => (n : Int)

/-- One byte of a byte string as `repr` shows it between single quotes. -/
def escapeByte (c : Char) : List Char :=
  if c = '\\' then ['\\', '\\']
  else if c = '\t' then ['\\', 't']
  else if c = '\n' then ['\\', 'n']
  else if c = '\r' then ['\\', 'r']
  else if 32 ≤ c.toNat && c.toNat < 127 then [c]
  else ['\\', 'x', Nat.digitChar (c.toNat / 16), Nat.digitChar (c.toNat % 16)]

/-- `str(b)` of a byte string: its literal, between double quotes only when it
holds single quotes and no double ones. -/
def bytesLiteral (bytes : List Char) : List Char :=
  if '\'' ∈ bytes ∧ '"' ∉ bytes then
    'b' :: '"' :: bytes.flatMap escapeByte ++ ['"']
  else
    'b' :: '\'' :: (bytes.flatMap fun c => if c = '\'' then ['\\', '\''] else escapeByte c) ++
      ['\'']

variable {c : Char} {s : List Char} (n : Nat) (bytes : List Char) (sep : Char)
    (numbers : List (List Nat)) (ns : List Nat)

theorem isDigit_of_mem_decimal {n : Nat} (h : c ∈ decimal n) : c.isDigit = true :=
  Nat.isDigit_of_mem_toDigits (by decide) (by decide) h

theorem decimal_ne_nil : decimal n ≠ [] :=
  Nat.toDigits_ne_nil

theorem isSpace_of_isDigit (h : c.isDigit = true) : isSpace c = false := by
  simp only [Char.isDigit, Bool.and_eq_true, decide_eq_true_eq, UInt32.le_iff_toNat_le] at h
  simp only [isSpace, Char.toNat, Bool.or_eq_false_iff, Bool.and_eq_false_iff,
    decide_eq_false_iff_not]
  have hzero : '0'.val.toNat = 48 := rfl
  have hnine : '9'.val.toNat = 57 := rfl
  omega

/-- Text without white space at its ends is its own strip. -/
theorem strip_eq_self (h : ∀ c ∈ s, isSpace c = false) : strip s = s := by
  have hleft : s.dropWhile isSpace = s := by
    cases s with
    | nil => rfl
    | cons c rest => simp [h c mem_cons_self]
  rw [strip, hleft, rdropWhile_eq_self_iff]
  intro hne
  simp [h _ (getLast_mem hne)]

theorem strip_decimal : strip (decimal n) = decimal n :=
  strip_eq_self fun _ h => isSpace_of_isDigit (isDigit_of_mem_decimal h)

theorem parseDigits_of_isDigit (h : ∀ c ∈ s, c.isDigit = true) (value : Nat) :
    parseDigits value s = some (Nat.ofDigitChars 10 s value) := by
  induction s generalizing value with
  | nil => simp [parseDigits]
  | cons c rest ih =>
    have hc : c.isDigit = true := h c mem_cons_self
    have hne : c ≠ '_' := by
      rintro rfl
      simp at hc
    rw [parseDigits.eq_3 value c rest (fun _ _ heq => absurd heq hne), if_pos hc,
      ih (fun d hd => h d (mem_cons_of_mem c hd)), Nat.ofDigitChars_cons]

/-- `int(str(n)) = n` -/
theorem parseInt_decimal : parseInt (decimal n) = some (n : Int) := by
  have hvalue : Nat.ofDigitChars 10 (decimal n) 0 = n := Nat.ofDigitChars_ten_toDigits
  cases hdigits : decimal n with
  | nil => exact absurd hdigits (decimal_ne_nil n)
  | cons c rest =>
    have hall : ∀ d ∈ c :: rest, d.isDigit = true :=
      fun d hd => isDigit_of_mem_decimal (n := n) (hdigits ▸ hd)
    have hc : c.isDigit = true := hall c mem_cons_self
    have hrest := parseDigits_of_isDigit (fun d hd => hall d (mem_cons_of_mem c hd))
      (c.toNat - '0'.toNat)
    have hparse : parseNat (c :: rest) = some n := by
      rw [parseNat, if_pos hc, hrest, ← hvalue, hdigits, Nat.ofDigitChars_cons]
      simp
    have hminus : c ≠ '-' := by
      rintro rfl
      simp at hc
    have hplus : c ≠ '+' := by
      rintro rfl
      simp at hc
    have hstrip : strip (c :: rest) = c :: rest := hdigits ▸ strip_decimal n
    simp only [parseInt, hstrip]
    split
    · rename_i heq
      exact absurd (List.cons.inj heq).1 hminus
    · rename_i heq
      exact absurd (List.cons.inj heq).1 hplus
    · rw [hparse]
      rfl

theorem decimal_injective {m n : Nat} (h : decimal m = decimal n) : m = n := by
  have hparse := parseInt_decimal m
  rw [h, parseInt_decimal] at hparse
  exact (Int.ofNat.inj (Option.some.inj hparse)).symm

/-- A larger number is no shorter. -/
theorem length_decimal_mono {m n : Nat} (h : m ≤ n) :
    (decimal m).length ≤ (decimal n).length := by
  have hpos : 0 < (decimal n).length := length_pos_iff.mpr (decimal_ne_nil n)
  have hn := (Nat.length_toDigits_le_iff (by decide) hpos).mp (Nat.le_refl (decimal n).length)
  exact (Nat.length_toDigits_le_iff (by decide) hpos).mpr (Nat.lt_of_le_of_lt h hn)

/-- A byte-string literal begins with a letter and ends in a quote, so there is
nothing to strip. -/
theorem strip_bytesLiteral : ∃ rest, strip (bytesLiteral bytes) = 'b' :: rest := by
  obtain ⟨quote, body, hbody, hspace⟩ : ∃ quote body,
      bytesLiteral bytes = 'b' :: body ++ [quote] ∧ isSpace quote = false := by
    unfold bytesLiteral
    split
    · exact ⟨'"', _, rfl, by decide⟩
    · exact ⟨'\'', _, rfl, by decide⟩
  have hb : isSpace 'b' = false := by decide
  refine ⟨body ++ [quote], ?_⟩
  rw [hbody, strip, cons_append, dropWhile_cons_of_neg (by simp [hb]),
    ← cons_append, rdropWhile_concat_neg _ _ _ (by simp [hspace]),
    cons_append]

theorem strip_bytesLiteral_ne_nil : strip (bytesLiteral bytes) ≠ [] := by
  obtain ⟨rest, hrest⟩ := strip_bytesLiteral bytes
  simp [hrest]

/-- A byte-string literal is not an integer literal. -/
theorem parseInt_bytesLiteral : parseInt (bytesLiteral bytes) = none := by
  obtain ⟨rest, hrest⟩ := strip_bytesLiteral bytes
  have hdigit : 'b'.isDigit = false := by decide
  simp [parseInt, hrest, parseNat, hdigit]

theorem escapeByte_of_isDigit (h : c.isDigit = true) : escapeByte c = [c] := by
  have hbackslash : c ≠ '\\' := by
    rintro rfl
    simp at h
  have htab : c ≠ '\t' := by
    rintro rfl
    simp at h
  have hnewline : c ≠ '\n' := by
    rintro rfl
    simp at h
  have hreturn : c ≠ '\r' := by
    rintro rfl
    simp at h
  have hrange : (32 ≤ c.toNat && c.toNat < 127) = true := by
    simp only [Char.isDigit, Bool.and_eq_true, decide_eq_true_eq, UInt32.le_iff_toNat_le] at h
    have hzero : '0'.val.toNat = 48 := rfl
    have hnine : '9'.val.toNat = 57 := rfl
    simp only [Char.toNat, Bool.and_eq_true, decide_eq_true_eq]
    omega
  rw [escapeByte, if_neg hbackslash, if_neg htab, if_neg hnewline, if_neg hreturn,
    if_pos hrange]

/-- Digits need no escape. -/
theorem bytesLiteral_of_isDigit (h : ∀ c ∈ s, c.isDigit = true) :
    bytesLiteral s = 'b' :: '\'' :: s ++ ['\''] := by
  have hquote : ∀ c ∈ s, c ≠ '\'' := by
    rintro c hc rfl
    simpa using h _ hc
  have hbody : (s.flatMap fun c => if c = '\'' then ['\\', '\''] else escapeByte c) = s := by
    have hmap : (s.flatMap fun c => if c = '\'' then ['\\', '\''] else escapeByte c) =
        s.flatMap fun c => [c] :=
      flatMap_congr fun c hc => by rw [if_neg (hquote c hc), escapeByte_of_isDigit (h c hc)]
    rw [hmap]
    simp
  rw [bytesLiteral, if_neg (fun hmem => hquote _ hmem.1 rfl), hbody]

theorem comma_not_mem_bytesLiteral_decimal : ',' ∉ bytesLiteral (decimal n) := by
  rw [bytesLiteral_of_isDigit fun c hc => isDigit_of_mem_decimal hc]
  have hdigits : ',' ∉ decimal n := by
    intro hmem
    simpa using isDigit_of_mem_decimal hmem
  simp [hdigits]

/-! ## Packed words -/

/-- `sep.join(words)` -/
def join (sep : Char) (words : List (List Char)) : List Char :=
  [sep].intercalate words

/-- `s.rstrip(sep).split(sep)` -/
def unpack (sep : Char) (s : List Char) : List (List Char) :=
  (s.rdropWhile (· == sep)).splitOn sep

/-- The pieces of a packed string that are not blank. -/
def words (sep : Char) (s : List Char) : List (List Char) :=
  (unpack sep s).filter fun word => strip word ≠ []

/-- `[int(r) for r in s.rstrip(sep).split(sep) if r.strip()]` -/
def parseInts (sep : Char) (s : List Char) : Option (List Int) :=
  (words sep s).mapM parseInt

/-- Removing trailing separators removes blank pieces only. -/
theorem words_eq_filter_splitOn (s : List Char) :
    words sep s = (s.splitOn sep).filter fun word => strip word ≠ [] := by
  rw [words, unpack]
  induction s using reverseRecOn with
  | nil => simp
  | append_singleton s c ih =>
    by_cases hc : c = sep
    · subst hc
      rw [rdropWhile_concat_pos _ _ _ (by simp), ih,
        splitOn_append_cons_self, filter_append]
      simp [strip]
    · rw [rdropWhile_concat_neg _ _ _ (by simp [hc])]

/-- Appending behind a separator appends words. -/
theorem words_append_cons (s t : List Char) :
    words sep (s ++ sep :: t) = words sep s ++ words sep t := by
  simp only [words_eq_filter_splitOn, splitOn_append_cons_self, filter_append]

@[simp] theorem words_nil : words sep [] = [] := by
  simp [words_eq_filter_splitOn, strip]

/-- The words packed by `join` are the words that were joined. -/
theorem words_join {sep : Char} {ws : List (List Char)}
    (hsep : ∀ w ∈ ws, sep ∉ w) (hblank : ∀ w ∈ ws, strip w ≠ []) :
    words sep (join sep ws) = ws := by
  cases ws with
  | nil => simp [join]
  | cons w rest =>
    rw [words_eq_filter_splitOn, join, splitOn_intercalate sep hsep (by simp)]
    exact filter_eq_self.mpr fun w hw => by simpa using hblank w hw

/-! ## Strings made of entries -/

/-- One appended entry: the joined words and a closing separator. -/
def entry (sep : Char) (ws : List (List Char)) : List Char :=
  join sep ws ++ [sep]

/-- Text that is empty or ends in the separator. -/
def Closed (sep : Char) (s : List Char) : Prop :=
  s = [] ∨ ∃ body, s = body ++ [sep]

theorem closed_append_entry (s : List Char) (ws : List (List Char)) :
    Closed sep (s ++ entry sep ws) :=
  Or.inr ⟨s ++ join sep ws, by simp [entry]⟩

/-- What is appended to closed text adds its own words. -/
theorem words_append {sep : Char} (h : Closed sep s) (t : List Char) :
    words sep (s ++ t) = words sep s ++ words sep t := by
  rcases h with rfl | ⟨body, rfl⟩
  · simp
  · rw [append_assoc, singleton_append, words_append_cons, words_append_cons]
    simp

theorem words_entry {sep : Char} {ws : List (List Char)}
    (hsep : ∀ w ∈ ws, sep ∉ w) (hblank : ∀ w ∈ ws, strip w ≠ []) :
    words sep (entry sep ws) = ws := by
  rw [entry, words_append_cons, words_join hsep hblank]
  simp

/-- The entries that were appended to a string, one after another. -/
def entries (numbers : List (List Nat)) : List Char :=
  numbers.flatMap fun ns => entry ',' (ns.map decimal)

theorem closed_entries : Closed ',' (entries numbers) := by
  induction numbers using reverseRecOn with
  | nil => exact Or.inl rfl
  | append_singleton init last _ =>
    have h := closed_append_entry ',' (entries init) (last.map decimal)
    simpa [entries] using h

theorem words_decimal_entry : words ',' (entry ',' (ns.map decimal)) = ns.map decimal := by
  refine words_entry ?_ ?_
  · intro w hw hmem
    obtain ⟨n, _, rfl⟩ := mem_map.mp hw
    have hdigit := isDigit_of_mem_decimal hmem
    simp at hdigit
  · intro w hw
    obtain ⟨n, _, rfl⟩ := mem_map.mp hw
    rw [strip_decimal]
    exact decimal_ne_nil n

theorem words_entries : words ',' (entries numbers) = numbers.flatten.map decimal := by
  induction numbers using reverseRecOn with
  | nil => exact words_nil ','
  | append_singleton init last ih =>
    have happend : entries (init ++ [last]) =
        entries init ++ entry ',' (last.map decimal) := by
      simp [entries]
    rw [happend, words_append (closed_entries init), ih, words_decimal_entry]
    simp

theorem comma_not_mem_decimal : ',' ∉ decimal n := by
  intro hmem
  simpa using isDigit_of_mem_decimal hmem

/-- Text behind single numbers is split off from them. -/
theorem splitOn_entries_append {w : List Char} (hw : ',' ∉ w) :
    (entries (ns.map fun n => [n]) ++ w).splitOn ',' = ns.map decimal ++ [w] := by
  induction ns with
  | nil => simpa [entries] using splitOn_eq_singleton hw
  | cons n rest ih =>
    have hcons : entries ((n :: rest).map fun n => [n]) ++ w =
        decimal n ++ ',' :: (entries (rest.map fun n => [n]) ++ w) := by
      simp [entries, entry, join]
    rw [hcons, splitOn_append_cons_self, ih,
      splitOn_eq_singleton (comma_not_mem_decimal n)]
    rfl

/-- Without blank pieces, unpacking finds the words themselves. -/
theorem unpack_entries_singleton {ns : List Nat} (hne : ns ≠ []) :
    unpack ',' (entries (ns.map fun n => [n])) = ns.map decimal := by
  obtain ⟨init, last, rfl⟩ := (eq_nil_or_concat' ns).resolve_left hne
  -- the last number ends in a digit, so `rstrip` removes one separator only
  obtain ⟨digits, c, hlast⟩ :=
    (eq_nil_or_concat' (decimal last)).resolve_left (decimal_ne_nil last)
  have hc : c ≠ ',' := by
    rintro rfl
    exact comma_not_mem_decimal last (by rw [hlast]; simp)
  have hentries : entries ((init ++ [last]).map fun n => [n]) =
      (entries (init.map fun n => [n]) ++ decimal last) ++ [','] := by
    simp [entries, entry, join]
  have hstrip : (entries (init.map fun n => [n]) ++ decimal last).rdropWhile (· == ',') =
      entries (init.map fun n => [n]) ++ decimal last := by
    rw [hlast, ← append_assoc, rdropWhile_concat_neg _ _ _ (by simp [hc])]
  rw [unpack, hentries, rdropWhile_concat_pos _ _ _ (by simp), hstrip,
    splitOn_entries_append init (comma_not_mem_decimal last)]
  simp

theorem mapM_parseInt_decimal :
    (ns.map decimal).mapM parseInt = some (ns.map fun n : Nat => (n : Int)) := by
  induction ns with
  | nil => rfl
  | cons n rest ih => simp [mapM_cons, parseInt_decimal, ih]

/-- Numbers appended in decimal entries read back as they were written. -/
theorem parseInts_entries :
    parseInts ',' (entries numbers) = some (numbers.flatten.map fun n : Nat => (n : Int)) := by
  rw [parseInts, words_entries, mapM_parseInt_decimal]

/-- One word that is not an integer makes the whole string unreadable. -/
theorem parseInts_eq_none {sep : Char} {w : List Char} (hw : w ∈ words sep s)
    (h : parseInt w = none) : parseInts sep s = none := by
  rw [parseInts]
  generalize words sep s = ws at hw
  induction ws with
  | nil => simp at hw
  | cons v rest ih =>
    rw [mapM_cons]
    rcases mem_cons.mp hw with rfl | hmem
    · simp [h]
    · cases parseInt v with
      | none => rfl
      | some n => simp [ih hmem]

end ResiliencyExt.Foundation.Text
