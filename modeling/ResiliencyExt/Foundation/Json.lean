import Mathlib.Data.List.Basic
import Mathlib.Tactic.Linarith

set_option autoImplicit false

/-!
# Foundation: JSON documents

The documents of Python's `json` module: `dumps` writes with the separators
`(",", ":")` and escapes every character outside printable ASCII, `loads` reads
any document.

A value is `Readable` when the reader gets it back from what the writer made of
it, whatever text follows.  Strings are readable, and lists and dictionaries are
as soon as their members are, so that a document made of these is read back
(`loads_dumps`).
-/

namespace ResiliencyExt.Foundation

open List
open Option (bind_eq_bind bind_some)

/-- A JSON value.  A number is kept as the literal that stands for it. -/
inductive Json where
  | null
  | bool (value : Bool)
  | number (literal : List Char)
  | str (text : List Char)
  | list (items : List Json)
  | dict (entries : List (List Char × Json))
deriving Repr

namespace Json

/-! ## Writing -/

/-- `"{:04x}".format(n)` of a number of at most 16 bits. -/
def hex4 (n : Nat) : List Char :=
  [Nat.digitChar (n / 4096), Nat.digitChar (n / 256 % 16), Nat.digitChar (n / 16 % 16),
    Nat.digitChar (n % 16)]

/-- A character inside a string; above 16 bits it is a pair of surrogates. -/
def escapeChar (c : Char) : List Char :=
  if c = '"' then ['\\', '"']
  else if c = '\\' then ['\\', '\\']
  else if c = '\n' then ['\\', 'n']
  else if c = '\r' then ['\\', 'r']
  else if c = '\t' then ['\\', 't']
  else if c.toNat = 8 then ['\\', 'b']
  else if c.toNat = 12 then ['\\', 'f']
  else if 32 ≤ c.toNat ∧ c.toNat ≤ 126 then [c]
  else if c.toNat < 0x10000 then '\\' :: 'u' :: hex4 c.toNat
  else
    '\\' :: 'u' :: hex4 (0xd800 + (c.toNat - 0x10000) / 1024) ++
      '\\' :: 'u' :: hex4 (0xdc00 + (c.toNat - 0x10000) % 1024)

def dumpsStr (text : List Char) : List Char :=
  '"' :: (text.flatMap escapeChar ++ ['"'])

mutual

/-- `json.dumps(value, separators=(",", ":"))` -/
def dumps : Json → List Char
  | .null => ['n', 'u', 'l', 'l']
  | .bool true => ['t', 'r', 'u', 'e']
  | .bool false => ['f', 'a', 'l', 's', 'e']
  | .number literal => literal
  | .str text => dumpsStr text
  | .list [] => ['[', ']']
  | .list (item :: items) => '[' :: (dumps item ++ dumpsItems items)
  | .dict [] => ['{', '}']
  | .dict ((key, value) :: entries) =>
    '{' :: (dumpsStr key ++ ':' :: (dumps value ++ dumpsEntries entries))

/-- The items after the first one, and the end of the list. -/
def dumpsItems : List Json → List Char
  | [] => [']']
  | item :: items => ',' :: (dumps item ++ dumpsItems items)

/-- The entries after the first one, and the end of the dictionary. -/
def dumpsEntries : List (List Char × Json) → List Char
  | [] => ['}']
  | (key, value) :: entries =>
    ',' :: (dumpsStr key ++ ':' :: (dumps value ++ dumpsEntries entries))

end

/-! ## Reading -/

def isSpace (c : Char) : Bool :=
  c = ' ' || c = '\t' || c = '\n' || c = '\r'

def skipSpace (text : List Char) : List Char :=
  text.dropWhile isSpace

def hexValue (c : Char) : Option Nat :=
  if c.isDigit then some (c.toNat - '0'.toNat)
  else if 'a' ≤ c ∧ c ≤ 'f' then some (c.toNat - 'a'.toNat + 10)
  else if 'A' ≤ c ∧ c ≤ 'F' then some (c.toNat - 'A'.toNat + 10)
  else none

def readHex4 : List Char → Option (Nat × List Char)
  | a :: b :: c :: d :: rest => do
    let a ← hexValue a
    let b ← hexValue b
    let c ← hexValue c
    let d ← hexValue d
    some (a * 4096 + b * 256 + c * 16 + d, rest)
  | _ => none

/-- What stands after `\u`.  Texts are made of Unicode scalar values, so a
surrogate without its partner does not read. -/
def readUnicode (text : List Char) : Option (Char × List Char) := do
  let (high, rest) ← readHex4 text
  if 0xd800 ≤ high ∧ high ≤ 0xdbff then
    match rest with
    | '\\' :: 'u' :: rest => do
      let (low, rest) ← readHex4 rest
      if 0xdc00 ≤ low ∧ low ≤ 0xdfff then
        some (Char.ofNat (0x10000 + (high - 0xd800) * 1024 + (low - 0xdc00)), rest)
      else none
    | _ => none
  else if 0xdc00 ≤ high ∧ high ≤ 0xdfff then none
  else some (Char.ofNat high, rest)

/-- What stands after a backslash. -/
def readEscape : List Char → Option (Char × List Char)
  | [] => none
  | c :: rest =>
    if c = 'u' then readUnicode rest
    else if c = '"' ∨ c = '\\' ∨ c = '/' then some (c, rest)
    else if c = 'b' then some (Char.ofNat 8, rest)
    else if c = 'f' then some (Char.ofNat 12, rest)
    else if c = 'n' then some ('\n', rest)
    else if c = 'r' then some ('\r', rest)
    else if c = 't' then some ('\t', rest)
    else none

/-- The characters of a string up to its closing quote; control characters are
not allowed. -/
def readChars : Nat → List Char → Option (List Char × List Char)
  | 0, _ => none
  | _ + 1, [] => none
  | fuel + 1, c :: rest =>
    if c = '"' then some ([], rest)
    else if c = '\\' then do
      let (c, rest) ← readEscape rest
      let (text, rest) ← readChars fuel rest
      some (c :: text, rest)
    else if c.toNat < 32 then none
    else do
      let (text, rest) ← readChars fuel rest
      some (c :: text, rest)

/-- A string, from its opening quote on. -/
def readStr : List Char → Option (List Char × List Char)
  | '"' :: rest => readChars (rest.length + 1) rest
  | _ => none

/-- The longest number literal the text begins with. -/
def readNumber (text : List Char) : Option (List Char × List Char) := do
  let (sign, rest) := match text with
    | '-' :: rest => (['-'], rest)
    | _ => ([], text)
  let (int, rest) ← match rest with
    | '0' :: rest => some (['0'], rest)
    | _ =>
      if (rest.takeWhile Char.isDigit).isEmpty then none
      else some (rest.takeWhile Char.isDigit, rest.dropWhile Char.isDigit)
  let (fraction, rest) := match rest with
    | '.' :: digits =>
      if (digits.takeWhile Char.isDigit).isEmpty then ([], rest)
      else ('.' :: digits.takeWhile Char.isDigit, digits.dropWhile Char.isDigit)
    | _ => ([], rest)
  let (exponent, rest) := match rest with
    | c :: tail =>
      if c = 'e' ∨ c = 'E' then
        let (sign, digits) := match tail with
          | '+' :: digits => (['+'], digits)
          | '-' :: digits => (['-'], digits)
          | _ => ([], tail)
        if (digits.takeWhile Char.isDigit).isEmpty then ([], rest)
        else (c :: sign ++ digits.takeWhile Char.isDigit, digits.dropWhile Char.isDigit)
      else ([], rest)
    | [] => ([], rest)
  some (sign ++ int ++ fraction ++ exponent, rest)

/-- A value that is neither a string nor a container. -/
def readLiteral (text : List Char) : Option (Json × List Char) :=
  match text with
  | 'n' :: 'u' :: 'l' :: 'l' :: rest => some (.null, rest)
  | 't' :: 'r' :: 'u' :: 'e' :: rest => some (.bool true, rest)
  | 'f' :: 'a' :: 'l' :: 's' :: 'e' :: rest => some (.bool false, rest)
  | 'N' :: 'a' :: 'N' :: rest => some (.number ['N', 'a', 'N'], rest)
  | 'I' :: 'n' :: 'f' :: 'i' :: 'n' :: 'i' :: 't' :: 'y' :: rest =>
    some (.number ['I', 'n', 'f', 'i', 'n', 'i', 't', 'y'], rest)
  | '-' :: 'I' :: 'n' :: 'f' :: 'i' :: 'n' :: 'i' :: 't' :: 'y' :: rest =>
    some (.number ['-', 'I', 'n', 'f', 'i', 'n', 'i', 't', 'y'], rest)
  | _ => (readNumber text).map fun (literal, rest) => (.number literal, rest)

mutual

def readValue : Nat → List Char → Option (Json × List Char)
  | 0, _ => none
  | _ + 1, [] => none
  | fuel + 1, c :: rest =>
    if c = '"' then do
      let (text, rest) ← readStr (c :: rest)
      some (.str text, rest)
    else if c = '[' then
      match skipSpace rest with
      | ']' :: rest => some (.list [], rest)
      | rest => do
        let (items, rest) ← readItems fuel rest
        some (.list items, rest)
    else if c = '{' then
      match skipSpace rest with
      | '}' :: rest => some (.dict [], rest)
      | rest => do
        let (entries, rest) ← readEntries fuel rest
        some (.dict entries, rest)
    else readLiteral (c :: rest)

/-- The items of a list up to its closing bracket. -/
def readItems : Nat → List Char → Option (List Json × List Char)
  | 0, _ => none
  | fuel + 1, text => do
    let (item, rest) ← readValue fuel text
    match skipSpace rest with
    | ']' :: rest => some ([item], rest)
    | ',' :: rest => do
      let (items, rest) ← readItems fuel (skipSpace rest)
      some (item :: items, rest)
    | _ => none

/-- The entries of a dictionary up to its closing brace. -/
def readEntries : Nat → List Char → Option (List (List Char × Json) × List Char)
  | 0, _ => none
  | fuel + 1, text => do
    let (key, rest) ← readStr text
    match skipSpace rest with
    | ':' :: rest => do
      let (value, rest) ← readValue fuel (skipSpace rest)
      match skipSpace rest with
      | '}' :: rest => some ([(key, value)], rest)
      | ',' :: rest => do
        let (entries, rest) ← readEntries fuel (skipSpace rest)
        some ((key, value) :: entries, rest)
      | _ => none
    | _ => none

end

/-- `json.loads(text)`; `none` stands for the `JSONDecodeError`. -/
def loads (text : List Char) : Option Json := do
  let (value, rest) ← readValue (text.length + 1) (skipSpace text)
  if (skipSpace rest).isEmpty then some value else none

/-- `payload.get(key)` of a dictionary: of equal keys the last one counts. -/
def get? (key : List Char) (entries : List (List Char × Json)) : Option Json :=
  (entries.reverse.find? fun entry => entry.1 = key).map Prod.snd

/-! ## A string reads back -/

variable {c : Char} {fuel : Nat} {value : Json} (rest text : List Char)

theorem hexValue_digitChar : ∀ d < 16, hexValue (Nat.digitChar d) = some d := by
  decide

theorem readHex4_hex4 {n : Nat} (h : n < 0x10000) :
    readHex4 (hex4 n ++ rest) = some (n, rest) := by
  have ha := hexValue_digitChar (n / 4096) (by omega)
  have hb := hexValue_digitChar (n / 256 % 16) (by omega)
  have hc := hexValue_digitChar (n / 16 % 16) (by omega)
  have hd := hexValue_digitChar (n % 16) (by omega)
  simp only [hex4, readHex4, cons_append, nil_append, ha, hb, hc, hd,
    bind_eq_bind, bind_some, Option.some.injEq, Prod.mk.injEq, and_true]
  omega

/-- A character that is no surrogate reads back from its four digits. -/
theorem readUnicode_hex4 (h : c.toNat < 0x10000) :
    readUnicode (hex4 c.toNat ++ rest) = some (c, rest) := by
  have hvalid : c.toNat < 0xd800 ∨ 0xdfff < c.toNat := by
    rcases c.valid with hlow | ⟨hlow, _⟩
    · exact Or.inl hlow
    · exact Or.inr hlow
  simp only [readUnicode, readHex4_hex4 rest h, bind_eq_bind, bind_some]
  rw [if_neg (by omega), if_neg (by omega), Char.ofNat_toNat]

theorem readUnicode_pair {high low : Nat} (hhigh : 0xd800 ≤ high ∧ high ≤ 0xdbff)
    (hlow : 0xdc00 ≤ low ∧ low ≤ 0xdfff) :
    readUnicode (hex4 high ++ '\\' :: 'u' :: (hex4 low ++ rest)) =
      some (Char.ofNat (0x10000 + (high - 0xd800) * 1024 + (low - 0xdc00)), rest) := by
  have hreadHigh := readHex4_hex4 (n := high) ('\\' :: 'u' :: (hex4 low ++ rest)) (by omega)
  have hreadLow := readHex4_hex4 (n := low) rest (by omega)
  simp only [readUnicode, hreadHigh, hreadLow, bind_eq_bind, bind_some,
    if_pos hhigh, if_pos hlow]

/-- A character above 16 bits reads back from its pair of surrogates. -/
theorem readUnicode_surrogates (h : 0x10000 ≤ c.toNat) :
    readUnicode (hex4 (0xd800 + (c.toNat - 0x10000) / 1024) ++
      '\\' :: 'u' :: (hex4 (0xdc00 + (c.toNat - 0x10000) % 1024) ++ rest)) =
        some (c, rest) := by
  have hmax : c.toNat < 0x110000 := by
    rcases c.valid with hlow | ⟨_, hhigh⟩
    · exact Nat.lt_trans hlow (by decide)
    · exact hhigh
  have hjoin : 0x10000 + (0xd800 + (c.toNat - 0x10000) / 1024 - 0xd800) * 1024 +
      (0xdc00 + (c.toNat - 0x10000) % 1024 - 0xdc00) = c.toNat := by omega
  rw [readUnicode_pair rest (by omega) (by omega), hjoin, Char.ofNat_toNat]

theorem readChars_escapeChar (fuel : Nat) (c : Char) (rest : List Char) :
    readChars (fuel + 1) (escapeChar c ++ rest) =
      (readChars fuel rest).map fun result => (c :: result.1, result.2) := by
  have hescape : ∀ tail, readEscape tail = some (c, rest) →
      readChars (fuel + 1) ('\\' :: tail) =
        (readChars fuel rest).map fun result => (c :: result.1, result.2) := by
    intro tail htail
    rw [readChars, if_neg (by decide), if_pos rfl, htail]
    simp only [bind_eq_bind, bind_some]
    cases readChars fuel rest <;> rfl
  unfold escapeChar
  split_ifs with hquote hbackslash hn hr ht hb hf hprint hunicode
  · exact hescape _ (by simp [readEscape, hquote])
  · exact hescape _ (by simp [readEscape, hbackslash])
  · exact hescape _ (by simp [readEscape, hn])
  · exact hescape _ (by simp [readEscape, hr])
  · exact hescape _ (by simp [readEscape, ht])
  · have hc : Char.ofNat 8 = c := by rw [← hb, Char.ofNat_toNat]
    subst hc
    exact hescape _ rfl
  · have hc : Char.ofNat 12 = c := by rw [← hf, Char.ofNat_toNat]
    subst hc
    exact hescape _ rfl
  · simp only [cons_append, nil_append]
    rw [readChars, if_neg hquote, if_neg hbackslash, if_neg (by omega)]
    cases readChars fuel rest <;> rfl
  · exact hescape _ (readUnicode_hex4 rest hunicode)
  · rw [append_assoc]
    exact hescape _ (readUnicode_surrogates rest (by omega))

theorem readChars_flatMap (rest : List Char) (h : text.length < fuel) :
    readChars fuel (text.flatMap escapeChar ++ '"' :: rest) = some (text, rest) := by
  induction text generalizing fuel with
  | nil =>
    obtain ⟨fuel, rfl⟩ := Nat.exists_eq_succ_of_ne_zero (Nat.ne_of_gt h)
    rfl
  | cons c text ih =>
    obtain ⟨fuel, rfl⟩ := Nat.exists_eq_succ_of_ne_zero (Nat.ne_of_gt (Nat.zero_lt_of_lt h))
    have hrest := ih (by simpa using h)
    rw [flatMap_cons, append_assoc, readChars_escapeChar, hrest]
    rfl

theorem escapeChar_ne_nil (c : Char) : escapeChar c ≠ [] := by
  unfold escapeChar
  split_ifs <;> simp

theorem length_le_flatMap_escapeChar : text.length ≤ (text.flatMap escapeChar).length := by
  induction text with
  | nil => exact Nat.le_refl _
  | cons c text ih =>
    have hpos := length_pos_of_ne_nil (escapeChar_ne_nil c)
    simp only [flatMap_cons, length_append, length_cons]
    omega

theorem readStr_dumpsStr (rest : List Char) :
    readStr (dumpsStr text ++ rest) = some (text, rest) := by
  have hlength := length_le_flatMap_escapeChar text
  simp only [dumpsStr, cons_append, append_assoc, nil_append, readStr]
  refine readChars_flatMap text rest ?_
  simp only [length_append]
  omega

/-! ## Documents read back -/

theorem skipSpace_cons (h : isSpace c = false) : skipSpace (c :: rest) = c :: rest := by
  simp [skipSpace, h]

/-- The characters a delimited value begins with. -/
def Opens (c : Char) : Prop :=
  c = '"' ∨ c = '[' ∨ c = '{'

theorem Opens.isSpace (h : Opens c) : isSpace c = false := by
  rcases h with rfl | rfl | rfl <;> rfl

/-- The reader gets the value back from what the writer made of it. -/
structure Readable (value : Json) : Prop where
  opens : ∃ c text, dumps value = c :: text ∧ Opens c
  read : ∀ fuel rest, (dumps value).length ≤ fuel →
    readValue fuel (dumps value ++ rest) = some (value, rest)

theorem Readable.skipSpace (h : Readable value) (rest : List Char) :
    skipSpace (dumps value ++ rest) = dumps value ++ rest := by
  obtain ⟨c, text, htext, hopens⟩ := h.opens
  rw [htext]
  exact skipSpace_cons _ hopens.isSpace

theorem readable_str : Readable (.str text) := by
  refine ⟨⟨'"', _, rfl, Or.inl rfl⟩, fun fuel rest hfuel => ?_⟩
  obtain ⟨fuel, rfl⟩ :=
    Nat.exists_eq_succ_of_ne_zero (Nat.ne_of_gt (Nat.lt_of_lt_of_le (Nat.succ_pos _) hfuel))
  have hread := readStr_dumpsStr text rest
  simp only [dumps, dumpsStr, cons_append] at hread ⊢
  rw [readValue, if_pos rfl, hread]
  rfl

theorem readItems_dumps {item : Json} {items : List Json} (hitem : Readable item)
    (hitems : ∀ v ∈ items, Readable v) (hfuel : (dumps item ++ dumpsItems items).length ≤ fuel) :
    readItems fuel (dumps item ++ (dumpsItems items ++ rest)) = some (item :: items, rest) := by
  induction items generalizing fuel item with
  | nil =>
    simp only [dumpsItems, length_append, length_singleton] at hfuel
    obtain ⟨fuel, rfl⟩ := Nat.exists_eq_succ_of_ne_zero (show fuel ≠ 0 by omega)
    rw [readItems, hitem.read _ _ (by omega)]
    rfl
  | cons next items ih =>
    simp only [dumpsItems, length_append, length_cons] at hfuel
    obtain ⟨fuel, rfl⟩ := Nat.exists_eq_succ_of_ne_zero (show fuel ≠ 0 by omega)
    have hnext := hitems next mem_cons_self
    have hlength : (dumps next ++ dumpsItems items).length ≤ fuel := by
      rw [length_append]
      omega
    have hrest := ih hnext (fun v hv => hitems v (mem_cons_of_mem _ hv)) hlength
    rw [readItems, hitem.read _ _ (by omega)]
    simp only [dumpsItems, cons_append, append_assoc, bind_eq_bind,
      bind_some]
    rw [skipSpace_cons _ rfl]
    simp only [hnext.skipSpace, hrest, bind_some]

theorem readable_list {items : List Json} (h : ∀ v ∈ items, Readable v) :
    Readable (.list items) := by
  cases items with
  | nil =>
    refine ⟨⟨'[', _, rfl, Or.inr (Or.inl rfl)⟩, fun fuel rest hfuel => ?_⟩
    obtain ⟨fuel, rfl⟩ := Nat.exists_eq_succ_of_ne_zero
      (Nat.ne_of_gt (Nat.lt_of_lt_of_le (Nat.succ_pos _) hfuel))
    rfl
  | cons item items =>
    refine ⟨⟨'[', _, rfl, Or.inr (Or.inl rfl)⟩, fun fuel rest hfuel => ?_⟩
    have hitem := h item mem_cons_self
    simp only [dumps, length_cons] at hfuel
    obtain ⟨fuel, rfl⟩ := Nat.exists_eq_succ_of_ne_zero (show fuel ≠ 0 by omega)
    obtain ⟨c, text, htext, hopens⟩ := hitem.opens
    have hskip := hitem.skipSpace (dumpsItems items ++ rest)
    have hlength : (dumps item ++ dumpsItems items).length ≤ fuel := by omega
    have hread := readItems_dumps rest hitem (fun v hv => h v (mem_cons_of_mem _ hv))
      hlength
    simp only [dumps, cons_append, append_assoc]
    rw [readValue, if_neg (by decide), if_pos rfl, hskip]
    split
    · rename_i tail heq
      rw [htext] at heq
      have hc : c = ']' := (List.cons.inj heq).1
      subst hc
      rcases hopens with h | h | h <;> exact absurd h (by decide)
    · rw [hread]
      rfl

theorem readEntries_dumps {key : List Char} {entries : List (List Char × Json)}
    (hvalue : Readable value) (hentries : ∀ e ∈ entries, Readable e.2)
    (hfuel : (dumpsStr key ++ ':' :: (dumps value ++ dumpsEntries entries)).length ≤ fuel) :
    readEntries fuel (dumpsStr key ++ ':' :: (dumps value ++ (dumpsEntries entries ++ rest))) =
      some ((key, value) :: entries, rest) := by
  induction entries generalizing fuel key value with
  | nil =>
    simp only [dumpsEntries, length_append, length_cons, length_nil] at hfuel
    obtain ⟨fuel, rfl⟩ := Nat.exists_eq_succ_of_ne_zero (show fuel ≠ 0 by omega)
    rw [readEntries, readStr_dumpsStr]
    simp only [bind_eq_bind, bind_some]
    rw [skipSpace_cons _ rfl]
    simp only [hvalue.skipSpace, hvalue.read fuel _ (by omega), bind_some]
    rfl
  | cons next entries ih =>
    simp only [dumpsEntries, length_append, length_cons] at hfuel
    obtain ⟨fuel, rfl⟩ := Nat.exists_eq_succ_of_ne_zero (show fuel ≠ 0 by omega)
    have hlength : (dumpsStr next.1 ++ ':' :: (dumps next.2 ++ dumpsEntries entries)).length ≤
        fuel := by
      simp only [length_append, length_cons]
      omega
    have hrest := ih (hentries next mem_cons_self)
      (fun e he => hentries e (mem_cons_of_mem _ he)) hlength
    rw [readEntries, readStr_dumpsStr]
    simp only [bind_eq_bind, bind_some]
    rw [skipSpace_cons _ rfl]
    simp only [hvalue.skipSpace, hvalue.read fuel _ (by omega), bind_some,
      dumpsEntries, cons_append, append_assoc]
    rw [skipSpace_cons _ rfl]
    have hskip : ∀ tail, skipSpace (dumpsStr next.1 ++ tail) = dumpsStr next.1 ++ tail :=
      fun tail => skipSpace_cons _ rfl
    simp only [hskip, hrest, bind_some]

theorem readable_dict {entries : List (List Char × Json)} (h : ∀ e ∈ entries, Readable e.2) :
    Readable (.dict entries) := by
  cases entries with
  | nil =>
    refine ⟨⟨'{', _, rfl, Or.inr (Or.inr rfl)⟩, fun fuel rest hfuel => ?_⟩
    obtain ⟨fuel, rfl⟩ := Nat.exists_eq_succ_of_ne_zero
      (Nat.ne_of_gt (Nat.lt_of_lt_of_le (Nat.succ_pos _) hfuel))
    rfl
  | cons entry entries =>
    obtain ⟨key, value⟩ := entry
    refine ⟨⟨'{', _, rfl, Or.inr (Or.inr rfl)⟩, fun fuel rest hfuel => ?_⟩
    simp only [dumps, length_cons] at hfuel
    obtain ⟨fuel, rfl⟩ := Nat.exists_eq_succ_of_ne_zero (show fuel ≠ 0 by omega)
    have hvalue : Readable value := h (key, value) mem_cons_self
    have hlength : (dumpsStr key ++ ':' :: (dumps value ++ dumpsEntries entries)).length ≤
        fuel := by
      omega
    have hread := readEntries_dumps rest hvalue
      (fun e he => h e (mem_cons_of_mem _ he)) hlength
    simp only [dumpsStr, cons_append, append_assoc] at hread
    simp only [dumps, dumpsStr, cons_append, append_assoc]
    rw [readValue, if_neg (by decide), if_neg (by decide), if_pos rfl,
      skipSpace_cons _ rfl]
    split
    · rename_i tail heq
      exact absurd (List.cons.inj heq).1 (by decide)
    · rw [hread]
      rfl

/-- `json.loads(json.dumps(value)) == value` -/
theorem loads_dumps (h : Readable value) : loads (dumps value) = some value := by
  have hskip := h.skipSpace []
  have hread := h.read ((dumps value).length + 1) [] (Nat.le_succ _)
  rw [append_nil] at hskip hread
  rw [loads, hskip, hread]
  rfl

theorem dumps_ne_nil (h : Readable value) : dumps value ≠ [] := by
  obtain ⟨c, text, htext, _⟩ := h.opens
  rw [htext]
  exact cons_ne_nil _ _

end Json

end ResiliencyExt.Foundation
