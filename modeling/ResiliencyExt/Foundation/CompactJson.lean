import Mathlib.Data.List.Perm.Basic
import ResiliencyExt.Foundation.Json
import ResiliencyExt.Foundation.Text

set_option autoImplicit false

/-!
# Foundation: the length of a JSON text

`json.dumps(value, ensure_ascii=False, separators=(",", ":"), sort_keys=True)` keeps the
characters beyond ASCII and escapes the control characters, the quote and the backslash.  Its
length is a sum over the parts of the value (`chars_list`, `chars_dict`), whatever the order
of the keys is.
-/

namespace ResiliencyExt.Foundation

namespace Json

open Text (join)

/-! ## Writing -/

/-- A character inside a string, with `ensure_ascii=False`. -/
def escapeControl (c : Char) : List Char :=
  if c = '"' then ['\\', '"']
  else if c = '\\' then ['\\', '\\']
  else if c = '\n' then ['\\', 'n']
  else if c = '\r' then ['\\', 'r']
  else if c = '\t' then ['\\', 't']
  else if c.toNat = 8 then ['\\', 'b']
  else if c.toNat = 12 then ['\\', 'f']
  else if c.toNat < 32 then '\\' :: 'u' :: hex4 c.toNat
  else [c]

def writeStr (text : List Char) : List Char :=
  '"' :: (text.flatMap escapeControl ++ ['"'])

/-- The order of keys, by their characters. -/
def keyBefore (key other : List Char) : Bool :=
  !List.lex other key fun x y => decide (x.toNat < y.toNat)

mutual

/-- `json.dumps(value, ensure_ascii=False, separators=(",", ":"), sort_keys=True)` -/
def write : Json → List Char
  | .null => ['n', 'u', 'l', 'l']
  | .bool true => ['t', 'r', 'u', 'e']
  | .bool false => ['f', 'a', 'l', 's', 'e']
  | .number literal => literal
  | .str text => writeStr text
  | .list items => '[' :: (join ',' (writeItems items) ++ [']'])
  | .dict entries =>
    '{' :: (join ',' (((writeEntries entries).mergeSort fun a b => keyBefore a.1 b.1).map Prod.snd) ++
      ['}'])

def writeItems : List Json → List (List Char)
  | [] => []
  | item :: items => write item :: writeItems items

/-- The keys, each with the text of its entry. -/
def writeEntries : List (List Char × Json) → List (List Char × List Char)
  | [] => []
  | (key, value) :: entries =>
    (key, writeStr key ++ ':' :: write value) :: writeEntries entries

end

/-- The length of the text of a value. -/
def chars (value : Json) : Nat :=
  (write value).length

/-! ## Lengths -/

variable (items : List Json) (entries : List (List Char × Json))

theorem length_join (separator : Char) (texts : List (List Char)) :
    (join separator texts).length = (texts.map List.length).sum + (texts.length - 1) := by
  induction texts with
  | nil => rfl
  | cons text texts ih =>
    cases texts with
    | nil => simp [join, List.intercalate]
    | cons next texts =>
      have hjoin : join separator (text :: next :: texts) =
          text ++ separator :: join separator (next :: texts) := by
        simp [join, List.intercalate]
      rw [hjoin, List.length_append, List.length_cons, ih]
      simp only [List.map_cons, List.sum_cons, List.length_cons]
      omega

theorem writeItems_eq_map : writeItems items = items.map write := by
  induction items with
  | nil => rfl
  | cons item items ih => rw [writeItems, ih, List.map_cons]

theorem writeEntries_eq_map :
    writeEntries entries = entries.map fun e => (e.1, writeStr e.1 ++ ':' :: write e.2) := by
  induction entries with
  | nil => rfl
  | cons entry entries ih => rw [writeEntries, ih, List.map_cons]

theorem chars_list : chars (.list items) = 2 + (items.map chars).sum + (items.length - 1) := by
  have hmap : (items.map write).map List.length = items.map chars := by
    rw [List.map_map]
    rfl
  rw [chars, write, List.length_cons, List.length_append, length_join, writeItems_eq_map, hmap,
    List.length_map, List.length_singleton]
  omega

/-- The length of an entry of a dictionary. -/
def entryChars (entry : List Char × Json) : Nat :=
  (writeStr entry.1).length + 1 + chars entry.2

theorem chars_dict :
    chars (.dict entries) = 2 + (entries.map entryChars).sum + (entries.length - 1) := by
  have hperm := List.mergeSort_perm (writeEntries entries) fun a b => keyBefore a.1 b.1
  have hmap : ((writeEntries entries).map Prod.snd).map List.length = entries.map entryChars := by
    rw [writeEntries_eq_map, List.map_map, List.map_map]
    refine List.map_congr_left fun entry _ => ?_
    simp only [Function.comp_apply, List.length_append, List.length_cons, entryChars, chars]
    omega
  have hlengths := List.Perm.sum_nat ((hperm.map Prod.snd).map List.length)
  rw [hmap] at hlengths
  have hcount : (writeEntries entries).length = entries.length := by
    rw [writeEntries_eq_map, List.length_map]
  rw [chars, write, List.length_cons, List.length_append, length_join, hlengths, List.length_map,
    hperm.length_eq, hcount, List.length_singleton]
  omega

theorem chars_str (text : List Char) : chars (.str text) = (writeStr text).length := by
  rw [chars, write]

/-- A list grows by what is put behind it, and by a comma. -/
theorem chars_list_concat (item : Json) :
    chars (.list (items ++ [item])) =
      chars (.list items) + chars item + if items = [] then 0 else 1 := by
  rw [chars_list, chars_list, List.map_append, List.sum_append, List.length_append]
  simp only [List.map_cons, List.map_nil, List.sum_cons, List.sum_nil, List.length_singleton]
  cases items with
  | nil => simp
  | cons first items =>
    rw [if_neg (List.cons_ne_nil _ _), List.length_cons]
    omega

end Json

end ResiliencyExt.Foundation
