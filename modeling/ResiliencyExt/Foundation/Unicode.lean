import Mathlib.Data.List.DropRight
import ResiliencyExt.Foundation.SplitLines

set_option autoImplicit false

/-!
# Foundation: white space, digits and words

What `str.strip`, `\s` and `\d` of Python take for white space and for decimal
digits, over all of Unicode.  A text has as many words as it has maximal runs of
characters that are not white space; stripping a text leaves them, and after a
text that ends in white space counting starts afresh (`words_append`).
-/

namespace ResiliencyExt.Foundation.Unicode

open SplitLines List

/-- The code points of white space. -/
def isSpaceCode (n : Nat) : Bool :=
  (0x09 ≤ n && n ≤ 0x0D) || (0x1C ≤ n && n ≤ 0x20) || n == 0x85 || n == 0xA0 || n == 0x1680 ||
    (0x2000 ≤ n && n ≤ 0x200A) || n == 0x2028 || n == 0x2029 || n == 0x202F || n == 0x205F ||
    n == 0x3000

/-- `c.isspace()` -/
def isSpace (c : Char) : Bool :=
  isSpaceCode c.toNat

/-- The zeros of the Unicode digits; the nine digits of each follow it. -/
def zeros : List Nat :=
  [0x30, 0x660, 0x6F0, 0x7C0, 0x966, 0x9E6, 0xA66, 0xAE6, 0xB66, 0xBE6, 0xC66, 0xCE6, 0xD66,
    0xDE6, 0xE50, 0xED0, 0xF20, 0x1040, 0x1090, 0x17E0, 0x1810, 0x1946, 0x19D0, 0x1A80, 0x1A90,
    0x1B50, 0x1BB0, 0x1C40, 0x1C50, 0xA620, 0xA8D0, 0xA900, 0xA9D0, 0xA9F0, 0xAA50, 0xABF0,
    0xFF10, 0x104A0, 0x10D30, 0x11066, 0x110F0, 0x11136, 0x111D0, 0x112F0, 0x11450, 0x114D0,
    0x11650, 0x116C0, 0x11730, 0x118E0, 0x11950, 0x11C50, 0x11D50, 0x11DA0, 0x11F50, 0x16A60,
    0x16AC0, 0x16B50, 0x1D7CE, 0x1D7D8, 0x1D7E2, 0x1D7EC, 0x1D7F6, 0x1E140, 0x1E2F0, 0x1E4F0,
    0x1E950, 0x1FBF0]

/-- `c.isdecimal()`, which is what `\d` matches. -/
def isDecimal (c : Char) : Bool :=
  zeros.any fun zero => zero ≤ c.toNat && c.toNat ≤ zero + 9

/-- The code points of digits that are no decimal digits, such as superscripts. -/
def otherDigits : List (Nat × Nat) :=
  [(0xB2, 0xB3), (0xB9, 0xB9), (0x1369, 0x1371), (0x19DA, 0x19DA), (0x2070, 0x2070),
    (0x2074, 0x2079), (0x2080, 0x2089), (0x2460, 0x2468), (0x2474, 0x247C), (0x2488, 0x2490),
    (0x24EA, 0x24EA), (0x24F5, 0x24FD), (0x24FF, 0x24FF), (0x2776, 0x277E), (0x2780, 0x2788),
    (0x278A, 0x2792), (0x10A40, 0x10A43), (0x10E60, 0x10E68), (0x11052, 0x1105A),
    (0x1F100, 0x1F10A)]

/-- `c.isdigit()` -/
def isDigit (c : Char) : Bool :=
  isDecimal c || otherDigits.any fun r => r.1 ≤ c.toNat && c.toNat ≤ r.2

variable {c : Char} {text : List Char}

theorem isDigit_of_isDecimal (h : isDecimal c = true) : isDigit c = true :=
  Bool.or_eq_true_iff.mpr (.inl h)

/-- `text.strip()` -/
def strip (text : List Char) : List Char :=
  (text.dropWhile isSpace).rdropWhile isSpace

/-- A line end is white space. -/
theorem isSpace_of_isLineEnd (h : isLineEnd c = true) : isSpace c = true := by
  simp only [isLineEnd, contains_iff_mem, mem_cons, not_mem_nil, or_false] at h
  unfold isSpace
  rcases h with h | h | h | h | h | h | h | h | h | h <;> rw [h] <;> rfl

/-- A digit is not white space. -/
theorem isSpace_of_isDecimal (h : isDecimal c = true) : isSpace c = false := by
  have hcodes : ∀ zero ∈ zeros, ∀ digit < 10, isSpaceCode (zero + digit) = false := by
    decide +kernel
  obtain ⟨zero, hzero, hrange⟩ := any_eq_true.mp h
  simp only [Bool.and_eq_true, decide_eq_true_eq] at hrange
  have hcode := hcodes zero hzero (c.toNat - zero) (by omega)
  rwa [Nat.add_sub_of_le hrange.1] at hcode

/-- The visible ASCII characters are not white space. -/
theorem isSpace_of_visible (h : 0x21 ≤ c.toNat ∧ c.toNat ≤ 0x7E) : isSpace c = false := by
  unfold isSpace isSpaceCode
  simp only [Bool.or_eq_false_iff, Bool.and_eq_false_iff, decide_eq_false_iff_not,
    beq_eq_false_iff_ne]
  omega

/-- Only white space is stripped off. -/
theorem mem_strip_or_isSpace (h : c ∈ text) : c ∈ strip text ∨ isSpace c = true := by
  have hleft : c ∈ text.dropWhile isSpace ∨ isSpace c = true := by
    rw [← takeWhile_append_dropWhile (p := isSpace) (l := text), mem_append] at h
    exact h.symm.imp_right mem_takeWhile_imp
  rcases hleft with hleft | hspace
  · rw [← rdropWhile_append_rtakeWhile (p := isSpace) (l := text.dropWhile isSpace),
      mem_append] at hleft
    exact hleft.imp_right mem_rtakeWhile_imp
  · exact .inr hspace

/-! ## Words -/

/-- The words that begin in a text, after white space or not. -/
def wordsAfter : Bool → List Char → Nat
  | _, [] => 0
  | space, c :: cs => (if space && !isSpace c then 1 else 0) + wordsAfter (isSpace c) cs

/-- The number of words of a text. -/
def words (text : List Char) : Nat :=
  wordsAfter true text

theorem wordsAfter_append (xs ys : List Char) : ∀ space : Bool,
    wordsAfter space (xs ++ ys) =
      wordsAfter space xs + wordsAfter ((xs.getLast?.map isSpace).getD space) ys := by
  induction xs with
  | nil => exact fun _ => (Nat.zero_add _).symm
  | cons c cs ih =>
    intro space
    rw [cons_append, wordsAfter, wordsAfter, ih, Nat.add_assoc]
    cases cs with
    | nil => rfl
    | cons d ds => rfl

/-- After white space counting starts afresh. -/
theorem words_append {xs : List Char} (hlast : xs.getLast? = some c) (hspace : isSpace c = true)
    (ys : List Char) : words (xs ++ ys) = words xs + words ys := by
  rw [words, wordsAfter_append, hlast, Option.map_some, hspace]
  rfl

theorem wordsAfter_of_isSpace (h : ∀ c ∈ text, isSpace c = true) :
    ∀ space : Bool, wordsAfter space text = 0 := by
  induction text with
  | nil => exact fun _ => rfl
  | cons c cs ih =>
    intro space
    rw [wordsAfter, h c mem_cons_self, ih fun d hd => h d (mem_cons_of_mem c hd)]
    simp

/-- A run that is not white space is one word. -/
theorem words_of_not_isSpace (hne : text ≠ []) (h : ∀ c ∈ text, isSpace c = false) :
    words text = 1 := by
  have hrest : ∀ cs : List Char, (∀ c ∈ cs, isSpace c = false) → wordsAfter false cs = 0 := by
    intro cs
    induction cs with
    | nil => exact fun _ => rfl
    | cons d ds ih =>
      intro hds
      rw [wordsAfter, hds d mem_cons_self, ih fun e he => hds e (mem_cons_of_mem d he)]
      rfl
  cases text with
  | nil => exact absurd rfl hne
  | cons c cs =>
    rw [words, wordsAfter, h c mem_cons_self,
      hrest cs fun d hd => h d (mem_cons_of_mem c hd)]
    rfl

theorem words_dropWhile (text : List Char) : words (text.dropWhile isSpace) = words text := by
  induction text with
  | nil => rfl
  | cons c cs ih =>
    by_cases hspace : isSpace c = true
    · rw [dropWhile_cons_of_pos hspace, ih]
      simp [words, wordsAfter, hspace]
    · rw [dropWhile_cons_of_neg hspace]

theorem words_rdropWhile (text : List Char) : words (text.rdropWhile isSpace) = words text := by
  have hsplit := rdropWhile_append_rtakeWhile (p := isSpace) (l := text)
  have hspace : ∀ c ∈ text.rtakeWhile isSpace, isSpace c = true := fun c hc =>
    mem_rtakeWhile_imp hc
  calc words (text.rdropWhile isSpace)
      = words (text.rdropWhile isSpace ++ text.rtakeWhile isSpace) := by
        rw [words, words, wordsAfter_append, wordsAfter_of_isSpace hspace, Nat.add_zero]
    _ = words text := by rw [hsplit]

/-- Stripping leaves the words. -/
theorem words_strip (text : List Char) : words (strip text) = words text := by
  rw [strip, words_rdropWhile, words_dropWhile]

end ResiliencyExt.Foundation.Unicode
