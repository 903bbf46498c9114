import ResiliencyExt.Foundation.Glob
import ResiliencyExt.Foundation.TextSearch

set_option autoImplicit false

/-!
# Splitlog: job ids in glob patterns

`_escape_glob` of `splitlog.py`, by which `_find_log_files` puts a job id into a pattern.  Four
replacements run one after the other.  The second one finds the closing brackets that the first
one has written, so the pattern of an opening bracket ends in a bracket too many.
-/

namespace ResiliencyExt.Attribution

open Foundation Foundation.TextSearch Foundation.Glob List

def escapeGlob (s : List Char) : List Char :=
  let s := replaceAll ['['] ['[', '[', ']'] s
  let s := replaceAll [']'] ['[', ']', ']'] s
  let s := replaceAll ['*'] ['[', '*', ']'] s
  replaceAll ['?'] ['[', '?', ']'] s

/-- What becomes of one character. -/
def escaped (c : Char) : List Char :=
  if c = '[' then ['[', '[', '[', ']', ']']
  else if c = ']' ∨ c = '*' ∨ c = '?' then ['[', c, ']'] else [c]

/-- What the pattern of one character consists of. -/
def classesOf (c : Char) : List CharClass :=
  if c = '[' then [.set false [('[', '['), ('[', '[')], .literal ']']
  else if c = ']' ∨ c = '*' ∨ c = '?' then [.set false [(c, c)]] else [.literal c]

theorem escapeGlob_eq (s : List Char) : escapeGlob s = s.flatMap escaped := by
  simp only [escapeGlob, replaceAll_singleton, flatMap_assoc]
  refine congrArg (s.flatMap ·) (funext fun c => ?_)
  unfold escaped
  by_cases hopen : c = '['
  · subst hopen
    decide
  · by_cases hclose : c = ']'
    · subst hclose
      decide
    · by_cases hstar : c = '*'
      · subst hstar
        decide
      · by_cases hquestion : c = '?'
        · subst hquestion
          decide
        · simp [hopen, hclose, hstar, hquestion]

theorem tokens_escaped_append (c : Char) (rest : List Char) :
    tokens (escaped c ++ rest) = (classesOf c).map .one ++ tokens rest := by
  unfold escaped classesOf
  by_cases hopen : c = '['
  · subst hopen
    rfl
  · rw [if_neg hopen, if_neg hopen]
    split
    · next hmeta => rcases hmeta with rfl | rfl | rfl <;> rfl
    · next hplain =>
      obtain ⟨-, hstar, hquestion⟩ : c ≠ ']' ∧ c ≠ '*' ∧ c ≠ '?' := by simpa using hplain
      simp [tokens, tokensFrom, hopen, hstar, hquestion]

/-- Each character of the id is read for itself. -/
theorem tokens_escapeGlob (s : List Char) :
    tokens (escapeGlob s) = (s.flatMap classesOf).map .one := by
  rw [escapeGlob_eq]
  induction s with
  | nil => rfl
  | cons c s ih =>
    rw [flatMap_cons, tokens_escaped_append, ih, flatMap_cons, map_append]

theorem fnmatch_escapeGlob (s name : List Char) :
    fnmatch name (escapeGlob s) = true ↔
      Forall₂ (fun cls c => cls.accepts c = true) (s.flatMap classesOf) name := by
  rw [fnmatch, tokens_escapeGlob, accepts_map_one]

/-- No character but an opening bracket needs more than one of the name. -/
theorem length_lt_of_mem {s : List Char} (h : '[' ∈ s) :
    s.length < (s.flatMap classesOf).length := by
  have hpos : ∀ c, 1 ≤ (classesOf c).length := by
    intro c
    unfold classesOf
    split
    · decide
    · split <;> exact Nat.le_refl _
  have hle : ∀ s : List Char, s.length ≤ (s.flatMap classesOf).length := by
    intro s
    induction s with
    | nil => exact Nat.le_refl _
    | cons c s ih =>
      rw [flatMap_cons, length_append, length_cons]
      have := hpos c
      omega
  obtain ⟨before, after, rfl⟩ := append_of_mem h
  simp only [flatMap_append, flatMap_cons, length_append, length_cons]
  have hbefore := hle before
  have hafter := hle after
  have hopen : (classesOf '[').length = 2 := rfl
  omega

theorem classesOf_of_ne {c : Char} (h : c ≠ '[') :
    ∃ cls, classesOf c = [cls] ∧ ∀ d, cls.accepts d = true ↔ d = c := by
  unfold classesOf
  rw [if_neg h]
  split
  · refine ⟨_, rfl, fun d => ?_⟩
    simp only [CharClass.accepts, any_cons, any_nil, Bool.or_false, Bool.bne_false,
      decide_eq_true_eq]
    exact ⟨fun hd => Char.le_antisymm hd.2 hd.1, fun hd => hd ▸ ⟨Char.le_refl _, Char.le_refl _⟩⟩
  · exact ⟨_, rfl, fun d => by simp [CharClass.accepts]⟩

/-- The pattern of an id without an opening bracket matches the id only. -/
theorem accepts_iff_eq {s : List Char} (h : '[' ∉ s) (name : List Char) :
    Forall₂ (fun cls c => cls.accepts c = true) (s.flatMap classesOf) name ↔ name = s := by
  induction s generalizing name with
  | nil => simp
  | cons c s ih =>
    obtain ⟨hc, hs⟩ := not_or.mp (mem_cons.not.mp h)
    obtain ⟨cls, hcls, haccepts⟩ := classesOf_of_ne (Ne.symm hc)
    rw [flatMap_cons, hcls, singleton_append]
    cases name with
    | nil => simp
    | cons d name => rw [forall₂_cons, haccepts, ih hs, cons.injEq]

/-- The pattern matches the id and nothing else exactly when the id has no opening bracket. -/
theorem literal_iff_no_bracket (s : List Char) :
    (∀ name, fnmatch name (escapeGlob s) = true ↔ name = s) ↔ '[' ∉ s := by
  constructor
  · intro hliteral hmem
    have hself := (fnmatch_escapeGlob s s).mp ((hliteral s).mpr rfl)
    exact absurd hself.length_eq (Nat.ne_of_gt (length_lt_of_mem hmem))
  · intro hnone name
    rw [fnmatch_escapeGlob, accepts_iff_eq hnone]

/-- The pattern of an array summary id does not match the id, but the id with a bracket more. -/
theorem bracket_not_literal :
    fnmatch "12_[7]".toList (escapeGlob "12_[7]".toList) = false ∧
      fnmatch "12_[]7]".toList (escapeGlob "12_[7]".toList) = true := by
  decide

end ResiliencyExt.Attribution
