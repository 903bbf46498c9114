import Mathlib.Data.List.Induction
import ResiliencyExt.Foundation.TextSearch

set_option autoImplicit false

/-!
# Slurm monitor: placeholders in paths

`expand_slurm_patterns` of `slurm.py` makes one replacement for each placeholder of a table, each
over the result of those before it.  What it is compared with expands the placeholders that stand
in the path, found from left to right, all at once.
-/

namespace ResiliencyExt.Services.Smonsvc

open Foundation Foundation.TextSearch List

inductive Placeholder where
  | j | J | A | a | t | x | u
  deriving DecidableEq, Repr

def Placeholder.letter : Placeholder → Char
  | j => 'j' | J => 'J' | A => 'A' | a => 'a' | t => 't' | x => 'x' | u => 'u'

def Placeholder.pattern (p : Placeholder) : List Char :=
  ['%', p.letter]

/-- The keys of `substitutions`, in order. -/
def substitutions : List Placeholder :=
  [.j, .J, .A, .a, .t, .x, .u]

structure JobNames where
  jobId : List Char
  jobName : List Char
  jobUser : List Char

def JobNames.value (job : JobNames) : Placeholder → List Char
  | .j | .J => job.jobId
  | .A => job.jobId.takeWhile (· ≠ '_')
  | .a | .t =>
    if '_' ∈ job.jobId then (job.jobId.dropWhile (· ≠ '_')).tail else "4294967294".toList
  | .x => job.jobName
  | .u => job.jobUser

/-- `[a-zA-Z]` -/
def isLetter (c : Char) : Bool :=
  c.isAlpha

/-- `re.findall(r"%[a-zA-Z]", result)` finds something. -/
def hasPattern : List Char → Bool
  | [] => false
  | [_] => false
  | c :: d :: rest => (decide (c = '%') && isLetter d) || hasPattern (d :: rest)

/-- The replacements for some of the placeholders, one after the other. -/
def substitute (job : JobNames) (placeholders : List Placeholder) (path : List Char) : List Char :=
  placeholders.foldl (fun result p => replaceAll p.pattern (job.value p) result) path

/-- `expand_slurm_patterns`: the path with patterns expanded, and whether `on_unexpanded` is
called. -/
def expandSlurmPatterns (job : JobNames) (path : List Char) : List Char × Bool :=
  if '%' ∈ path then
    let result := substitute job substitutions path
    (result, hasPattern result)
  else (path, false)

/-! ## Expanding all at once -/

/-- A character of a path, or a placeholder. -/
inductive Piece where
  | text (c : Char)
  | hole (p : Placeholder)
  deriving DecidableEq, Repr

/-- The placeholders of a path, found from left to right. -/
def scan : List Char → List Piece
  | [] => []
  | [c] => [.text c]
  | c :: d :: rest =>
    if c = '%' then
      match substitutions.find? (·.letter = d) with
      | some p => .hole p :: scan rest
      | none => .text c :: scan (d :: rest)
    else .text c :: scan (d :: rest)

def Piece.render : Piece → List Char
  | text c => [c]
  | hole p => p.pattern

/-- The piece when some placeholders have got their values. -/
def Piece.fill (job : JobNames) (done : List Placeholder) : Piece → List Piece
  | text c => [text c]
  | hole p => if p ∈ done then (job.value p).map text else [hole p]

def filled (job : JobNames) (done : List Placeholder) (pieces : List Piece) : List Piece :=
  pieces.flatMap (Piece.fill job done)

/-- The path with each of its placeholders replaced by its value. -/
def simultaneous (job : JobNames) (path : List Char) : List Char :=
  (scan path).flatMap fun
    | .text c => [c]
    | .hole p => job.value p

def follows (test : Char → Bool) : List Piece → Bool
  | .text c :: _ => test c
  | _ => false

/-- At how many places a `%` of the text stands before a character of the text that passes. -/
def pairs (test : Char → Bool) : List Piece → Nat
  | [] => 0
  | .text c :: rest => pairs test rest + if c = '%' ∧ follows test rest then 1 else 0
  | .hole _ :: rest => pairs test rest

/-- The path is expanded at once: the result is that of the path's own placeholders, each
replacement finds these and no others, and the callback is for another pattern of the path. -/
structure ExpandsOnce (job : JobNames) (path : List Char) : Prop where
  result : (expandSlurmPatterns job path).1 = simultaneous job path
  own : ∀ before p after, substitutions = before ++ p :: after →
    occurrences p.pattern (substitute job before path) = (scan path).count (.hole p)
  unexpanded : (expandSlurmPatterns job path).2 = true ↔ 0 < pairs isLetter (scan path)

/-- When the placeholders before one in the table have their values, no `%` of the text stands
before its letter; and at the end none stands before any letter, unless one does in the path. -/
structure Apart (job : JobNames) (path : List Char) : Prop where
  placeholder : ∀ before p after, substitutions = before ++ p :: after →
    pairs (fun c => decide (c = p.letter)) (filled job before (scan path)) = 0
  letter : 0 < pairs isLetter (scan path) ∨
    pairs isLetter (filled job substitutions (scan path)) = 0

/-! ## Pieces -/

theorem mem_substitutions (p : Placeholder) : p ∈ substitutions := by
  cases p <;> decide

theorem letter_injective {p q : Placeholder} (h : p.letter = q.letter) : p = q := by
  revert h
  cases p <;> cases q <;> decide

theorem letter_ne_percent (p : Placeholder) : p.letter ≠ '%' := by
  cases p <;> decide

theorem render_scan (path : List Char) : (scan path).flatMap Piece.render = path := by
  fun_induction scan path with
  | case1 => rfl
  | case2 c => rfl
  | case3 d rest p hfind ih =>
    have hletter : p.letter = d := by simpa using find?_some hfind
    rw [flatMap_cons, ih, ← hletter]
    rfl
  | case4 d rest hfind ih => rw [flatMap_cons, ih]; rfl
  | case5 c d rest hc ih => rw [flatMap_cons, ih]; rfl

/-- What stands at the front of a rendered text, apart from a `%`. -/
theorem head_render {pieces : List Piece} {c : Char} (hc : c ≠ '%') :
    [c] <+: pieces.flatMap Piece.render ↔ follows (fun d => decide (d = c)) pieces = true := by
  cases pieces with
  | nil => simp [follows]
  | cons piece pieces =>
    cases piece with
    | text d => simp [Piece.render, follows, eq_comm]
    | hole p => simp [Piece.render, Placeholder.pattern, follows, hc]

/-- A placeholder's pattern stands in a text at its own places and where the text forms it. -/
theorem occurrences_render (p : Placeholder) (pieces : List Piece) :
    occurrences p.pattern (pieces.flatMap Piece.render) =
      pieces.count (.hole p) + pairs (fun c => decide (c = p.letter)) pieces := by
  induction pieces with
  | nil => rfl
  | cons piece pieces ih =>
    cases piece with
    | text c =>
      have hfront : p.pattern <+: c :: pieces.flatMap Piece.render ↔
          c = '%' ∧ follows (fun d => decide (d = p.letter)) pieces = true := by
        rw [Placeholder.pattern, cons_prefix_cons, head_render (letter_ne_percent p), eq_comm]
      rw [flatMap_cons, Piece.render, singleton_append, occurrences_cons, ih, pairs,
        count_cons_of_ne (by nofun)]
      simp only [hfront]
      omega
    | hole q =>
      have hfirst : p.pattern <+: '%' :: q.letter :: pieces.flatMap Piece.render ↔ q = p := by
        simp only [Placeholder.pattern, cons_prefix_cons, nil_prefix, and_true, true_and]
        exact ⟨fun h => (letter_injective h).symm, fun h => h ▸ rfl⟩
      have hsecond : ¬ p.pattern <+: q.letter :: pieces.flatMap Piece.render := fun h =>
        letter_ne_percent q (cons_prefix_cons.mp h).1.symm
      rw [flatMap_cons]
      simp only [Piece.render, Placeholder.pattern, cons_append, nil_append] at hfirst hsecond ⊢
      rw [occurrences_cons, occurrences_cons, if_neg hsecond, ← Placeholder.pattern, ih, pairs,
        count_cons]
      simp only [Placeholder.pattern, hfirst, beq_iff_eq, Piece.hole.injEq]
      omega

/-- Where the text forms no pattern, a replacement fills the placeholders. -/
theorem replaceAll_render (job : JobNames) (p : Placeholder) (pieces : List Piece)
    (h : pairs (fun c => decide (c = p.letter)) pieces = 0) :
    replaceAll p.pattern (job.value p) (pieces.flatMap Piece.render) =
      (filled job [p] pieces).flatMap Piece.render := by
  induction pieces with
  | nil => rfl
  | cons piece pieces ih =>
    cases piece with
    | text c =>
      obtain ⟨hrest, hpair⟩ := Nat.add_eq_zero_iff.mp h
      have hfront : ¬ p.pattern <+: c :: pieces.flatMap Piece.render := by
        rw [Placeholder.pattern, cons_prefix_cons, head_render (letter_ne_percent p)]
        rintro ⟨rfl, hfollows⟩
        exact absurd (hpair.symm.trans (if_pos ⟨rfl, hfollows⟩)) (by decide)
      rw [filled, flatMap_cons, flatMap_cons, flatMap_append, ← filled, ← ih hrest]
      exact replaceAll_cons_of_ne _ hfront
    | hole q =>
      rw [filled, flatMap_cons, flatMap_cons, flatMap_append, ← filled, ← ih h]
      by_cases hq : q = p
      · subst hq
        have hvalue : ((job.value q).map Piece.text).flatMap Piece.render = job.value q := by
          rw [flatMap_map]
          exact flatMap_singleton' _
        rw [Piece.fill, if_pos mem_cons_self, hvalue]
        exact replaceAll_append (job.value q) '%' [q.letter] _
      · rw [Piece.fill, if_neg (by simpa using hq)]
        have hfirst : ¬ p.pattern <+: '%' :: q.letter :: pieces.flatMap Piece.render :=
          fun hfront => hq (letter_injective (cons_prefix_cons.mp (cons_prefix_cons.mp hfront).2).1).symm
        have hsecond : ¬ p.pattern <+: q.letter :: pieces.flatMap Piece.render := fun hfront =>
          letter_ne_percent q (cons_prefix_cons.mp hfront).1.symm
        exact (replaceAll_cons_of_ne _ hfirst).trans
          (congrArg _ (replaceAll_cons_of_ne _ hsecond))

variable {job : JobNames} {path : List Char}

theorem filled_append (job : JobNames) (done : List Placeholder) (p : Placeholder)
    (pieces : List Piece) :
    filled job (done ++ [p]) pieces = filled job [p] (filled job done pieces) := by
  rw [filled, filled, filled, flatMap_assoc]
  refine congrArg (pieces.flatMap ·) (funext fun piece => ?_)
  have htexts : ∀ value : List Char, (value.map Piece.text).flatMap (Piece.fill job [p]) =
      value.map .text := fun value => by
    rw [flatMap_map]
    exact flatMap_pure_eq_map _ _
  cases piece with
  | text c => rfl
  | hole q =>
    by_cases hq : q ∈ done
    · rw [Piece.fill, Piece.fill, if_pos hq, if_pos (mem_append_left _ hq), htexts]
    · simp [Piece.fill, hq]

/-- A placeholder that has no value yet is where it was. -/
theorem count_filled (job : JobNames) {done : List Placeholder} {p : Placeholder} (h : p ∉ done)
    (pieces : List Piece) :
    (filled job done pieces).count (.hole p) = pieces.count (.hole p) := by
  induction pieces with
  | nil => rfl
  | cons piece pieces ih =>
    rw [filled, flatMap_cons, ← filled, count_append, ih, Nat.add_comm,
      ← singleton_append, count_append, Nat.add_comm]
    congr 1
    cases piece with
    | text c => rfl
    | hole q =>
      rw [Piece.fill]
      split
      · next hq =>
        have hne : q ≠ p := fun heq => h (heq ▸ hq)
        rw [count_eq_zero.mpr (by simp), count_eq_zero.mpr (by simpa using hne.symm)]
      · rfl

/-- As long as the text forms no pattern, the replacements fill the placeholders. -/
theorem substitute_eq {done : List Placeholder}
    (h : ∀ before p after, done = before ++ p :: after →
      pairs (fun c => decide (c = p.letter)) (filled job before (scan path)) = 0) :
    substitute job done path = (filled job done (scan path)).flatMap Piece.render := by
  induction done using List.reverseRecOn with
  | nil =>
    have hnone : Piece.fill job [] = fun piece => [piece] := by
      funext piece
      cases piece <;> rfl
    rw [filled, hnone, flatMap_singleton', render_scan]
    rfl
  | append_singleton done p ih =>
    have hdone := ih fun before q after hsplit =>
      h before q (after ++ [p]) (by rw [hsplit, append_assoc, cons_append])
    have hlast : substitute job (done ++ [p]) path =
        replaceAll p.pattern (job.value p) (substitute job done path) := foldl_append
    rw [hlast, hdone, filled_append]
    exact replaceAll_render job p _ (h done p [] rfl)

/-- In the end there is only text. -/
theorem filled_substitutions (job : JobNames) (path : List Char) :
    filled job substitutions (scan path) = (simultaneous job path).map .text := by
  rw [filled, simultaneous, map_flatMap]
  refine congrArg ((scan path).flatMap ·) (funext fun piece => ?_)
  cases piece with
  | text c => rfl
  | hole p => exact if_pos (mem_substitutions p)

theorem hasPattern_iff (text : List Char) :
    hasPattern text = true ↔ 0 < pairs isLetter (text.map .text) := by
  fun_induction hasPattern text with
  | case1 => simp [pairs]
  | case2 c => simp [pairs, follows]
  | case3 c d rest ih =>
    have hpairs : pairs isLetter ((c :: d :: rest).map .text) =
        pairs isLetter ((d :: rest).map .text) +
          if c = '%' ∧ isLetter d = true then 1 else 0 := rfl
    rw [Bool.or_eq_true, ih, Bool.and_eq_true, decide_eq_true_eq, hpairs]
    by_cases hpair : c = '%' ∧ isLetter d = true
    · simp [hpair]
    · simp [hpair]

theorem pairs_le_append (test : Char → Bool) (more pieces : List Piece) :
    pairs test pieces ≤ pairs test (more ++ pieces) := by
  induction more with
  | nil => exact Nat.le_refl _
  | cons piece more ih =>
    cases piece with
    | text c => exact ih.trans (Nat.le_add_right _ _)
    | hole p => exact ih

/-- What stands together in the path still does when placeholders have values. -/
theorem pairs_le_filled (test : Char → Bool) (job : JobNames) (done : List Placeholder)
    (pieces : List Piece) : pairs test pieces ≤ pairs test (filled job done pieces) := by
  induction pieces with
  | nil => exact Nat.le_refl _
  | cons piece pieces ih =>
    rw [filled, flatMap_cons, ← filled]
    cases piece with
    | hole p => exact ih.trans (pairs_le_append test _ _)
    | text c =>
      have hfollows : follows test pieces = true →
          follows test (filled job done pieces) = true := by
        intro h
        cases pieces with
        | nil => cases h
        | cons piece pieces =>
          cases piece with
          | text d => exact h
          | hole p => cases h
      refine Nat.add_le_add ih ?_
      split
      · next hpair => rw [if_pos ⟨hpair.1, hfollows hpair.2⟩]
      · exact Nat.zero_le _

/-- The test for a `%` in the path makes no difference. -/
theorem expandSlurmPatterns_eq (job : JobNames) (path : List Char) :
    expandSlurmPatterns job path =
      (substitute job substitutions path, hasPattern (substitute job substitutions path)) := by
  rw [expandSlurmPatterns]
  split
  · rfl
  · next hnone =>
    have hsame : ∀ placeholders, substitute job placeholders path = path := by
      intro placeholders
      induction placeholders with
      | nil => rfl
      | cons p placeholders ih =>
        rw [substitute, foldl_cons, Placeholder.pattern, replaceAll_of_not_mem _ _ hnone]
        exact ih
    have hpattern : ∀ text : List Char, '%' ∉ text → hasPattern text = false := by
      intro text htext
      fun_induction hasPattern text with
      | case1 => rfl
      | case2 => rfl
      | case3 c d rest ih =>
        obtain ⟨hc, hrest⟩ := not_or.mp (mem_cons.not.mp htext)
        rw [ih hrest, decide_eq_false (Ne.symm hc)]
        rfl
    rw [hsame, hpattern path hnone]

/-- A path is expanded at once exactly when the text forms no placeholder that is still to come,
and no pattern at all unless the path has one. -/
theorem expandsOnce_iff (job : JobNames) (path : List Char) :
    ExpandsOnce job path ↔ Apart job path := by
  have hcount : ∀ {before p after}, substitutions = before ++ p :: after →
      (filled job before (scan path)).count (.hole p) = (scan path).count (.hole p) := by
    intro before p after hsplit
    have hnodup : (before ++ p :: after).Nodup := hsplit ▸ by decide
    exact count_filled job (fun hmem => (nodup_append.mp hnodup).2.2 p hmem p mem_cons_self rfl) _
  have hend : substitute job substitutions path =
      (filled job substitutions (scan path)).flatMap Piece.render →
      substitute job substitutions path = simultaneous job path := by
    intro h
    rw [h, filled_substitutions, flatMap_map]
    exact flatMap_singleton' _
  constructor
  · intro h
    have hplaceholder : ∀ done rest, substitutions = done ++ rest →
        ∀ before p after, done = before ++ p :: after →
          pairs (fun c => decide (c = p.letter)) (filled job before (scan path)) = 0 := by
      intro done
      induction done using List.reverseRecOn with
      | nil => exact fun _ _ before p after hsplit => absurd hsplit.symm (by simp)
      | append_singleton done q ih =>
        intro rest hrest before p after hsplit
        rw [append_assoc] at hrest
        have hearlier := ih _ hrest
        rcases eq_nil_or_concat after with rfl | ⟨after, last, rfl⟩
        · obtain ⟨rfl, hlast⟩ := append_inj' hsplit rfl
          cases hlast
          have hown := h.own done q rest hrest
          rw [substitute_eq hearlier, occurrences_render, hcount hrest] at hown
          omega
        · rw [concat_eq_append, ← cons_append, ← append_assoc] at hsplit
          exact hearlier before p after (append_inj' hsplit rfl).1
    have hall := fun before p after hsplit =>
      hplaceholder substitutions [] (append_nil _).symm before p after hsplit
    refine ⟨hall, ?_⟩
    have hunexpanded := h.unexpanded
    rw [expandSlurmPatterns_eq, hend (substitute_eq hall), hasPattern_iff,
      ← filled_substitutions] at hunexpanded
    omega
  · intro h
    have hresult := hend (substitute_eq h.placeholder)
    refine ⟨?_, fun before p after hsplit => ?_, ?_⟩
    · rw [expandSlurmPatterns_eq, hresult]
    · have hbefore : substitute job before path =
          (filled job before (scan path)).flatMap Piece.render :=
        substitute_eq fun front q back hfront => h.placeholder front q (back ++ p :: after)
          (by rw [hsplit, hfront, append_assoc, cons_append])
      rw [hbefore, occurrences_render, hcount hsplit, h.placeholder before p after hsplit]
      rfl
    · rw [expandSlurmPatterns_eq, hresult, hasPattern_iff, ← filled_substitutions]
      have hle := pairs_le_filled isLetter job substitutions (scan path)
      have hletter := h.letter
      omega

/-- The name of a job that has a placeholder of the user in it. -/
theorem jobName_expanded :
    ¬ ExpandsOnce ⟨"12".toList, "train%u".toList, "bob".toList⟩ "/logs/%x.log".toList :=
  fun h => absurd h.result (by decide)

end ResiliencyExt.Services.Smonsvc
