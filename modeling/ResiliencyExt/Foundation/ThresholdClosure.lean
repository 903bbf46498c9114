import Mathlib.Data.List.Lattice

set_option autoImplicit false

/-!
# Foundation: sets that are closed under thresholds

Each node of a tree has members and a threshold.  A set is closed at a node when it leaves
none of the members of the node, or at least as many as the threshold.  One pass that
adds the members of every node that is left with too few computes the least closed set,
when every node comes after those whose members are among its own.
-/

namespace ResiliencyExt.Foundation

open List

variable {ν α : Type} [DecidableEq α] (members : ν → List α) (threshold : ν → Nat)

/-- The number of members that a set leaves. -/
def remaining (S : List α) (p : ν) : Nat :=
  (members p).countP (· ∉ S)

def ThresholdClosed (S : List α) (p : ν) : Prop :=
  remaining members S p = 0 ∨ threshold p ≤ remaining members S p

/-- Add all members of a node that is left with too few. -/
def closeAt (S : List α) (p : ν) : List α :=
  if remaining members S p < threshold p then members p ∪ S else S

variable {members threshold} {S S' : List α} {p q : ν}

theorem remaining_eq_zero_iff : remaining members S p = 0 ↔ members p ⊆ S := by
  simp [remaining, countP_eq_zero, subset_def]

theorem remaining_anti (h : S ⊆ S') (p : ν) : remaining members S' p ≤ remaining members S p := by
  refine countP_mono_left fun x _ hx => ?_
  rw [decide_eq_true_eq] at hx ⊢
  exact fun hmem => hx (h hmem)

theorem subset_closeAt (S : List α) (p : ν) : S ⊆ closeAt members threshold S p := by
  unfold closeAt
  split
  · exact fun x hx => mem_union_right _ hx
  · exact List.Subset.refl S

theorem thresholdClosed_closeAt (S : List α) (p : ν) :
    ThresholdClosed members threshold (closeAt members threshold S p) p := by
  unfold closeAt
  split
  · exact .inl (remaining_eq_zero_iff.mpr fun x hx => mem_union_left hx _)
  · exact .inr (Nat.le_of_not_lt (by assumption))

/-- What is added is in every closed set that has the rest. -/
theorem closeAt_subset (h : S ⊆ S') (hclosed : ThresholdClosed members threshold S' p) :
    closeAt members threshold S p ⊆ S' := by
  unfold closeAt
  split
  next hfew =>
      have hle : remaining members S' p ≤ remaining members S p := remaining_anti h p
      have hnone : remaining members S' p = 0 :=
        hclosed.resolve_right fun henough => by omega
      intro x hx
      rcases mem_union_iff.mp hx with hx | hx
      · exact remaining_eq_zero_iff.mp hnone hx
      · exact h hx
  next => exact h

/-- The members of one node do not disturb another that holds none or only such of them. -/
theorem ThresholdClosed.closeAt (hclosed : ThresholdClosed members threshold S q)
    (hnested : members q ⊆ members p ∨ List.Disjoint (members q) (members p)) :
    ThresholdClosed members threshold (closeAt members threshold S p) q := by
  unfold Foundation.closeAt
  split
  · rcases hnested with hsub | hdisjoint
    · exact .inl (remaining_eq_zero_iff.mpr fun x hx => mem_union_left (hsub hx) _)
    · have hsame : remaining members (members p ∪ S) q = remaining members S q := by
        refine countP_congr fun x hx => ?_
        have hnot : x ∉ members p := fun hmem => hdisjoint hx hmem
        simp [mem_union_iff, hnot]
      rwa [ThresholdClosed, hsame]
  · exact hclosed

/-! ## One pass -/

theorem subset_foldl_closeAt (nodes : List ν) :
    ∀ S, S ⊆ nodes.foldl (closeAt members threshold) S := by
  induction nodes with
  | nil => exact fun S => List.Subset.refl S
  | cons p nodes ih => exact fun S => List.Subset.trans (subset_closeAt S p) (ih _)

theorem foldl_closeAt_subset {nodes : List ν}
    (hclosed : ∀ p ∈ nodes, ThresholdClosed members threshold S' p) :
    ∀ {S}, S ⊆ S' → nodes.foldl (closeAt members threshold) S ⊆ S' := by
  induction nodes with
  | nil => exact fun h => h
  | cons p nodes ih =>
    intro S h
    exact ih (fun q hq => hclosed q (mem_cons_of_mem p hq))
      (closeAt_subset h (hclosed p mem_cons_self))

/-- A closed node stays closed in the rest of the pass. -/
theorem ThresholdClosed.foldl_closeAt {nodes : List ν}
    (hnested : ∀ p ∈ nodes, members q ⊆ members p ∨ List.Disjoint (members q) (members p)) :
    ∀ {S}, ThresholdClosed members threshold S q →
      ThresholdClosed members threshold (nodes.foldl (Foundation.closeAt members threshold) S) q := by
  induction nodes with
  | nil => exact fun h => h
  | cons p nodes ih =>
    intro S h
    exact ih (fun p' hp' => hnested p' (mem_cons_of_mem p hp'))
      (h.closeAt (hnested p mem_cons_self))

theorem foldl_closeAt_closed {nodes : List ν}
    (hnested : nodes.Pairwise fun q p =>
      members q ⊆ members p ∨ List.Disjoint (members q) (members p)) :
    ∀ S, ∀ q ∈ nodes,
      ThresholdClosed members threshold (nodes.foldl (closeAt members threshold) S) q := by
  induction nodes with
  | nil => exact fun _ _ hq => nomatch hq
  | cons p nodes ih =>
    intro S q hq
    obtain ⟨hfirst, hrest⟩ := pairwise_cons.mp hnested
    rcases mem_cons.mp hq with rfl | hq
    · exact (thresholdClosed_closeAt S q).foldl_closeAt hfirst
    · exact ih hrest _ q hq

end ResiliencyExt.Foundation
