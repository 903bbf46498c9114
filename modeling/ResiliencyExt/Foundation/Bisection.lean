import Mathlib.Algebra.GroupWithZero.Nat
import Mathlib.Data.List.Dedup
import Mathlib.Data.List.Perm.Basic
set_option autoImplicit false

/-!
# Foundation: bisection with an all-or-nothing query

A query answers for a whole list at once, and only whether every element passes.
The elements that pass are found by asking for the whole list and halving what does
not pass, with a stack of index ranges still to resolve.  Ranges are resolved in the
order of the stack, so the elements come out in another order than they stand in.
-/

namespace ResiliencyExt.Foundation.Bisection

open List

variable {α : Type}

/-- The elements at the indices of the half-open range `[lo, hi)`. -/
def segment (items : List α) (lo hi : Nat) : List α :=
  (items.drop lo).take (hi - lo)

/-- How often a range and the ranges it is split into are looked at, at most. -/
def visits (range : Nat × Nat) : Nat :=
  if range.2 ≤ range.1 then 1 else 2 * (range.2 - range.1) - 1

variable {lo hi : Nat} (items : List α)

theorem visits_lt_sum {range : Nat × Nat} (ranges : List (Nat × Nat)) :
    (ranges.map visits).sum < ((range :: ranges).map visits).sum := by
  rw [map_cons, sum_cons, visits]
  split_ifs <;> omega

/-- The halves of a range are looked at less often than the range. -/
theorem visits_halves_lt (hlo : ¬ hi ≤ lo) (hone : ¬ hi - lo = 1) (ranges : List (Nat × Nat)) :
    ((((lo + hi) / 2, hi) :: (lo, (lo + hi) / 2) :: ranges).map visits).sum <
      (((lo, hi) :: ranges).map visits).sum := by
  simp only [map_cons, sum_cons, visits]
  split_ifs <;> omega

/-- Resolve the ranges on the stack, its top at the head. -/
def resolve (query : List α → Bool) (items : List α) :
    List (Nat × Nat) → List α → List α
  | [], found => found
  | (lo, hi) :: ranges, found =>
    if hi ≤ lo then resolve query items ranges found
    else if query (segment items lo hi) then
      resolve query items ranges (found ++ segment items lo hi)
    else if hi - lo = 1 then resolve query items ranges found
    else
      resolve query items (((lo + hi) / 2, hi) :: (lo, (lo + hi) / 2) :: ranges) found
  termination_by ranges => (ranges.map visits).sum
  decreasing_by
  · exact visits_lt_sum ranges
  · exact visits_lt_sum ranges
  · exact visits_lt_sum ranges
  · exact visits_halves_lt ‹_› ‹_› ranges

theorem segment_full : segment items 0 items.length = items := by
  simp [segment]

theorem segment_of_le (h : hi ≤ lo) : segment items lo hi = [] := by
  simp [segment, Nat.sub_eq_zero_of_le h]

theorem segment_split {mid : Nat} (hlo : lo ≤ mid) (hhi : mid ≤ hi) :
    segment items lo hi = segment items lo mid ++ segment items mid hi := by
  have hlen : hi - lo = (mid - lo) + (hi - mid) := by omega
  have hdrop : lo + (mid - lo) = mid := by omega
  rw [segment, segment, segment, hlen, take_add, drop_drop, hdrop]

theorem length_segment_le (lo hi : Nat) : (segment items lo hi).length ≤ hi - lo :=
  length_take_le _ _

variable {query : List α → Bool} {p : α → Bool}

/-- A range of one element that does not pass holds no element that does. -/
theorem filter_segment_single {items : List α} {lo hi : Nat}
    (hquery : ∀ seg, query seg = seg.all p) (hone : hi - lo = 1)
    (hfail : ¬ query (segment items lo hi) = true) : (segment items lo hi).filter p = [] := by
  have hlen := length_segment_le items lo hi
  rw [hquery] at hfail
  match hseg : segment items lo hi with
  | [] => rfl
  | [x] => simpa [hseg] using hfail
  | x :: y :: rest =>
    rw [hseg, hone] at hlen
    simp at hlen

/-- Resolving adds what passes in the ranges of the stack, each element once for each
place it stands at. -/
theorem resolve_perm (hquery : ∀ seg, query seg = seg.all p) (items : List α)
    (ranges : List (Nat × Nat)) (found : List α) :
    (resolve query items ranges found).Perm
      (found ++ ranges.flatMap fun range => (segment items range.1 range.2).filter p) := by
  induction ranges, found using resolve.induct query items with
  | case1 found => simp [resolve]
  | case2 lo hi ranges found hempty ih =>
    simpa [resolve, hempty, segment_of_le items hempty] using ih
  | case3 lo hi ranges found hsome hpass ih =>
    have hall : (segment items lo hi).filter p = segment items lo hi := by
      rw [filter_eq_self]
      exact all_eq_true.mp (hquery _ ▸ hpass)
    simpa [resolve, hsome, hpass, hall] using ih
  | case4 lo hi ranges found hsome hfail hone ih =>
    have hnone := filter_segment_single hquery hone hfail
    simpa [resolve, hsome, hfail, hone, hnone] using ih
  | case5 lo hi ranges found hsome hfail hmany ih =>
    have hsplit : segment items lo hi =
        segment items lo ((lo + hi) / 2) ++ segment items ((lo + hi) / 2) hi :=
      segment_split items (by omega) (by omega)
    rw [resolve, if_neg hsome, if_neg hfail, if_neg hmany]
    refine ih.trans (List.Perm.append_left found ?_)
    simp only [flatMap_cons, hsplit, filter_append, ← append_assoc]
    exact List.Perm.append_right _ perm_append_comm

/-- The elements that pass, found from the whole list. -/
theorem resolve_full_perm (hquery : ∀ seg, query seg = seg.all p) (items : List α) :
    (resolve query items [(0, items.length)] []).Perm (items.filter p) := by
  simpa [segment_full] using resolve_perm hquery items [(0, items.length)] []

end ResiliencyExt.Foundation.Bisection
