import Mathlib.Data.Finset.Card
import ResiliencyExt.Foundation.Numbering

set_option autoImplicit false

/-!
# Inprocess: shifting ranks

`ShiftRanks` closes the gaps that terminated ranks leave: a surviving rank moves
down by the number of terminated ranks below it.
-/

namespace ResiliencyExt.Inprocess

open Foundation

/-- The fields of `RankAssignmentCtx` that `ShiftRanks` reads and writes. -/
structure RankAssignmentCtx where
  rank : Nat
  worldSize : Nat
  terminatedRanks : Finset Nat
  deriving DecidableEq

/-- `RankDiscarded` -/
structure RankDiscarded where
  rank : Nat
  terminatedRanks : Finset Nat
  deriving DecidableEq

/-- `sum(rank > terminated_rank for terminated_rank in terminated_ranks)` -/
def terminatedBelow (terminatedRanks : Finset Nat) (rank : Nat) : Nat :=
  (terminatedRanks.filter (· < rank)).card

/-- `ShiftRanks.__call__` -/
def shiftRanksCall (ctx : RankAssignmentCtx) : Except RankDiscarded RankAssignmentCtx :=
  if ctx.rank ∈ ctx.terminatedRanks then .error ⟨ctx.rank, ctx.terminatedRanks⟩
  else
    .ok { rank := ctx.rank - terminatedBelow ctx.terminatedRanks ctx.rank
          worldSize := ctx.worldSize - ctx.terminatedRanks.card
          terminatedRanks := ∅ }

theorem terminatedBelow_eq_holesBelow (terminatedRanks : Finset Nat) (rank : Nat) :
    terminatedBelow terminatedRanks rank = holesBelow terminatedRanks.toList rank := by
  rw [terminatedBelow, holesBelow, List.countP_eq_length_filter, ← Finset.length_toList]
  refine (List.Perm.length_eq ?_)
  refine (List.perm_ext_iff_of_nodup (Finset.nodup_toList _)
    ((Finset.nodup_toList _).filter _)).mpr fun k => ?_
  simp

/-- The rank that a surviving rank gets, `none` for the others. -/
def shiftedRank (worldSize : Nat) (terminatedRanks : Finset Nat) (rank : Nat) : Option Nat :=
  if rank < worldSize then
    match shiftRanksCall ⟨rank, worldSize, terminatedRanks⟩ with
    | .ok ctx => some ctx.rank
    | .error _ => none
  else none

theorem numbering_survivors {worldSize : Nat} {terminatedRanks : Finset Nat}
    (h : ∀ rank ∈ terminatedRanks, rank < worldSize) :
    Numbering (fun rank => if rank < worldSize ∧ rank ∉ terminatedRanks then some rank else none)
      worldSize terminatedRanks.toList where
  injective := by
    intro a b k ha hb
    split at ha <;> split at hb <;> simp_all
  covers k := by
    simp only [Option.ite_none_right_eq_some, Option.some.injEq, Finset.mem_toList]
    constructor
    · intro hk
      by_cases hmem : k ∈ terminatedRanks
      · exact Or.inr hmem
      · exact Or.inl ⟨k, ⟨hk, hmem⟩, rfl⟩
    · rintro (⟨a, ⟨hlt, _⟩, rfl⟩ | hmem)
      · exact hlt
      · exact h k hmem
  disjoint := by
    intro a k ha
    simp only [Option.ite_none_right_eq_some, Option.some.injEq] at ha
    obtain ⟨⟨_, hnot⟩, rfl⟩ := ha
    rwa [Finset.mem_toList]
  nodup := Finset.nodup_toList _

/-- The survivors are numbered without gaps. -/
theorem numbering_shiftedRank {worldSize : Nat} {terminatedRanks : Finset Nat}
    (h : ∀ rank ∈ terminatedRanks, rank < worldSize) :
    Numbering (shiftedRank worldSize terminatedRanks)
      (worldSize - terminatedRanks.card) [] := by
  rw [← Finset.length_toList]
  refine (numbering_survivors h).compact fun rank => ?_
  unfold shiftedRank shiftRanksCall
  by_cases hlt : rank < worldSize
  · by_cases hmem : rank ∈ terminatedRanks
    · simp [hlt, hmem]
    · simp [hlt, hmem, terminatedBelow_eq_holesBelow]
  · simp [hlt]

end ResiliencyExt.Inprocess
