import Mathlib.Order.Fin.Basic
import Mathlib.Order.Hom.Set
import ResiliencyExt.Inprocess.ShiftRanks

set_option autoImplicit false

/-!
# Inprocess: shifting ranks keeps their order

The ranks that `ShiftRanks` gives are those of an order isomorphism from the surviving
ranks onto the new world, and successive faults shift as one fault does.
-/

namespace ResiliencyExt.Inprocess

open Foundation

/-- The rank of a surviving rank after the call. -/
def newRank (terminatedRanks : Finset Nat) (rank : Nat) : Nat :=
  rank - terminatedBelow terminatedRanks rank

theorem shiftRanksCall_of_not_mem {terminatedRanks : Finset Nat} {rank : Nat} (worldSize : Nat)
    (h : rank ∉ terminatedRanks) :
    shiftRanksCall ⟨rank, worldSize, terminatedRanks⟩ =
      .ok ⟨newRank terminatedRanks rank, worldSize - terminatedRanks.card, ∅⟩ :=
  if_neg h

theorem shiftRanksCall_of_mem {terminatedRanks : Finset Nat} {rank : Nat} (worldSize : Nat)
    (h : rank ∈ terminatedRanks) :
    shiftRanksCall ⟨rank, worldSize, terminatedRanks⟩ = .error ⟨rank, terminatedRanks⟩ :=
  if_pos h

theorem newRank_lt {terminatedRanks : Finset Nat} {a b : Nat} (ha : a ∉ terminatedRanks)
    (hab : a < b) : newRank terminatedRanks a < newRank terminatedRanks b := by
  obtain ⟨d, rfl⟩ := Nat.exists_eq_add_of_lt hab
  rw [newRank, newRank, terminatedBelow_eq_holesBelow, terminatedBelow_eq_holesBelow]
  exact sub_holesBelow_lt (Finset.nodup_toList _) (fun hmem => ha (Finset.mem_toList.mp hmem)) d

theorem newRank_lt_iff {terminatedRanks : Finset Nat} {a b : Nat} (ha : a ∉ terminatedRanks)
    (hb : b ∉ terminatedRanks) :
    newRank terminatedRanks a < newRank terminatedRanks b ↔ a < b := by
  refine ⟨fun hlt => ?_, newRank_lt ha⟩
  rcases Nat.lt_trichotomy a b with hab | rfl | hba
  · exact hab
  · exact absurd hlt (Nat.lt_irrefl _)
  · exact absurd hlt (Nat.lt_asymm (newRank_lt hb hba))

theorem newRank_inj {terminatedRanks : Finset Nat} {a b : Nat} (ha : a ∉ terminatedRanks)
    (hb : b ∉ terminatedRanks) :
    newRank terminatedRanks a = newRank terminatedRanks b ↔ a = b := by
  refine ⟨fun heq => ?_, fun heq => heq ▸ rfl⟩
  rcases Nat.lt_trichotomy a b with hab | hab | hba
  · exact absurd heq (newRank_lt ha hab).ne
  · exact hab
  · exact absurd heq (newRank_lt hb hba).ne'

/-- The survivors of a world. -/
abbrev Survivor (worldSize : Nat) (terminatedRanks : Finset Nat) : Type :=
  {rank // rank ∈ Finset.range worldSize \ terminatedRanks}

theorem Survivor.not_mem {worldSize : Nat} {terminatedRanks : Finset Nat}
    (rank : Survivor worldSize terminatedRanks) : rank.1 ∉ terminatedRanks :=
  (Finset.mem_sdiff.mp rank.2).2

section

variable {worldSize : Nat} {terminatedRanks : Finset Nat}
  (h : terminatedRanks ⊆ Finset.range worldSize)

include h

theorem holesBelow_worldSize :
    holesBelow terminatedRanks.toList worldSize = terminatedRanks.card := by
  rw [holesBelow_eq_length, Finset.length_toList]
  exact fun k hk => Finset.mem_range.mp (h (Finset.mem_toList.mp hk))

theorem newRank_lt_card (rank : Survivor worldSize terminatedRanks) :
    newRank terminatedRanks rank < worldSize - terminatedRanks.card := by
  have hlt := Finset.mem_range.mp (Finset.mem_sdiff.mp rank.2).1
  have hnew := newRank_lt rank.not_mem hlt
  rwa [newRank, newRank, terminatedBelow_eq_holesBelow _ worldSize, holesBelow_worldSize h] at hnew

theorem exists_newRank_eq {i : Nat} (hi : i < worldSize - terminatedRanks.card) :
    ∃ rank : Survivor worldSize terminatedRanks, newRank terminatedRanks rank = i := by
  rw [← holesBelow_worldSize h] at hi
  obtain ⟨k, hk, hmem, heq⟩ := exists_sub_holesBelow_eq (Finset.nodup_toList _) worldSize i hi
  refine ⟨⟨k, Finset.mem_sdiff.mpr ⟨Finset.mem_range.mpr hk, ?_⟩⟩, ?_⟩
  · exact fun hk => hmem (Finset.mem_toList.mpr hk)
  · rw [newRank, terminatedBelow_eq_holesBelow]
    exact heq

end

/-! ## Successive faults -/

section

variable {first second : Finset Nat} (hdisjoint : Disjoint first second) {rank : Nat}

include hdisjoint

theorem not_mem_first {k : Nat} (hk : k ∈ second) : k ∉ first :=
  fun hfirst => Finset.disjoint_left.mp hdisjoint hfirst hk

theorem mem_image_newRank_iff (hrank : rank ∉ first) :
    newRank first rank ∈ second.image (newRank first) ↔ rank ∈ second := by
  refine ⟨fun hmem => ?_, Finset.mem_image_of_mem _⟩
  obtain ⟨k, hk, heq⟩ := Finset.mem_image.mp hmem
  exact (newRank_inj (not_mem_first hdisjoint hk) hrank).mp heq ▸ hk

theorem card_image_newRank : (second.image (newRank first)).card = second.card :=
  Finset.card_image_of_injOn fun _ ha _ hb heq =>
    (newRank_inj (not_mem_first hdisjoint ha) (not_mem_first hdisjoint hb)).mp heq

/-- The ranks that terminate later lie below the shifted rank as they did before. -/
theorem terminatedBelow_image_newRank (hrank : rank ∉ first) :
    terminatedBelow (second.image (newRank first)) (newRank first rank) =
      terminatedBelow second rank := by
  have hfilter : (second.image (newRank first)).filter (· < newRank first rank) =
      (second.filter (· < rank)).image (newRank first) := by
    rw [Finset.filter_image]
    refine congrArg _ (Finset.filter_congr fun k hk => ?_)
    exact newRank_lt_iff (not_mem_first hdisjoint hk) hrank
  rw [terminatedBelow, hfilter]
  exact Finset.card_image_of_injOn fun a ha b hb heq =>
    (newRank_inj (not_mem_first hdisjoint (Finset.mem_filter.mp ha).1)
      (not_mem_first hdisjoint (Finset.mem_filter.mp hb).1)).mp heq

/-- A rank that is shifted twice. -/
theorem newRank_newRank (hrank : rank ∉ first) :
    newRank (second.image (newRank first)) (newRank first rank) =
      newRank (first ∪ second) rank := by
  have hunion : terminatedBelow (first ∪ second) rank =
      terminatedBelow first rank + terminatedBelow second rank := by
    rw [terminatedBelow, Finset.filter_union]
    exact Finset.card_union_of_disjoint (Finset.disjoint_filter_filter hdisjoint)
  rw [newRank, terminatedBelow_image_newRank hdisjoint hrank, newRank, newRank, hunion,
    Nat.sub_sub]

end

/-- Two calls, where the ranks that terminate between them are those of `second`, as the first
call has shifted them. -/
def shiftTwice (worldSize : Nat) (first second : Finset Nat) (rank : Nat) :
    Except RankDiscarded RankAssignmentCtx := do
  let ctx ← shiftRanksCall ⟨rank, worldSize, first⟩
  shiftRanksCall { ctx with terminatedRanks := second.image (newRank first) }

theorem shiftTwice_eq {first second : Finset Nat} (hdisjoint : Disjoint first second)
    (worldSize rank : Nat) :
    (shiftTwice worldSize first second rank).toOption =
      (shiftRanksCall ⟨rank, worldSize, first ∪ second⟩).toOption := by
  unfold shiftTwice
  by_cases hfirst : rank ∈ first
  · rw [shiftRanksCall_of_mem _ hfirst,
      shiftRanksCall_of_mem _ (Finset.mem_union_left second hfirst)]
    rfl
  · rw [shiftRanksCall_of_not_mem _ hfirst]
    change (shiftRanksCall ⟨newRank first rank, worldSize - first.card,
      second.image (newRank first)⟩).toOption = _
    by_cases hsecond : rank ∈ second
    · rw [shiftRanksCall_of_mem _ ((mem_image_newRank_iff hdisjoint hfirst).mpr hsecond),
        shiftRanksCall_of_mem _ (Finset.mem_union_right first hsecond)]
      rfl
    · have hunion : rank ∉ first ∪ second := fun hmem =>
        (Finset.mem_union.mp hmem).elim hfirst hsecond
      rw [shiftRanksCall_of_not_mem _ fun hmem =>
          hsecond ((mem_image_newRank_iff hdisjoint hfirst).mp hmem),
        shiftRanksCall_of_not_mem _ hunion, newRank_newRank hdisjoint hfirst,
        card_image_newRank hdisjoint, Finset.card_union_of_disjoint hdisjoint, Nat.sub_sub]

/-- The surviving ranks are shifted by an order isomorphism onto the new world, and by successive
faults as by all of them at once. -/
theorem shiftRanks_orderIso {worldSize : Nat} {terminatedRanks : Finset Nat}
    (h : terminatedRanks ⊆ Finset.range worldSize) :
    (∃ shift : Survivor worldSize terminatedRanks ≃o Fin (worldSize - terminatedRanks.card),
      ∀ rank : Survivor worldSize terminatedRanks,
        shiftRanksCall ⟨rank, worldSize, terminatedRanks⟩ =
          .ok ⟨shift rank, worldSize - terminatedRanks.card, ∅⟩) ∧
    ∀ first second, Disjoint first second → first ∪ second = terminatedRanks →
      ∀ rank, (shiftTwice worldSize first second rank).toOption =
        (shiftRanksCall ⟨rank, worldSize, terminatedRanks⟩).toOption := by
  constructor
  · let shift : Survivor worldSize terminatedRanks → Fin (worldSize - terminatedRanks.card) :=
      fun rank => ⟨newRank terminatedRanks rank, newRank_lt_card h rank⟩
    have hmono : StrictMono shift := fun a b hab => newRank_lt a.not_mem hab
    have hsurj : Function.Surjective shift := fun i =>
      (exists_newRank_eq h i.isLt).imp fun rank hrank => Fin.ext hrank
    exact ⟨hmono.orderIsoOfSurjective shift hsurj, fun rank =>
      shiftRanksCall_of_not_mem worldSize rank.not_mem⟩
  · rintro first second hdisjoint rfl rank
    exact shiftTwice_eq hdisjoint worldSize rank

theorem shiftRanks_orderIso_twoFaults :
    (shiftTwice 6 {1} {4} 5).toOption =
      (shiftRanksCall ⟨5, 6, {1, 4}⟩).toOption ∧
    ∃ shift : Survivor 6 {1, 4} ≃o Fin 4, ∀ rank : Survivor 6 {1, 4},
      shiftRanksCall ⟨rank, 6, {1, 4}⟩ = .ok ⟨shift rank, 4, ∅⟩ :=
  have hbelow : ({1, 4} : Finset Nat) ⊆ Finset.range 6 := by decide
  ⟨(shiftRanks_orderIso hbelow).2 {1} {4} (by decide) (by decide) 5,
    (shiftRanks_orderIso hbelow).1⟩

end ResiliencyExt.Inprocess
