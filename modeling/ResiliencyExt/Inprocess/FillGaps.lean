import Mathlib.Order.Interval.Finset.Nat
import ResiliencyExt.Inprocess.ShiftRanks

set_option autoImplicit false

/-!
# Inprocess: filling gaps

`FillGaps` keeps the surviving ranks below the new world size and moves the others
to terminated ranks.  A rank that moves takes the terminated rank at the place that
the rank itself has above the new world size.  The gaps to be filled are the first
terminated ranks, so that a moved rank gets one of them exactly when its place is
among the first (`takes_gap_iff`); the moved ranks have these places exactly when no
terminated rank above the new world size stands below one of them.
-/

namespace ResiliencyExt.Inprocess

open List

/-- `RankDiscarded`, and the `IndexError` of a subscript out of range. -/
inductive FillGapsError where
  | rankDiscarded (rank : Nat) (terminatedRanks : Finset Nat)
  | indexError
  deriving DecidableEq

/-- `sorted(list(terminated_ranks))` -/
def orderedTerminatedRanks (terminatedRanks : Finset Nat) : List Nat :=
  Quot.liftOn terminatedRanks.val (insertionSort (· ≤ ·)) fun _ _ h =>
    ((perm_insertionSort _ _).trans
      (h.trans (perm_insertionSort _ _).symm)).eq_of_pairwise'
        (pairwise_insertionSort _ _) (pairwise_insertionSort _ _)

/-- `FillGaps.__call__` -/
def fillGapsCall (ctx : RankAssignmentCtx) : Except FillGapsError RankAssignmentCtx :=
  let worldSize := ctx.worldSize - ctx.terminatedRanks.card
  if ctx.rank ∈ ctx.terminatedRanks then
    .error (.rankDiscarded ctx.rank ctx.terminatedRanks)
  else if worldSize ≤ ctx.rank then
    match (orderedTerminatedRanks ctx.terminatedRanks)[ctx.rank - worldSize]? with
    | some rank => .ok ⟨rank, worldSize, ∅⟩
    | none => .error .indexError
  else .ok ⟨ctx.rank, worldSize, ∅⟩

/-! ## The terminated ranks in order -/

variable {worldSize : Nat} {terminatedRanks : Finset Nat}

theorem orderedTerminatedRanks_spec (terminatedRanks : Finset Nat) :
    (orderedTerminatedRanks terminatedRanks).Pairwise (· < ·) ∧
      (∀ rank, rank ∈ orderedTerminatedRanks terminatedRanks ↔ rank ∈ terminatedRanks) ∧
      (orderedTerminatedRanks terminatedRanks).length = terminatedRanks.card := by
  obtain ⟨ranks, hnodup⟩ := terminatedRanks
  induction ranks using Quot.inductionOn with
  | _ ranks =>
    have hperm := perm_insertionSort (· ≤ ·) ranks
    have hsorted := pairwise_insertionSort (· ≤ ·) ranks
    refine ⟨?_, fun rank => hperm.mem_iff, hperm.length_eq⟩
    exact (hsorted.and (hperm.nodup_iff.mpr hnodup)).imp fun h => by omega

/-- In a strictly increasing list the entries below a bound are the first ones. -/
theorem getElem_lt_iff {ranks : List Nat} (hsorted : ranks.Pairwise (· < ·)) (bound : Nat) :
    ∀ {i : Nat} (hi : i < ranks.length),
      ranks[i] < bound ↔ i < ranks.countP fun rank => rank < bound := by
  induction ranks with
  | nil => exact fun hi => absurd hi (Nat.not_lt_zero _)
  | cons first rest ih =>
    obtain ⟨hfirst, hrest⟩ := pairwise_cons.mp hsorted
    intro i hi
    by_cases hbound : first < bound
    · rw [countP_cons_of_pos (by simpa using hbound)]
      cases i with
      | zero => simpa using hbound
      | succ i =>
        rw [getElem_cons_succ, ih hrest (Nat.lt_of_succ_lt_succ hi)]
        exact Nat.succ_lt_succ_iff.symm
    · -- nothing after the first entry is smaller
      have hnone : (first :: rest).countP (fun rank => rank < bound) = 0 := by
        refine countP_eq_zero.mpr fun rank hmem => ?_
        rcases mem_cons.mp hmem with rfl | hmem
        · simpa using hbound
        · have := hfirst rank hmem
          simp only [decide_eq_true_eq]
          omega
      rw [hnone]
      cases i with
      | zero => simpa using hbound
      | succ i =>
        have := hfirst _ (getElem_mem (Nat.lt_of_succ_lt_succ hi))
        rw [getElem_cons_succ]
        omega

/-- The gaps below the new world size. -/
def gaps (worldSize : Nat) (terminatedRanks : Finset Nat) : Finset Nat :=
  terminatedRanks.filter (· < worldSize - terminatedRanks.card)

/-- The surviving ranks that move. -/
def movedRanks (worldSize : Nat) (terminatedRanks : Finset Nat) : Finset Nat :=
  (Finset.Ico (worldSize - terminatedRanks.card) worldSize).filter (· ∉ terminatedRanks)

theorem countP_orderedTerminatedRanks (terminatedRanks : Finset Nat) (bound : Nat) :
    (orderedTerminatedRanks terminatedRanks).countP (fun rank => rank < bound) =
      (terminatedRanks.filter (· < bound)).card := by
  obtain ⟨ranks, hnodup⟩ := terminatedRanks
  induction ranks using Quot.inductionOn with
  | _ ranks =>
    refine ((perm_insertionSort (· ≤ ·) ranks).countP_eq _).trans ?_
    rw [countP_eq_length_filter]
    rfl

/-- A moved rank takes a gap exactly when its place is among the first. -/
theorem takes_gap_iff {i : Nat} (hi : i < (orderedTerminatedRanks terminatedRanks).length) :
    (orderedTerminatedRanks terminatedRanks)[i] < worldSize - terminatedRanks.card ↔
      i < (gaps worldSize terminatedRanks).card := by
  rw [getElem_lt_iff (orderedTerminatedRanks_spec terminatedRanks).1,
    countP_orderedTerminatedRanks]
  rfl

/-! ## Counting -/

theorem card_le_worldSize (h : ∀ rank ∈ terminatedRanks, rank < worldSize) :
    terminatedRanks.card ≤ worldSize := by
  have hsubset : terminatedRanks ⊆ Finset.range worldSize := fun rank hmem =>
    Finset.mem_range.mpr (h rank hmem)
  exact (Finset.card_le_card hsubset).trans_eq (Finset.card_range worldSize)

/-- As many ranks move as there are gaps. -/
theorem card_movedRanks (h : ∀ rank ∈ terminatedRanks, rank < worldSize) :
    (movedRanks worldSize terminatedRanks).card = (gaps worldSize terminatedRanks).card := by
  have hle := card_le_worldSize h
  have hico := Finset.card_filter_add_card_filter_not (s := Finset.Ico
    (worldSize - terminatedRanks.card) worldSize) (· ∈ terminatedRanks)
  have hterminated := Finset.card_filter_add_card_filter_not (s := terminatedRanks)
    (· < worldSize - terminatedRanks.card)
  have hsame : (Finset.Ico (worldSize - terminatedRanks.card) worldSize).filter
      (· ∈ terminatedRanks) =
        terminatedRanks.filter fun rank => ¬ rank < worldSize - terminatedRanks.card := by
    ext rank
    simp only [Finset.mem_filter, Finset.mem_Ico, Nat.not_lt]
    constructor
    · rintro ⟨⟨hlow, -⟩, hmem⟩
      exact ⟨hmem, hlow⟩
    · rintro ⟨hmem, hlow⟩
      exact ⟨⟨hlow, h rank hmem⟩, hmem⟩
  rw [Nat.card_Ico, hsame] at hico
  unfold movedRanks gaps
  omega

/-- The moved ranks have the first places above the new world size exactly when no terminated rank
there stands below one of them. -/
theorem moved_first_iff (h : ∀ rank ∈ terminatedRanks, rank < worldSize) :
    (∀ rank ∈ movedRanks worldSize terminatedRanks,
        rank - (worldSize - terminatedRanks.card) < (gaps worldSize terminatedRanks).card) ↔
      ∀ terminated ∈ terminatedRanks, worldSize - terminatedRanks.card ≤ terminated →
        ∀ rank < worldSize, rank ∉ terminatedRanks → rank < terminated := by
  rw [← card_movedRanks h]
  constructor
  · intro hfirst terminated hterminated hlow rank hrank hsurvives
    by_cases hmoved : worldSize - terminatedRanks.card ≤ rank
    · -- the moved ranks are all the ranks of an interval, which the terminated rank is not in
      have hsubset : movedRanks worldSize terminatedRanks ⊆
          Finset.Ico (worldSize - terminatedRanks.card)
            (worldSize - terminatedRanks.card + (movedRanks worldSize terminatedRanks).card) := by
        intro moved hmem
        have hplace := hfirst moved hmem
        obtain ⟨hlow, -⟩ := Finset.mem_Ico.mp (Finset.mem_filter.mp hmem).1
        exact Finset.mem_Ico.mpr ⟨hlow, by omega⟩
      have heq := Finset.eq_of_subset_of_card_le hsubset (by rw [Nat.card_Ico]; omega)
      have hrankMem : rank ∈ movedRanks worldSize terminatedRanks :=
        Finset.mem_filter.mpr ⟨Finset.mem_Ico.mpr ⟨hmoved, hrank⟩, hsurvives⟩
      have hplace := hfirst rank hrankMem
      by_contra hnot
      have hmem : terminated ∈ movedRanks worldSize terminatedRanks := by
        rw [heq]
        exact Finset.mem_Ico.mpr ⟨hlow, by omega⟩
      exact (Finset.mem_filter.mp hmem).2 hterminated
    · omega
  · intro hbelow rank hmem
    obtain ⟨hico, hsurvives⟩ := Finset.mem_filter.mp hmem
    obtain ⟨hlow, hrank⟩ := Finset.mem_Ico.mp hico
    -- every rank from the new world size up to this one moves
    have hsubset : Finset.Icc (worldSize - terminatedRanks.card) rank ⊆
        movedRanks worldSize terminatedRanks := by
      intro other hother
      obtain ⟨hlow', hle⟩ := Finset.mem_Icc.mp hother
      refine Finset.mem_filter.mpr ⟨Finset.mem_Ico.mpr ⟨hlow', by omega⟩, fun hterminated => ?_⟩
      have := hbelow other hterminated hlow' rank hrank hsurvives
      omega
    have hcard := Finset.card_le_card hsubset
    rw [Nat.card_Icc] at hcard
    omega

/-! ## The new ranks -/

/-- Every surviving rank gets a new one in the new world, the new ranks are a bijection onto the
new world, and a rank below the new world size is kept. -/
def FillsGaps (worldSize : Nat) (terminatedRanks : Finset Nat) : Prop :=
  ∃ newRank : Nat → Nat,
    (∀ rank < worldSize, rank ∉ terminatedRanks →
      fillGapsCall ⟨rank, worldSize, terminatedRanks⟩ =
        .ok ⟨newRank rank, worldSize - terminatedRanks.card, ∅⟩) ∧
    Set.BijOn newRank {rank | rank < worldSize ∧ rank ∉ terminatedRanks}
      {rank | rank < worldSize - terminatedRanks.card} ∧
    ∀ rank < worldSize - terminatedRanks.card, rank ∉ terminatedRanks → newRank rank = rank

/-- The rank that `fillGapsCall` gives a survivor. -/
def filledRank (worldSize : Nat) (terminatedRanks : Finset Nat) (rank : Nat) : Nat :=
  if worldSize - terminatedRanks.card ≤ rank then
    ((orderedTerminatedRanks terminatedRanks)[rank -
      (worldSize - terminatedRanks.card)]?).getD rank
  else rank

section

variable (h : ∀ rank ∈ terminatedRanks, rank < worldSize)
include h

/-- The place of a moved rank is one of the terminated ranks. -/
theorem place_lt_length {rank : Nat} (hrank : rank < worldSize)
    (hlow : worldSize - terminatedRanks.card ≤ rank) :
    rank - (worldSize - terminatedRanks.card) <
      (orderedTerminatedRanks terminatedRanks).length := by
  have hle := card_le_worldSize h
  rw [(orderedTerminatedRanks_spec terminatedRanks).2.2]
  omega

theorem filledRank_of_le {rank : Nat} (hrank : rank < worldSize)
    (hlow : worldSize - terminatedRanks.card ≤ rank) :
    filledRank worldSize terminatedRanks rank =
      (orderedTerminatedRanks terminatedRanks).get
        ⟨rank - (worldSize - terminatedRanks.card), place_lt_length h hrank hlow⟩ := by
  rw [filledRank, if_pos hlow, getElem?_eq_getElem (place_lt_length h hrank hlow)]
  rfl

theorem fillGapsCall_eq {rank : Nat} (hrank : rank < worldSize)
    (hsurvives : rank ∉ terminatedRanks) :
    fillGapsCall ⟨rank, worldSize, terminatedRanks⟩ =
      .ok ⟨filledRank worldSize terminatedRanks rank,
        worldSize - terminatedRanks.card, ∅⟩ := by
  simp only [fillGapsCall, if_neg hsurvives]
  by_cases hlow : worldSize - terminatedRanks.card ≤ rank
  · rw [if_pos hlow, filledRank_of_le h hrank hlow,
      getElem?_eq_getElem (place_lt_length h hrank hlow)]
    rfl
  · rw [if_neg hlow, filledRank, if_neg hlow]

/-- Different survivors get different ranks: a moved one gets a terminated rank, at a place of its
own. -/
theorem filledRank_injOn :
    Set.InjOn (filledRank worldSize terminatedRanks)
      {rank | rank < worldSize ∧ rank ∉ terminatedRanks} := by
  obtain ⟨hsorted, hmem, -⟩ := orderedTerminatedRanks_spec terminatedRanks
  have hkept : ∀ rank, ¬ worldSize - terminatedRanks.card ≤ rank →
      filledRank worldSize terminatedRanks rank = rank := fun rank hlow => if_neg hlow
  have hmoved : ∀ rank, rank < worldSize → worldSize - terminatedRanks.card ≤ rank →
      filledRank worldSize terminatedRanks rank ∈ terminatedRanks := by
    intro rank hrank hlow
    rw [filledRank_of_le h hrank hlow]
    exact (hmem _).mp (get_mem _ _)
  rintro a ⟨ha, hasurvives⟩ b ⟨hb, hbsurvives⟩ heq
  by_cases halow : worldSize - terminatedRanks.card ≤ a
  · by_cases hblow : worldSize - terminatedRanks.card ≤ b
    · rw [filledRank_of_le h ha halow, filledRank_of_le h hb hblow] at heq
      have hnodup : (orderedTerminatedRanks terminatedRanks).Nodup :=
        hsorted.imp fun hless => Nat.ne_of_lt hless
      have hplace := congrArg Fin.val (nodup_iff_injective_get.mp hnodup heq)
      simp only at hplace
      omega
    · rw [hkept b hblow] at heq
      exact absurd (heq ▸ hmoved a ha halow) hbsurvives
  · by_cases hblow : worldSize - terminatedRanks.card ≤ b
    · rw [hkept a halow] at heq
      exact absurd (heq ▸ hmoved b hb hblow) hasurvives
    · rwa [hkept a halow, hkept b hblow] at heq

/-- The survivors fit into the new world exactly when every moved rank takes a gap. -/
theorem filledRank_mapsTo_iff :
    (∀ rank, rank < worldSize → rank ∉ terminatedRanks →
        filledRank worldSize terminatedRanks rank < worldSize - terminatedRanks.card) ↔
      ∀ rank ∈ movedRanks worldSize terminatedRanks,
        rank - (worldSize - terminatedRanks.card) < (gaps worldSize terminatedRanks).card := by
  constructor
  · intro hmaps rank hmem
    obtain ⟨hico, hsurvives⟩ := Finset.mem_filter.mp hmem
    obtain ⟨hlow, hrank⟩ := Finset.mem_Ico.mp hico
    have hnew := hmaps rank hrank hsurvives
    rw [filledRank_of_le h hrank hlow] at hnew
    exact (takes_gap_iff (place_lt_length h hrank hlow)).mp hnew
  · intro hplaces rank hrank hsurvives
    by_cases hlow : worldSize - terminatedRanks.card ≤ rank
    · rw [filledRank_of_le h hrank hlow]
      refine (takes_gap_iff (place_lt_length h hrank hlow)).mpr (hplaces rank ?_)
      exact Finset.mem_filter.mpr ⟨Finset.mem_Ico.mpr ⟨hlow, hrank⟩, hsurvives⟩
    · rw [filledRank, if_neg hlow]
      omega

theorem fillsGaps_of_mapsTo
    (hmaps : ∀ rank, rank < worldSize → rank ∉ terminatedRanks →
      filledRank worldSize terminatedRanks rank < worldSize - terminatedRanks.card) :
    FillsGaps worldSize terminatedRanks := by
  refine ⟨filledRank worldSize terminatedRanks, fun rank => fillGapsCall_eq h,
    ⟨fun rank hmem => hmaps rank hmem.1 hmem.2, filledRank_injOn h, ?_⟩,
    fun rank hlow _ => if_neg (Nat.not_le.mpr hlow)⟩
  -- as many survivors as places in the new world
  have hsurvivors : (Finset.range worldSize \ terminatedRanks).card =
      (Finset.range (worldSize - terminatedRanks.card)).card := by
    rw [Finset.card_sdiff_of_subset fun rank hmem => Finset.mem_range.mpr (h rank hmem),
      Finset.card_range, Finset.card_range]
  have hcoe : {rank | rank < worldSize ∧ rank ∉ terminatedRanks} =
      ((Finset.range worldSize \ terminatedRanks : Finset Nat) : Set Nat) := by
    ext rank
    simp
  have hcoe' : {rank | rank < worldSize - terminatedRanks.card} =
      (Finset.range (worldSize - terminatedRanks.card) : Set Nat) := by
    ext rank
    simp
  rw [hcoe, hcoe']
  refine Finset.surjOn_of_injOn_of_card_le _ (fun rank hmem => ?_) ?_ hsurvivors.ge
  · rw [← hcoe] at hmem
    rw [← hcoe']
    exact hmaps rank hmem.1 hmem.2
  · rw [← hcoe]
    exact filledRank_injOn h

end

/-- **When `FillGaps` fills the gaps.**  The survivors are assigned the new world one to one
exactly when no terminated rank at or above the new world size stands below a survivor. -/
theorem fillsGaps_iff (h : ∀ rank ∈ terminatedRanks, rank < worldSize) :
    FillsGaps worldSize terminatedRanks ↔
      ∀ terminated ∈ terminatedRanks, worldSize - terminatedRanks.card ≤ terminated →
        ∀ rank < worldSize, rank ∉ terminatedRanks → rank < terminated := by
  rw [← moved_first_iff h, ← filledRank_mapsTo_iff h]
  constructor
  · rintro ⟨newRank, hcall, hbij, -⟩ rank hrank hsurvives
    have heq := (hcall rank hrank hsurvives).symm.trans (fillGapsCall_eq h hrank hsurvives)
    simp only [Except.ok.injEq, RankAssignmentCtx.mk.injEq, and_true] at heq
    exact heq ▸ hbij.mapsTo ⟨hrank, hsurvives⟩
  · exact fillsGaps_of_mapsTo h

/-- Ranks 6 and 7 stand above all survivors, and rank 5 fills the gap at 1. -/
theorem fillsGaps_lastTerminated : FillsGaps 8 {1, 6, 7} :=
  (fillsGaps_iff (by decide)).mpr (by decide)

/-- Of eight ranks with 1, 4 and 5 terminated, the last one gets rank 5 of five. -/
theorem not_fillsGaps : ¬ FillsGaps 8 {1, 4, 5} := by
  rintro ⟨newRank, hcall, hbij, -⟩
  have heq := (hcall 7 (by decide) (by decide)).symm.trans
    (show fillGapsCall ⟨7, 8, {1, 4, 5}⟩ = .ok ⟨5, 5, ∅⟩ by decide)
  simp only [Except.ok.injEq, RankAssignmentCtx.mk.injEq] at heq
  have hmem : newRank 7 < 8 - ({1, 4, 5} : Finset Nat).card :=
    hbij.mapsTo ⟨by decide, by decide⟩
  rw [heq.1] at hmem
  exact absurd hmem (by decide)

end ResiliencyExt.Inprocess
