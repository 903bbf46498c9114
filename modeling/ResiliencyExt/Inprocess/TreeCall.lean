import ResiliencyExt.Inprocess.TreeBackfill

set_option autoImplicit false

/-!
# Inprocess: one call of `Tree`

`Ready` is what holds between calls.  The first call establishes it by walking
the leaves, and every call restores it: the phases keep the active ranks a
numbering, and the recomputed ranks put the healthy leaves first.
-/

namespace ResiliencyExt.Inprocess

open Foundation List

variable {T : Topology}

/-- A tree between calls, for processes that see `worldSize`. -/
structure Ready (T : Topology) (st : TreeState) (worldSize : Int) : Prop where
  settled : ∃ activeWorldSize, Settled T st activeWorldSize
  cleared : ∀ a, (st.leaf a).mode = .terminated → (st.leaf a).activeRank = none
  rankMap : st.rankMap.Perm T.leaves
  rank : ∀ a, ∀ r : Nat, (st.leaf a).rank = some r ↔ st.rankMap[r]? = some a
  healthy : ∀ a, ∀ r : Nat, st.rankMap[r]? = some a →
    ((st.leaf a).mode ≠ .terminated ↔ (r : Int) < worldSize)
  count : (T.leaves.countP fun a => (st.leaf a).mode ≠ .terminated : Int) = worldSize
  worldSize : ∀ a ∈ T.leaves, (st.leaf a).worldSize = worldSize

/-! ## The first call -/

variable {walk : TreeState × Nat} {leaf r : Nat} {st : TreeState} {terminatedRanks : List Nat}
    {worldSize activeWorldSize : Int} (a : Nat)

variable {st' : TreeState} {terminated : List Nat} (filter : Option WorldSizeFilter)

theorem activateLeaf_shape (h : Shape T walk.1) (hleaf : leaf ∈ T.leaves) :
    Shape T (activateLeaf T walk leaf).1 := by
  simp only [activateLeaf]
  split
  · have hactivated := h.activate walk.2 hleaf
    exact ⟨hactivated.member, hactivated.active, hactivated.inactive,
      hactivated.inactiveNodes, hactivated.nodup⟩
  · exact h.deactivate hleaf

theorem activateLeaf_of_ne (walk : TreeState × Nat) {other : Nat} (h : other ≠ leaf) :
    (activateLeaf T walk leaf).1.leaf other = walk.1.leaf other := by
  simp only [activateLeaf]
  split
  · exact activate_of_ne (T := T) walk.1 walk.2 h
  · exact deactivate_of_ne walk.1 h

/-- The visited leaf takes the next active rank or none. -/
theorem activateLeaf_numbering (hleaf : (walk.1.leaf leaf).mode = .initialized)
    (h : Numbering (activeNumber walk.1) walk.2 []) :
    Numbering (activeNumber (activateLeaf T walk leaf).1) (activateLeaf T walk leaf).2 [] := by
  have hnone : activeNumber walk.1 leaf = none := activeNumber_of_ne (by simp [hleaf])
  have hother : ∀ b, b ≠ leaf →
      activeNumber (activateLeaf T walk leaf).1 b = activeNumber walk.1 b := fun b hb =>
    activeNumber_congr (activateLeaf_of_ne walk hb)
  by_cases hroom : (T.ancestors leaf).all (hasRoom T walk.1)
  · have hself : activeNumber (activateLeaf T walk leaf).1 leaf = some walk.2 := by
      rw [activeNumber_eq_some]
      simp only [activateLeaf, if_pos hroom, activate_self]
      exact ⟨trivial, trivial⟩
    have hcounter : (activateLeaf T walk leaf).2 = walk.2 + 1 := by
      simp only [activateLeaf, if_pos hroom]
    rw [hcounter]
    exact h.push hnone hself hother
  · have hself : activeNumber (activateLeaf T walk leaf).1 leaf = none := by
      refine activeNumber_of_ne ?_
      simp only [activateLeaf, if_neg hroom, deactivate_self]
      simp
    have hcounter : (activateLeaf T walk leaf).2 = walk.2 := by
      simp only [activateLeaf, if_neg hroom]
    rw [hcounter]
    refine h.congr fun b => ?_
    by_cases hb : b = leaf
    · rw [hb, hself, hnone]
    · exact hother b hb

/-- What the walk keeps of a leaf. -/
structure SameRanks (s s' : LeafState) : Prop where
  rank : s'.rank = s.rank
  worldSize : s'.worldSize = s.worldSize
  terminated : s'.mode = .terminated ↔ s.mode = .terminated

theorem activateLeaf_sameRanks (hleaf : (walk.1.leaf leaf).mode = .initialized) (a : Nat) :
    SameRanks (walk.1.leaf a) ((activateLeaf T walk leaf).1.leaf a) := by
  by_cases ha : a = leaf
  · subst ha
    simp only [activateLeaf]
    split
    · simp only [activate_self]
      exact ⟨rfl, rfl, by simp [hleaf]⟩
    · simp only [deactivate_self]
      exact ⟨rfl, rfl, by simp [hleaf]⟩
  · rw [activateLeaf_of_ne walk ha]
    exact ⟨rfl, rfl, Iff.rfl⟩

theorem activateLeaf_rankMap (walk : TreeState × Nat) (leaf : Nat) :
    (activateLeaf T walk leaf).1.rankMap = walk.1.rankMap := by
  simp only [activateLeaf]
  split
  · rfl
  · rfl

/-- The walk over leaves that were not visited yet. -/
structure Walked (T : Topology) (st : TreeState) (walk : TreeState × Nat) : Prop where
  shape : Shape T walk.1
  numbering : Numbering (activeNumber walk.1) walk.2 []
  ranks : ∀ a, SameRanks (st.leaf a) (walk.1.leaf a)
  rankMap : walk.1.rankMap = st.rankMap

theorem foldl_activateLeaf {leaves : List Nat} (h : Walked T st walk)
    (hleaves : ∀ a ∈ leaves, a ∈ T.leaves)
    (hfresh : ∀ a ∈ leaves, (walk.1.leaf a).mode = .initialized) (hnodup : leaves.Nodup) :
    Walked T st (leaves.foldl (activateLeaf T) walk) := by
  induction leaves generalizing walk with
  | nil => exact h
  | cons leaf rest ih =>
    obtain ⟨hleaf, hrest⟩ := nodup_cons.mp hnodup
    have hinitial := hfresh leaf mem_cons_self
    have hstep : Walked T st (activateLeaf T walk leaf) := by
      refine ⟨activateLeaf_shape h.shape (hleaves leaf mem_cons_self),
        activateLeaf_numbering hinitial h.numbering, fun a => ?_, ?_⟩
      · have hbefore := h.ranks a
        have hafter := activateLeaf_sameRanks (T := T) hinitial a
        exact ⟨hafter.rank.trans hbefore.rank, hafter.worldSize.trans hbefore.worldSize,
          hafter.terminated.trans hbefore.terminated⟩
      · rw [activateLeaf_rankMap, h.rankMap]
    refine ih hstep (fun a ha => hleaves a (mem_cons_of_mem leaf ha)) ?_ hrest
    intro a ha
    have hne : a ≠ leaf := fun heq => hleaf (heq ▸ ha)
    rw [activateLeaf_of_ne walk hne]
    exact hfresh a (mem_cons_of_mem leaf ha)

theorem builtTree_walked : Walked T (builtTree T) (builtTree T, 0) where
  shape :=
    { member := fun a ha => by simp [builtTree] at ha
      active := fun a ha => by simp [builtTree] at ha
      inactive := fun a ha => by simp [builtTree] at ha
      inactiveNodes := fun p a => by simp [builtTree]
      nodup := fun p => nodup_nil }
  numbering := Numbering.empty.congr fun a => by simp [activeNumber, builtTree]
  ranks a := ⟨rfl, rfl, Iff.rfl⟩
  rankMap := rfl

theorem boundedActivate_walked : Walked T (builtTree T) (boundedActivate T (builtTree T)) :=
  foldl_activateLeaf builtTree_walked (fun _ ha => ha) (fun _ _ => rfl) T.leaves_nodup

theorem leaf_startTree :
    (startTree T).leaf a =
      if a ∈ T.initialRanks then
        { (boundedActivate T (builtTree T)).1.leaf a with
          activeWorldSize := some ((boundedActivate T (builtTree T)).2 : Int) }
      else (boundedActivate T (builtTree T)).1.leaf a := by
  have hrankMap : (boundedActivate T (builtTree T)).1.rankMap = T.initialRanks :=
    boundedActivate_walked.rankMap
  simp only [startTree, TreeState.modifyRankMap, hrankMap]

theorem startTree_sameRanks : SameRanks ((builtTree T).leaf a) ((startTree T).leaf a) := by
  have hwalk := boundedActivate_walked.ranks (T := T) a
  rw [leaf_startTree]
  split
  · exact ⟨hwalk.rank, hwalk.worldSize, hwalk.terminated⟩
  · exact hwalk

theorem startTree_healthy : ((startTree T).leaf a).mode ≠ .terminated := by
  rw [ne_eq, (startTree_sameRanks a).terminated]
  simp [builtTree]

theorem mode_startTree : ((startTree T).leaf a).mode =
    ((boundedActivate T (builtTree T)).1.leaf a).mode := by
  rw [leaf_startTree]
  split
  · rfl
  · rfl

theorem startTree_settled :
    Settled T (startTree T) ((boundedActivate T (builtTree T)).2 : Int) := by
  have hwalk := boundedActivate_walked (T := T)
  have hmode := mode_startTree (T := T)
  have hactive : ∀ a, ((startTree T).leaf a).activeRank =
      ((boundedActivate T (builtTree T)).1.leaf a).activeRank := by
    intro a
    rw [leaf_startTree]
    split
    · rfl
    · rfl
  refine ⟨hwalk.shape.relabel hmode ?_ ?_ rfl, ?_, ?_⟩
  · intro a ha
    rw [hactive]
    exact hwalk.shape.active a ha
  · intro a ha
    rw [hactive]
    exact hwalk.shape.inactive a ha
  · intro a ha
    rw [leaf_startTree, if_pos (T.leaves_perm.mem_iff.mp ha)]
  · rw [Int.toNat_natCast]
    refine hwalk.numbering.congr fun a => ?_
    rw [activeNumber, activeNumber, hmode, hactive]

/-- The first call starts from a tree on which every rank is healthy. -/
theorem startTree_ready : Ready T (startTree T) T.initialRanks.length := by
  have hrankMap : (startTree T).rankMap = T.initialRanks := boundedActivate_walked.rankMap
  have hrank : ∀ a r, ((startTree T).leaf a).rank = some r ↔ T.initialRanks[r]? = some a := by
    intro a r
    rw [(startTree_sameRanks a).rank]
    simp only [builtTree]
    by_cases ha : a ∈ T.initialRanks
    · rw [if_pos ha, Option.some.injEq]
      constructor
      · rintro rfl
        exact getElem?_idxOf ha
      · intro hget
        obtain ⟨hlt, rfl⟩ := List.getElem?_eq_some_iff.mp hget
        exact T.nodup.idxOf_getElem r hlt
    · rw [if_neg ha]
      constructor
      · simp
      · exact fun hget => absurd (mem_of_getElem? hget) ha
  refine ⟨⟨_, startTree_settled⟩, ?_, ?_, ?_, ?_, ?_, ?_⟩
  · exact fun a ha => absurd ha (startTree_healthy a)
  · rw [hrankMap]
    exact T.leaves_perm.symm
  · rw [hrankMap]
    exact hrank
  · rw [hrankMap]
    intro a r hget
    obtain ⟨hlt, _⟩ := List.getElem?_eq_some_iff.mp hget
    exact iff_of_true (startTree_healthy a) (Int.ofNat_lt.mpr hlt)
  · have hall : T.leaves.countP (fun a => ((startTree T).leaf a).mode ≠ .terminated) =
        T.leaves.length :=
      countP_eq_length.mpr fun a _ => by simpa using startTree_healthy a
    rw [hall, T.leaves_perm.length_eq]
  · intro a _
    rw [(startTree_sameRanks a).worldSize]
    rfl

/-! ## Terminated ranks -/

/-- The ranks of the leaves that are not terminated. -/
def healthyRanks (T : Topology) (st : TreeState) : List Nat :=
  T.leaves.filterMap fun leaf =>
    if (st.leaf leaf).mode ≠ .terminated then (st.leaf leaf).rank else none

theorem mem_healthyRanks :
    r ∈ healthyRanks T st ↔
      ∃ a ∈ T.leaves, (st.leaf a).mode ≠ .terminated ∧ (st.leaf a).rank = some r := by
  simp only [healthyRanks, mem_filterMap, Option.ite_none_right_eq_some]

/-- A set of terminated ranks as a call receives it. -/
structure Terminable (T : Topology) (st : TreeState) (terminatedRanks : List Nat) : Prop where
  nodup : terminatedRanks.Nodup
  healthy : ∀ r ∈ terminatedRanks, r ∈ healthyRanks T st

/-- Propagation adds ranks of leaves that are not terminated. -/
theorem Terminable.propagateAt (h : Terminable T st terminatedRanks) (node : NodePath) :
    Terminable T st (propagateAt T st terminatedRanks node) := by
  unfold Inprocess.propagateAt
  split
  · refine ⟨h.nodup.union _, fun r hr => ?_⟩
    rcases mem_union_iff.mp hr with hr | hr
    · obtain ⟨a, ha, hrank⟩ := mem_filterMap.mp hr
      exact mem_filterMap.mpr ⟨a, (T.mem_leavesAt.mp ha).1, hrank⟩
    · exact h.healthy r hr
  · exact h

theorem Terminable.propagateTerminations (h : Terminable T st terminatedRanks) :
    Terminable T st (propagateTerminations T st terminatedRanks) := by
  unfold Inprocess.propagateTerminations
  induction T.nodes generalizing terminatedRanks with
  | nil => exact h
  | cons node rest ih => exact ih (h.propagateAt node)

theorem Ready.leafOf (h : Ready T st worldSize) {a : Nat} (hrank : (st.leaf a).rank = some r) :
    st.leafOf r = a := by
  rw [TreeState.leafOf, getD_eq_getElem?_getD, (h.rank a r).mp hrank]
  rfl

theorem Ready.leafOf_healthy (h : Ready T st worldSize) (hterm : Terminable T st terminatedRanks)
    (hr : r ∈ terminatedRanks) :
    st.leafOf r ∈ T.leaves ∧ (st.leaf (st.leafOf r)).mode ≠ .terminated ∧
      (st.leaf (st.leafOf r)).rank = some r := by
  obtain ⟨a, ha, hmode, hrank⟩ := mem_healthyRanks.mp (hterm.healthy r hr)
  rw [h.leafOf hrank]
  exact ⟨ha, hmode, hrank⟩

/-- Different terminated ranks belong to different leaves. -/
theorem Ready.map_leafOf_nodup (h : Ready T st worldSize)
    (hterm : Terminable T st terminatedRanks) : (terminatedRanks.map st.leafOf).Nodup := by
  refine hterm.nodup.map_on fun r hr r' hr' heq => ?_
  have hrank := (h.leafOf_healthy hterm hr).2.2
  rw [heq, (h.leafOf_healthy hterm hr').2.2] at hrank
  exact (Option.some.inj hrank).symm

/-! ## The phases of a call -/

/-- What the phases up to the filter make of a ready tree: the leaves `terminated`
are terminated too. -/
structure Advanced (st st' : TreeState) (terminated : List Nat) : Prop where
  rankMap : st'.rankMap = st.rankMap
  rank : ∀ a, (st'.leaf a).rank = (st.leaf a).rank
  terminated : ∀ a, (st'.leaf a).mode = .terminated ↔
    (st.leaf a).mode = .terminated ∨ a ∈ terminated
  cleared : ∀ a, (st.leaf a).mode = .terminated → (st.leaf a).activeRank = none →
    (st'.leaf a).activeRank = none

theorem Advanced.frame {st'' : TreeState} (h : Advanced st st' terminated) (h' : Frame st' st'') :
    Advanced st st'' terminated where
  rankMap := h'.rankMap.trans h.rankMap
  rank a := (h'.rank a).trans (h.rank a)
  terminated a := (h'.terminated a).trans (h.terminated a)
  cleared a ha hnone :=
    h'.cleared a ((h.terminated a).mpr (Or.inl ha)) (h.cleared a ha hnone)

theorem terminateRanks_advanced (st : TreeState) (terminatedRanks : List Nat) :
    Advanced st (terminateRanks T st terminatedRanks) (terminatedRanks.map st.leafOf) := by
  have hleaf := leaf_foldl_terminate (T := T) (terminatedRanks.map st.leafOf) st
  refine ⟨rankMap_foldl_terminate _ st, ?_, ?_, ?_⟩
  · intro a
    rw [terminateRanks, hleaf]
    split
    · rfl
    · rfl
  · intro a
    rw [terminateRanks, hleaf]
    by_cases ha : a ∈ terminatedRanks.map st.leafOf
    · rw [if_pos ha]
      exact iff_of_true rfl (Or.inr ha)
    · rw [if_neg ha]
      exact (or_iff_left ha).symm
  · intro a _ hnone
    rw [terminateRanks, hleaf]
    split
    · exact hnone
    · exact hnone

theorem activeRankOf_terminateRanks (st : TreeState) (terminatedRanks : List Nat) (a : Nat) :
    (terminateRanks T st terminatedRanks).activeRankOf a = st.activeRankOf a := by
  rw [TreeState.activeRankOf, terminateRanks, leaf_foldl_terminate]
  split
  · rfl
  · rfl

/-- Reserve replacement fills what it can; the unhandled ranks are the holes. -/
theorem replaced_replaces (h : Ready T st worldSize) (hsettled : Settled T st activeWorldSize)
    (hterm : Terminable T st terminatedRanks) :
    Shape T (replaced T st terminatedRanks).1 ∧
      Rearranged (terminateRanks T st terminatedRanks) (replaced T st terminatedRanks).1 ∧
      (∀ rank ∈ (replaced T st terminatedRanks).2, rank ∈ terminatedRanks) ∧
      Numbering (activeNumber (replaced T st terminatedRanks).1) activeWorldSize.toNat
        ((replaced T st terminatedRanks).2.map fun rank =>
          st.activeRankOf (st.leafOf rank)) := by
  let active := terminatedRanks.filter fun rank => (st.leaf (st.leafOf rank)).mode = .active
  let st' := terminateRanks T st terminatedRanks
  let vacant := fun rank => st.activeRankOf (st.leafOf rank)
  have hadvanced : Advanced st st' (terminatedRanks.map st.leafOf) :=
    terminateRanks_advanced st terminatedRanks
  have hmem : ∀ a ∈ terminatedRanks.map st.leafOf, a ∈ T.leaves := by
    intro a ha
    obtain ⟨r, hr, rfl⟩ := mem_map.mp ha
    exact (h.leafOf_healthy hterm hr).1
  have hshape : Shape T st' := shape_foldl_terminate hsettled.shape hmem
  have hsorted : (active.insertionSort (· ≤ ·)).Perm active := perm_insertionSort _ active
  have hholes : Numbering (activeNumber st') activeWorldSize.toNat
      ((active.insertionSort (· ≤ ·)).map vacant ++ []) := by
    have hrun := numbering_foldl_terminate (terminatedRanks.map st.leafOf) [] hsettled.shape
      hsettled.numbering hmem (h.map_leafOf_nodup hterm)
    rw [filter_map, map_map] at hrun
    exact hrun.perm ((hsorted.symm.map vacant).append_right [])
  have hleafOf : ∀ rank, st'.leafOf rank = st.leafOf rank := fun rank => by
    rw [TreeState.leafOf, TreeState.leafOf, hadvanced.rankMap]
  have htodo : ∀ rank ∈ active.insertionSort (· ≤ ·),
      (st'.leaf (st'.leafOf rank)).mode = .terminated ∧
        st'.activeRankOf (st'.leafOf rank) = vacant rank := by
    intro rank hrank
    have hactive := mem_filter.mp ((mem_insertionSort _).mp hrank)
    rw [hleafOf, hadvanced.terminated]
    exact ⟨Or.inr (mem_map_of_mem hactive.1), activeRankOf_terminateRanks st _ _⟩
  have hreplaces := replaceWithInactive_replaces vacant (active.insertionSort (· ≤ ·)) []
    hshape htodo (hsorted.nodup_iff.mpr (hterm.nodup.filter _)) hholes
  refine ⟨hreplaces.shape, hreplaces.rearranged, ?_, ?_⟩
  · intro rank hrank
    exact (mem_filter.mp (mem_filter.mp hrank).1).1
  · have hnumbering := hreplaces.numbering
    rw [append_nil] at hnumbering
    exact hnumbering.perm ((hsorted.filter _).map vacant)

theorem shifted_settled (activeWorldSize : Int) {unhandled : List Nat} (h : Shape T st)
    (hrankMap : ∀ a, a ∈ st.rankMap ↔ a ∈ T.leaves)
    (hworld : ∀ a ∈ T.leaves, (st.leaf a).activeWorldSize = some activeWorldSize)
    (hunhandled : ∀ rank ∈ unhandled, (st.leaf (st.leafOf rank)).mode = .terminated)
    (hnumbering : Numbering (activeNumber st) activeWorldSize.toNat (unhandled.map fun rank => st.activeRankOf (st.leafOf rank))) :
    Frame st (shifted T st unhandled) ∧
      Settled T (shifted T st unhandled) (activeWorldSize - unhandled.length) := by
  by_cases hnone : unhandled = []
  · subst hnone
    have hsame : shifted T st [] = st := if_neg (by simp)
    rw [hsame, length_nil, Int.natCast_zero, Int.sub_zero]
    exact ⟨(Rearranged.refl st).frame, h, hworld, hnumbering⟩
  · have hrun := replaceWithBackfill_backfills unhandled h hunhandled hnumbering
    have heq : shifted T st unhandled =
        shiftRanks (replaceWithBackfill T st unhandled).1
          (replaceWithBackfill T st unhandled).2 unhandled := if_pos hnone
    rw [heq]
    refine ⟨hrun.rearranged.frame.trans (frame_shiftRanks _ _ _), ?_⟩
    refine settled_shiftRanks hrun.shape ?_ ?_ ?_ ?_
    · rw [hrun.rearranged.rankMap]
      exact hrankMap
    · intro a ha
      rw [hrun.rearranged.activeWorldSize]
      exact hworld a ha
    · have hholes := hrun.numbering
      rwa [append_nil] at hholes
    · rw [hrun.length, length_nil, Nat.zero_add]

theorem filtered_settled (h : Settled T st activeWorldSize)
    (hhead : st.rankMap.headD 0 ∈ T.leaves) :
    Frame st (filtered T filter st) ∧ ∃ n, Settled T (filtered T filter st) n := by
  cases filter with
  | none => exact ⟨(Rearranged.refl st).frame, activeWorldSize, h⟩
  | some filter =>
    exact ⟨frame_filterActiveWorldSize filter st, _,
      settled_filterActiveWorldSize filter h hhead⟩

/-! ## The ranks after a call -/

theorem sortedLeaves_perm (st : TreeState) : (sortedLeaves T st).Perm T.leaves := by
  have hsplit := filter_append_perm
    (fun leaf => decide ((st.leaf leaf).mode ≠ .terminated)) T.leaves
  refine (List.Perm.of_eq ?_).trans hsplit
  unfold sortedLeaves
  congr 1
  refine filter_congr fun leaf _ => ?_
  simp

/-- The healthy leaves come first. -/
theorem sortedLeaves_healthy {a : Nat} (h : (sortedLeaves T st)[r]? = some a) :
    (st.leaf a).mode ≠ .terminated ↔
      r < T.leaves.countP fun a => (st.leaf a).mode ≠ .terminated := by
  rw [sortedLeaves, getElem?_append, ← countP_eq_length_filter] at h
  split at h
  · rename_i hlt
    have hmem := mem_filter.mp (mem_of_getElem? h)
    exact iff_of_true (by simpa using hmem.2) hlt
  · rename_i hge
    have hmem := mem_filter.mp (mem_of_getElem? h)
    exact iff_of_false (by simpa using hmem.2) hge

theorem leaf_updateTree (st : TreeState) (worldSize : Int) (terminatedRanks : List Nat) (a : Nat) :
    ((updateTree T st worldSize terminatedRanks).leaf a).mode = (st.leaf a).mode ∧
    ((updateTree T st worldSize terminatedRanks).leaf a).activeWorldSize =
      (st.leaf a).activeWorldSize ∧
    (a ∈ T.leaves → ((updateTree T st worldSize terminatedRanks).leaf a).worldSize =
      worldSize - terminatedRanks.length) ∧
    ((updateTree T st worldSize terminatedRanks).leaf a).activeRank =
      (if a ∈ terminatedRanks.map st.leafOf then none else (st.leaf a).activeRank) ∧
    (a ∉ terminatedRanks.map st.leafOf →
      ((updateTree T st worldSize terminatedRanks).leaf a).rank = (st.leaf a).rank) := by
  simp only [updateTree]
  by_cases hterm : a ∈ terminatedRanks.map st.leafOf
  · by_cases hleaf : a ∈ T.leaves
    · rw [if_pos hterm, if_pos hleaf]
      simp [hterm]
    · rw [if_pos hterm, if_neg hleaf]
      simp [hterm, hleaf]
  · by_cases hleaf : a ∈ T.leaves
    · rw [if_neg hterm, if_pos hleaf]
      simp [hterm]
    · rw [if_neg hterm, if_neg hleaf]
      simp [hterm, hleaf]

theorem leaf_recomputeRank (st : TreeState) (a : Nat) :
    ((recomputeRank T st).leaf a) =
      if a ∈ T.leaves then { st.leaf a with rank := some ((sortedLeaves T st).idxOf a) }
      else st.leaf a := by
  simp only [recomputeRank, (sortedLeaves_perm st).mem_iff]

theorem mode_recomputeRank (st : TreeState) (a : Nat) :
    ((recomputeRank T st).leaf a).mode = (st.leaf a).mode := by
  rw [leaf_recomputeRank]
  split
  · rfl
  · rfl

theorem rank_recomputeRank (houtside : ∀ a, a ∉ T.leaves → (st.leaf a).rank = none) (a r : Nat) :
    ((recomputeRank T st).leaf a).rank = some r ↔
      (sortedLeaves T st)[r]? = some a := by
  have hmem := (sortedLeaves_perm (T := T) st).mem_iff (a := a)
  rw [leaf_recomputeRank]
  by_cases ha : a ∈ T.leaves
  · rw [if_pos ha, Option.some.injEq]
    constructor
    · rintro rfl
      exact getElem?_idxOf (hmem.mpr ha)
    · intro hget
      obtain ⟨hlt, rfl⟩ := List.getElem?_eq_some_iff.mp hget
      exact ((sortedLeaves_perm st).nodup_iff.mpr T.leaves_nodup).idxOf_getElem r hlt
  · rw [if_neg ha, houtside a ha]
    constructor
    · simp
    · exact fun hget => absurd (hmem.mp (mem_of_getElem? hget)) ha

/-- Terminating healthy leaves lowers the number of healthy leaves by theirs. -/
theorem countP_healthy (st st' : TreeState)
    (hterm : ∀ a, (st'.leaf a).mode = .terminated ↔ (st.leaf a).mode = .terminated ∨ a ∈ terminated)
    (hnodup : terminated.Nodup)
    (hhealthy : ∀ a ∈ terminated, a ∈ T.leaves ∧ (st.leaf a).mode ≠ .terminated) :
    (T.leaves.countP fun a => (st'.leaf a).mode ≠ .terminated) + terminated.length =
      T.leaves.countP fun a => (st.leaf a).mode ≠ .terminated := by
  rw [countP_eq_length_filter, countP_eq_length_filter, ← length_append]
  refine List.Perm.length_eq ((perm_ext_iff_of_nodup ?_ ?_).mpr fun a => ?_)
  · refine nodup_append'.mpr ⟨T.leaves_nodup.filter _, hnodup, ?_⟩
    intro a ha hmem
    have hmode := (mem_filter.mp ha).2
    simp [hterm, hmem] at hmode
  · exact T.leaves_nodup.filter _
  · simp only [mem_append, mem_filter, decide_eq_true_eq, ne_eq, hterm, not_or]
    constructor
    · rintro (⟨hmem, hmode, _⟩ | hmem)
      · exact ⟨hmem, hmode⟩
      · exact hhealthy a hmem
    · rintro ⟨hmem, hmode⟩
      by_cases ha : a ∈ terminated
      · exact Or.inr ha
      · exact Or.inl ⟨hmem, hmode, ha⟩

/-- Clearing the terminated leaves and numbering the leaves anew ends the call. -/
theorem ready_recomputeRank (h : Ready T st worldSize) (hterm : Terminable T st terminatedRanks)
    (hadvanced : Advanced st st' (terminatedRanks.map st.leafOf))
    (hsettled : Settled T st' activeWorldSize) :
    Ready T (recomputeRank T (updateTree T st' worldSize terminatedRanks))
      (worldSize - terminatedRanks.length) := by
  have hleafOf : terminatedRanks.map st'.leafOf = terminatedRanks.map st.leafOf := by
    refine map_congr_left fun r _ => ?_
    rw [TreeState.leafOf, TreeState.leafOf, hadvanced.rankMap]
  have hupdate := leaf_updateTree (T := T) st' worldSize terminatedRanks
  rw [hleafOf] at hupdate
  let updated := updateTree T st' worldSize terminatedRanks
  have hmode : ∀ a, ((recomputeRank T updated).leaf a).mode = (st'.leaf a).mode := by
    intro a
    rw [mode_recomputeRank, ← (hupdate a).1]
  have hactive : ∀ a, ((recomputeRank T updated).leaf a).activeRank =
      if a ∈ terminatedRanks.map st.leafOf then none else (st'.leaf a).activeRank := by
    intro a
    rw [leaf_recomputeRank, ← (hupdate a).2.2.2.1]
    split
    · rfl
    · rfl
  have hkept : ∀ a, (st'.leaf a).mode ≠ .terminated →
      ((recomputeRank T updated).leaf a).activeRank = (st'.leaf a).activeRank := by
    intro a ha
    have hmem : a ∉ terminatedRanks.map st.leafOf := fun hmem =>
      ha ((hadvanced.terminated a).mpr (Or.inr hmem))
    rw [hactive, if_neg hmem]
  have houtside : ∀ a, a ∉ T.leaves → (updated.leaf a).rank = none := by
    intro a ha
    have hmem : a ∉ terminatedRanks.map st.leafOf := by
      intro hmem
      obtain ⟨r, hr, rfl⟩ := mem_map.mp hmem
      exact ha (h.leafOf_healthy hterm hr).1
    rw [(hupdate a).2.2.2.2 hmem, hadvanced.rank]
    refine Option.eq_none_iff_forall_ne_some.mpr fun r hr => ha ?_
    exact h.rankMap.mem_iff.mp (mem_of_getElem? ((h.rank a r).mp hr))
  have hcount : (T.leaves.countP (fun a => (updated.leaf a).mode ≠ .terminated) : Int) =
      worldSize - terminatedRanks.length := by
    have hsum := countP_healthy st updated
      (fun a => by rw [(hupdate a).1, hadvanced.terminated]) (h.map_leafOf_nodup hterm)
      (fun a ha => by
        obtain ⟨r, hr, rfl⟩ := mem_map.mp ha
        exact ⟨(h.leafOf_healthy hterm hr).1, (h.leafOf_healthy hterm hr).2.1⟩)
    have hbefore := h.count
    rw [length_map] at hsum
    omega
  refine ⟨⟨activeWorldSize, ?_, ?_, ?_⟩, ?_, ?_, ?_, ?_, ?_, ?_⟩
  · refine hsettled.shape.relabel hmode ?_ ?_ rfl
    · intro a ha
      rw [hkept a (by simp [ha])]
      exact hsettled.shape.active a ha
    · intro a ha
      rw [hkept a (by simp [ha])]
      exact hsettled.shape.inactive a ha
  · intro a ha
    rw [leaf_recomputeRank, if_pos ha]
    exact (hupdate a).2.1.trans (hsettled.uniform a ha)
  · refine hsettled.numbering.congr fun a => ?_
    by_cases ha : (st'.leaf a).mode = .active
    · rw [activeNumber_of_active ha, activeNumber_of_active ((hmode a).trans ha)]
      exact hkept a (by simp [ha])
    · rw [activeNumber_of_ne ha, activeNumber_of_ne ((hmode a).symm ▸ ha)]
  · intro a ha
    rw [hmode, hadvanced.terminated] at ha
    rw [hactive]
    split
    · rfl
    · rename_i hmem
      have hold := ha.resolve_right hmem
      exact hadvanced.cleared a hold (h.cleared a hold)
  · exact sortedLeaves_perm updated
  · exact fun a r => rank_recomputeRank houtside a r
  · intro a r hget
    have hsorted := sortedLeaves_healthy (T := T) hget
    rw [hmode, ← (hupdate a).1, ← hcount, Int.ofNat_lt]
    exact hsorted
  · rw [← hcount]
    refine congrArg Nat.cast (countP_congr fun a _ => ?_)
    rw [hmode, (hupdate a).1]
  · intro a ha
    rw [leaf_recomputeRank, if_pos ha]
    exact (hupdate a).2.2.1 ha

/-- Every call of a built tree ends with a tree ready for the next one. -/
theorem callTree_ready (h : Ready T st worldSize) (hterm : Terminable T st terminatedRanks)
    (hleaves : T.leaves ≠ []) :
    Ready T (callTree T filter st worldSize terminatedRanks)
      (worldSize - (propagateTerminations T st terminatedRanks).length) := by
  have hterm' := hterm.propagateTerminations
  obtain ⟨activeWorldSize, hsettled⟩ := h.settled
  obtain ⟨hshape, hrearranged, hunhandled, hnumbering⟩ :=
    replaced_replaces h hsettled hterm'
  have hadvanced := (terminateRanks_advanced (T := T) st
    (propagateTerminations T st terminatedRanks)).frame hrearranged.frame
  have hleafOf : ∀ rank, (replaced T st (propagateTerminations T st terminatedRanks)).1.leafOf
      rank = st.leafOf rank := fun rank => by
    rw [TreeState.leafOf, TreeState.leafOf, hadvanced.rankMap]
  have hmem : ∀ a, a ∈ st.rankMap ↔ a ∈ T.leaves := fun a => h.rankMap.mem_iff
  have hvacant : ∀ rank ∈ (replaced T st (propagateTerminations T st terminatedRanks)).2,
      st.leafOf rank ∈ (propagateTerminations T st terminatedRanks).map st.leafOf :=
    fun rank hrank => mem_map_of_mem (hunhandled rank hrank)
  have hfinal := shifted_settled activeWorldSize hshape
    (fun a => by rw [hadvanced.rankMap]; exact hmem a)
    (fun a ha => by
      rw [hrearranged.activeWorldSize, terminateRanks, leaf_foldl_terminate]
      split
      · exact hsettled.uniform a ha
      · exact hsettled.uniform a ha)
    (fun rank hrank => by
      rw [hleafOf, hadvanced.terminated]
      exact Or.inr (hvacant rank hrank))
    (by
      refine hnumbering.perm (List.Perm.of_eq (map_congr_left fun rank hrank => ?_))
      have hterminated := ((terminateRanks_advanced (T := T) st
        (propagateTerminations T st terminatedRanks)).terminated (st.leafOf rank)).mpr
          (Or.inr (hvacant rank hrank))
      rw [hleafOf, hrearranged.activeRankOf hterminated, activeRankOf_terminateRanks])
  have hhead : (shifted T (replaced T st (propagateTerminations T st terminatedRanks)).1
      (replaced T st (propagateTerminations T st terminatedRanks)).2).rankMap.headD 0 ∈
        T.leaves := by
    rw [hfinal.1.rankMap, hadvanced.rankMap]
    cases hmap : st.rankMap with
    | nil =>
      have hnil := h.rankMap
      rw [hmap] at hnil
      exact absurd hnil.nil_eq.symm hleaves
    | cons first rest =>
      rw [headD_cons]
      exact (hmem first).mp (hmap ▸ mem_cons_self)
  obtain ⟨hframe, n, hfiltered⟩ := filtered_settled filter hfinal.2 hhead
  exact ready_recomputeRank h hterm' ((hadvanced.frame hfinal.1).frame hframe) hfiltered

end ResiliencyExt.Inprocess
