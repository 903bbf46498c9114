import ResiliencyExt.Inprocess.TreeReplace

set_option autoImplicit false

/-!
# Inprocess: backfill, shift and filter

Backfill moves the holes that reserve replacement left to the end of their
domains, without changing how many there are.  The shift closes all holes at
once, and the filter cuts the numbering off at the new active world size.
-/

namespace ResiliencyExt.Inprocess

open Foundation List

variable {T : Topology}

/-! ## Backfill -/

/-- The active leaf `a` takes the active rank `r`. -/
abbrev setActiveRank (st : TreeState) (a r : Nat) : TreeState :=
  st.modifyLeaf a fun s => { s with activeRank := some r }

variable {st : TreeState} {a n : Nat} (replaced nodes unhandled : List Nat) (m : Int)

variable {st' : TreeState} {activeWorldSize : Int} {leaves : List Nat} (r : Nat)
    (vacant : Nat → Nat) (filter : WorldSizeFilter)

theorem setActiveRank_mode (st : TreeState) (a r b : Nat) :
    ((setActiveRank st a r).leaf b).mode = (st.leaf b).mode := by
  by_cases hba : b = a
  · subst hba
    simp
  · rw [modifyLeaf_of_ne st _ hba]

theorem Shape.setActiveRank (h : Shape T st) (r : Nat) (ha : (st.leaf a).mode = .active) :
    Shape T (setActiveRank st a r) := by
  refine h.relabel (setActiveRank_mode st a r) ?_ ?_ rfl
  · intro b hb
    by_cases hba : b = a
    · subst hba
      exact ⟨r, by simp⟩
    · rw [modifyLeaf_of_ne st _ hba]
      exact h.active b hb
  · intro b hb
    have hba : b ≠ a := by
      rintro rfl
      simp [ha] at hb
    rw [modifyLeaf_of_ne st _ hba]
    exact h.inactive b hb

theorem rearranged_setActiveRank (ha : (st.leaf a).mode = .active) :
    Rearranged st (setActiveRank st a r) := by
  refine Rearranged.update_leaf (a := a) rfl (fun b hb => modifyLeaf_of_ne st _ hb)
    (by simp [ha]) ?_ ?_ ?_ ?_
  · rw [setActiveRank_mode, ha]
    simp
  · simp
  · simp
  · simp

/-- What a backfill of the terminated leaves `nodes` does: their holes give way
to the same number of holes in `next.2`. -/
structure Backfills (T : Topology) (st : TreeState) (n : Nat) (nodes replaced holes : List Nat)
    (next : TreeState × List Nat) : Prop where
  shape : Shape T next.1
  rearranged : Rearranged st next.1
  modes : ∀ a, (next.1.leaf a).mode = (st.leaf a).mode
  length : next.2.length = replaced.length + nodes.length
  numbering : Numbering (activeNumber next.1) n (next.2 ++ holes)

theorem backfillNodes_backfills (backfill nodes replaced holes : List Nat) (h : Shape T st)
    (hbackfill : ∀ a ∈ backfill, (st.leaf a).mode = .active)
    (hnodes : ∀ a ∈ nodes, (st.leaf a).mode = .terminated ∧ st.activeRankOf a = vacant a)
    (hnumbering : Numbering (activeNumber st) n (nodes.map vacant ++ (replaced ++ holes))) :
    Backfills T st n nodes replaced holes (backfillNodes st replaced backfill nodes) := by
  induction nodes generalizing st backfill replaced with
  | nil =>
    have heq : backfillNodes st replaced backfill [] = (st, replaced) := by
      unfold backfillNodes
      rfl
    rw [heq]
    exact ⟨h, Rearranged.refl st, fun _ => rfl, rfl, hnumbering⟩
  | cons leaf rest ih =>
    have hleaf := hnodes leaf mem_cons_self
    have hlater := fun a ha => hnodes a (mem_cons_of_mem leaf ha)
    rw [map_cons, ← hleaf.2] at hnumbering
    cases backfill with
    | nil =>
      have hfresh : st.activeRankOf leaf ∉ replaced := fun hmem =>
        (nodup_cons.mp hnumbering.nodup).1
          (mem_append_right _ (mem_append_left _ hmem))
      have hrun := ih [] (st.activeRankOf leaf :: replaced) h (by simp) hlater
        (hnumbering.perm perm_middle.symm)
      rw [backfillNodes, insert_of_not_mem hfresh]
      refine ⟨hrun.shape, hrun.rearranged, hrun.modes, ?_, hrun.numbering⟩
      rw [hrun.length, length_cons, length_cons]
      omega
    | cons a backfill =>
      have ha := hbackfill a mem_cons_self
      have hnumber := h.activeNumber_isSome ha
      -- `a` trades its active rank for the one of the terminated leaf
      have hfresh : st.activeRankOf a ∉ replaced := fun hmem =>
        hnumbering.disjoint a _ hnumber (mem_cons_of_mem _
          (mem_append_right _ (mem_append_left _ hmem)))
      have hstep := rearranged_setActiveRank (st.activeRankOf leaf) ha
      have hself : activeNumber (setActiveRank st a (st.activeRankOf leaf)) a =
          some (st.activeRankOf leaf) := by
        rw [activeNumber_eq_some, setActiveRank_mode]
        exact ⟨ha, by simp⟩
      have htraded : Numbering (activeNumber (setActiveRank st a (st.activeRankOf leaf))) n
          (st.activeRankOf a :: (rest.map vacant ++ (replaced ++ holes))) :=
        hnumbering.transfer hnumber hself fun b hb =>
          activeNumber_congr (modifyLeaf_of_ne st _ hb)
      have hlater' : ∀ b ∈ rest,
          ((setActiveRank st a (st.activeRankOf leaf)).leaf b).mode = .terminated ∧
          (setActiveRank st a (st.activeRankOf leaf)).activeRankOf b = vacant b := by
        intro b hb
        obtain ⟨hmode, hvacant⟩ := hlater b hb
        rw [hstep.terminated, hstep.activeRankOf hmode]
        exact ⟨hmode, hvacant⟩
      have hbackfill' : ∀ b ∈ backfill,
          ((setActiveRank st a (st.activeRankOf leaf)).leaf b).mode = .active := by
        intro b hb
        rw [setActiveRank_mode]
        exact hbackfill b (mem_cons_of_mem a hb)
      have hrun := ih backfill (st.activeRankOf a :: replaced)
        (h.setActiveRank (st.activeRankOf leaf) ha) hbackfill' hlater'
        (htraded.perm perm_middle.symm)
      rw [backfillNodes, insert_of_not_mem hfresh]
      refine ⟨hrun.shape, hstep.trans hrun.rearranged, ?_, ?_, hrun.numbering⟩
      · intro b
        rw [hrun.modes, setActiveRank_mode]
      · rw [hrun.length, length_cons, length_cons]
        omega

theorem mem_largestActive {domain : NodePath} {count : Nat}
    (h : a ∈ largestActive T st domain count) : (st.leaf a).mode = .active := by
  have hsorted := mem_of_mem_take h
  rw [mem_insertionSort] at hsorted
  simpa using (mem_filter.mp hsorted).2

/-- The domains are backfilled one after another. -/
theorem foldl_backfillDomainStep (domains : List (NodePath × List Nat)) (replaced : List Nat)
    (h : Shape T st)
    (hnodes : ∀ a ∈ domains.flatMap Prod.snd, (st.leaf a).mode = .terminated ∧
      st.activeRankOf a = vacant a)
    (hnumbering : Numbering (activeNumber st) n ((domains.flatMap Prod.snd).map vacant ++
      replaced)) :
    Backfills T st n (domains.flatMap Prod.snd) replaced []
      (domains.foldl (backfillDomainStep T) (st, replaced)) := by
  induction domains generalizing st replaced with
  | nil =>
    refine ⟨h, Rearranged.refl st, fun _ => rfl, rfl, ?_⟩
    simpa using hnumbering
  | cons domain rest ih =>
    rw [flatMap_cons] at hnodes hnumbering ⊢
    have hshape : (map vacant (domain.2 ++ rest.flatMap Prod.snd) ++ replaced).Perm
        (domain.2.map vacant ++ (replaced ++ (rest.flatMap Prod.snd).map vacant)) := by
      rw [map_append, append_assoc]
      exact perm_append_comm.append_left _
    have hfirst := backfillNodes_backfills vacant
      (largestActive T st domain.1 domain.2.length).reverse domain.2 replaced
      ((rest.flatMap Prod.snd).map vacant) h
      (fun a ha => mem_largestActive (mem_reverse.mp ha))
      (fun a ha => hnodes a (mem_append_left _ ha)) (hnumbering.perm hshape)
    rw [foldl_cons]
    change Backfills T st n _ replaced [] (rest.foldl (backfillDomainStep T)
      (backfillNodes st replaced
        (largestActive T st domain.1 domain.2.length).reverse domain.2))
    generalize backfillNodes st replaced
      (largestActive T st domain.1 domain.2.length).reverse domain.2 = walk at hfirst ⊢
    obtain ⟨st', replaced'⟩ := walk
    have hrun := ih replaced' hfirst.shape (fun a ha => by
        obtain ⟨hmode, hvacant⟩ := hnodes a (mem_append_right _ ha)
        rw [hfirst.rearranged.terminated, hfirst.rearranged.activeRankOf hmode]
        exact ⟨hmode, hvacant⟩)
      (hfirst.numbering.perm perm_append_comm)
    refine ⟨hrun.shape, hfirst.rearranged.trans hrun.rearranged, ?_, ?_, hrun.numbering⟩
    · intro a
      rw [hrun.modes, hfirst.modes]
    · rw [hrun.length, hfirst.length, length_append]
      omega

theorem foldl_backfillDomains_perm (domains : Dict NodePath (List Nat)) :
    ((nodes.foldl (fun domains leaf =>
        match T.backfillDomain leaf with
        | none => domains
        | some domain => domains.alter domain [] fun leaves => leaves ++ [leaf])
        domains).entries.flatMap Prod.snd).Perm
      ((nodes.filter fun leaf => T.backfillDomain leaf ≠ none) ++
        domains.entries.flatMap Prod.snd) := by
  induction nodes generalizing domains with
  | nil => exact List.Perm.refl _
  | cons leaf rest ih =>
    rw [foldl_cons]
    refine (ih _).trans ?_
    cases hdomain : T.backfillDomain leaf with
    | none => simp [hdomain]
    | some domain =>
      have hadd : ((domains.alter domain [] fun leaves => leaves ++ [leaf]).entries.flatMap
          fun e => id e.2).Perm (leaf :: domains.entries.flatMap fun e => id e.2) :=
        Dict.flatMap_alter_perm (fun v => perm_append_singleton leaf v) rfl
      rw [filter_cons_of_pos (by simp [hdomain])]
      exact (hadd.append_left _).trans perm_middle

/-- Every node with a domain is listed in one. -/
theorem backfillDomains_perm :
    ((backfillDomains T nodes).entries.flatMap Prod.snd).Perm
      (nodes.filter fun leaf => T.backfillDomain leaf ≠ none) := by
  have h := foldl_backfillDomains_perm (T := T) nodes Dict.empty
  rwa [show (Dict.empty : Dict NodePath (List Nat)).entries.flatMap Prod.snd = [] from rfl,
    append_nil] at h

/-- The nodes with and without a domain are all nodes. -/
theorem domained_append_undomained_perm :
    ((backfillDomains T nodes).entries.flatMap Prod.snd ++
      nodes.filter fun leaf => T.backfillDomain leaf = none).Perm nodes := by
  refine ((backfillDomains_perm nodes).append_right _).trans ?_
  have hsplit := filter_append_perm
    (fun leaf => decide (T.backfillDomain leaf ≠ none)) nodes
  refine (List.Perm.of_eq ?_).trans hsplit
  congr 1
  refine filter_congr fun leaf _ => ?_
  simp

/-- The leaves of the unhandled ranks leave as many holes after the backfill. -/
theorem replaceWithBackfill_backfills (h : Shape T st)
    (hunhandled : ∀ rank ∈ unhandled, (st.leaf (st.leafOf rank)).mode = .terminated)
    (hnumbering : Numbering (activeNumber st) n (unhandled.map fun rank => st.activeRankOf (st.leafOf rank))) :
    Backfills T st n unhandled [] [] (replaceWithBackfill T st unhandled) := by
  let nodes := (unhandled.insertionSort (· ≤ ·)).map st.leafOf
  let undomained := nodes.filter fun leaf => T.backfillDomain leaf = none
  let domains := (backfillDomains T nodes).entries
  have hsplit : (domains.flatMap Prod.snd ++ undomained).Perm nodes :=
    domained_append_undomained_perm nodes
  have hterminated : ∀ a ∈ nodes, (st.leaf a).mode = .terminated := by
    intro a ha
    obtain ⟨rank, hrank, rfl⟩ := mem_map.mp ha
    exact hunhandled rank ((mem_insertionSort _).mp hrank)
  have hall : ∀ a ∈ domains.flatMap Prod.snd ++ undomained,
      (st.leaf a).mode = .terminated ∧ st.activeRankOf a = st.activeRankOf a := fun a ha =>
    ⟨hterminated a (hsplit.mem_iff.mp ha), rfl⟩
  have hsorted : (nodes.map st.activeRankOf).Perm
      (unhandled.map fun rank => st.activeRankOf (st.leafOf rank)) := by
    rw [map_map]
    exact (perm_insertionSort _ unhandled).map _
  have hholes : Numbering (activeNumber st) n
      (undomained.map st.activeRankOf ++
        ([] ++ (domains.flatMap Prod.snd).map st.activeRankOf)) := by
    refine hnumbering.perm (hsorted.symm.trans ((hsplit.symm.map _).trans ?_))
    rw [map_append, nil_append]
    exact perm_append_comm
  have hfirst := backfillNodes_backfills st.activeRankOf [] undomained []
    ((domains.flatMap Prod.snd).map st.activeRankOf) h (by simp)
    (fun a ha => hall a (mem_append_right _ ha)) hholes
  change Backfills T st n unhandled [] []
    (domains.foldl (backfillDomainStep T) (backfillNodes st [] [] undomained))
  generalize backfillNodes st [] [] undomained = walk at hfirst ⊢
  obtain ⟨st', replaced'⟩ := walk
  have hrun := foldl_backfillDomainStep st.activeRankOf domains replaced' hfirst.shape
    (fun a ha => by
      obtain ⟨hmode, hvacant⟩ := hall a (mem_append_left _ ha)
      rw [hfirst.rearranged.terminated, hfirst.rearranged.activeRankOf hmode]
      exact ⟨hmode, hvacant⟩)
    (hfirst.numbering.perm perm_append_comm)
  refine ⟨hrun.shape, hfirst.rearranged.trans hrun.rearranged, ?_, ?_, hrun.numbering⟩
  · intro a
    rw [hrun.modes, hfirst.modes]
  · have hlength : (domains.flatMap Prod.snd ++ undomained).length = unhandled.length := by
      rw [hsplit.length_eq, length_map, length_insertionSort]
    rw [length_append] at hlength
    rw [hrun.length, hfirst.length, length_nil]
    omega

/-! ## What shift and filter leave alone -/

/-- From `st` to `st'` no rank changed and nobody became or stopped being
terminated; terminated leaves without an active rank got none. -/
structure Frame (st st' : TreeState) : Prop where
  rankMap : st'.rankMap = st.rankMap
  rank : ∀ a, (st'.leaf a).rank = (st.leaf a).rank
  worldSize : ∀ a, (st'.leaf a).worldSize = (st.leaf a).worldSize
  terminated : ∀ a, (st'.leaf a).mode = .terminated ↔ (st.leaf a).mode = .terminated
  cleared : ∀ a, (st.leaf a).mode = .terminated → (st.leaf a).activeRank = none →
    (st'.leaf a).activeRank = none

theorem Frame.trans {st'' : TreeState} (h : Frame st st') (h' : Frame st' st'') :
    Frame st st'' where
  rankMap := h'.rankMap.trans h.rankMap
  rank a := (h'.rank a).trans (h.rank a)
  worldSize a := (h'.worldSize a).trans (h.worldSize a)
  terminated a := (h'.terminated a).trans (h.terminated a)
  cleared a ha hnone := h'.cleared a ((h.terminated a).mpr ha) (h.cleared a ha hnone)

theorem Rearranged.frame (h : Rearranged st st') : Frame st st' where
  rankMap := h.rankMap
  rank := h.rank
  worldSize := h.worldSize
  terminated := h.terminated
  cleared a ha hnone := by rw [h.kept a ha, hnone]

/-- A tree in the middle of a call, between phases: the active ranks are the
numbers below the active world size, which all leaves know. -/
structure Settled (T : Topology) (st : TreeState) (activeWorldSize : Int) : Prop where
  shape : Shape T st
  uniform : ∀ a ∈ T.leaves, (st.leaf a).activeWorldSize = some activeWorldSize
  numbering : Numbering (activeNumber st) activeWorldSize.toNat []

/-! ## Shift -/

theorem length_takeWhile_of_sorted {sorted : List Nat} (h : sorted.Pairwise (· ≤ ·)) (x : Nat) :
    (sorted.takeWhile fun y => y < x).length = sorted.countP (· < x) := by
  induction sorted with
  | nil => rfl
  | cons y rest ih =>
    obtain ⟨hy, hrest⟩ := pairwise_cons.mp h
    by_cases hyx : y < x
    · rw [takeWhile_cons_of_pos (by simpa using hyx), length_cons, ih hrest,
        countP_cons_of_pos (by simpa using hyx)]
    · rw [takeWhile_cons_of_neg (by simpa using hyx), length_nil]
      refine (countP_eq_zero.mpr fun z hz => ?_).symm
      rcases mem_cons.mp hz with rfl | hz
      · simpa using hyx
      · have hyz := hy z hz
        simp only [decide_eq_true_eq]
        omega

/-- `bisect_left` counts the holes below an active rank. -/
theorem bisectLeft_eq_holesBelow (holes : List Nat) (x : Nat) :
    bisectLeft (holes.insertionSort (· ≤ ·)) x = holesBelow holes x := by
  rw [bisectLeft, length_takeWhile_of_sorted (pairwise_insertionSort _ holes), holesBelow]
  exact (perm_insertionSort _ holes).countP_eq _

theorem leaf_shiftRanks (ha : a ∈ st.rankMap) :
    (shiftRanks st replaced unhandled).leaf a =
      { st.leaf a with
        activeWorldSize := (st.leaf a).activeWorldSize.map fun n => n - unhandled.length
        activeRank := (st.leaf a).activeRank.map fun r => r - holesBelow replaced r } := by
  simp only [shiftRanks, TreeState.modifyRankMap, ha, if_true, bisectLeft_eq_holesBelow]

theorem leaf_shiftRanks_of_not_mem (ha : a ∉ st.rankMap) :
    (shiftRanks st replaced unhandled).leaf a = st.leaf a := by
  simp only [shiftRanks, TreeState.modifyRankMap, ha, if_false]

theorem mode_shiftRanks (st : TreeState) (replaced unhandled : List Nat) (a : Nat) :
    ((shiftRanks st replaced unhandled).leaf a).mode = (st.leaf a).mode := by
  by_cases ha : a ∈ st.rankMap
  · rw [leaf_shiftRanks replaced unhandled ha]
  · rw [leaf_shiftRanks_of_not_mem replaced unhandled ha]

theorem frame_shiftRanks (st : TreeState) (replaced unhandled : List Nat) :
    Frame st (shiftRanks st replaced unhandled) := by
  have hsplit : ∀ a, a ∈ st.rankMap ∨ (shiftRanks st replaced unhandled).leaf a = st.leaf a := by
    intro a
    by_cases ha : a ∈ st.rankMap
    · exact Or.inl ha
    · exact Or.inr (leaf_shiftRanks_of_not_mem replaced unhandled ha)
  refine ⟨rfl, ?_, ?_, ?_, ?_⟩
  · intro a
    obtain ha | heq := hsplit a
    · rw [leaf_shiftRanks replaced unhandled ha]
    · rw [heq]
  · intro a
    obtain ha | heq := hsplit a
    · rw [leaf_shiftRanks replaced unhandled ha]
    · rw [heq]
  · intro a
    obtain ha | heq := hsplit a
    · rw [leaf_shiftRanks replaced unhandled ha]
    · rw [heq]
  · intro a _ hnone
    obtain ha | heq := hsplit a
    · rw [leaf_shiftRanks replaced unhandled ha]
      simp [hnone]
    · rw [heq, hnone]

/-- The shift closes the holes that backfill left. -/
theorem settled_shiftRanks {replaced unhandled : List Nat} (h : Shape T st)
    (hrankMap : ∀ a, a ∈ st.rankMap ↔ a ∈ T.leaves)
    (hworld : ∀ a ∈ T.leaves, (st.leaf a).activeWorldSize = some activeWorldSize)
    (hnumbering : Numbering (activeNumber st) activeWorldSize.toNat replaced)
    (hlength : replaced.length = unhandled.length) :
    Settled T (shiftRanks st replaced unhandled) (activeWorldSize - unhandled.length) := by
  have hmode := mode_shiftRanks st replaced unhandled
  have hmem : ∀ a, (st.leaf a).mode ≠ .initialized → a ∈ st.rankMap := fun a ha =>
    (hrankMap a).mpr (h.member a ha)
  refine ⟨h.relabel hmode ?_ ?_ rfl, ?_, ?_⟩
  · intro a ha
    obtain ⟨r, hr⟩ := h.active a ha
    rw [leaf_shiftRanks replaced unhandled (hmem a (by simp [ha])), hr]
    exact ⟨_, rfl⟩
  · intro a ha
    rw [leaf_shiftRanks replaced unhandled (hmem a (by simp [ha])), h.inactive a ha]
    rfl
  · intro a ha
    rw [leaf_shiftRanks replaced unhandled ((hrankMap a).mpr ha), hworld a ha]
    rfl
  · have hsize : (activeWorldSize - unhandled.length).toNat =
        activeWorldSize.toNat - replaced.length := by
      omega
    rw [hsize]
    refine hnumbering.compact fun a => ?_
    by_cases hactive : (st.leaf a).mode = .active
    · rw [activeNumber_of_active hactive, activeNumber_of_active ((hmode a).trans hactive),
        leaf_shiftRanks replaced unhandled (hmem a (by simp [hactive]))]
    · rw [activeNumber_of_ne hactive, activeNumber_of_ne ((hmode a).symm ▸ hactive)]
      rfl

/-! ## Filter -/

/-- What the filter makes of the state of a leaf. -/
def filterState (newActiveWorldSize : Int) (s : LeafState) : LeafState :=
  if s.mode = .active ∧ newActiveWorldSize ≤ (s.activeRank.getD 0 : Nat) then
    { s with
      mode := .inactive, activeRank := none, activeWorldSize := some newActiveWorldSize }
  else { s with activeWorldSize := some newActiveWorldSize }

theorem filterLeaf_self (st : TreeState) (a : Nat) :
    (filterLeaf T m st a).leaf a = filterState m (st.leaf a) := by
  simp only [filterLeaf, filterState, modifyLeaf_self, TreeState.activeRankOf]
  split
  · rw [deactivate_self, modifyLeaf_self]
  · rw [modifyLeaf_self]

theorem filterLeaf_of_ne (st : TreeState) {b : Nat} (h : b ≠ a) :
    (filterLeaf T m st a).leaf b = st.leaf b := by
  simp only [filterLeaf]
  split
  · rw [deactivate_of_ne _ h, modifyLeaf_of_ne st _ h]
  · rw [modifyLeaf_of_ne st _ h]

theorem rankMap_filterLeaf (st : TreeState) (a : Nat) :
    (filterLeaf T m st a).rankMap = st.rankMap := by
  simp only [filterLeaf]
  split
  · rfl
  · rfl

theorem Shape.filterLeaf (h : Shape T st) (m : Int) (ha : a ∈ T.leaves) :
    Shape T (filterLeaf T m st a) := by
  have hsame : ∀ b, ((st.modifyLeaf a fun s =>
        { s with activeWorldSize := some m }).leaf b).mode = (st.leaf b).mode ∧
      ((st.modifyLeaf a fun s =>
        { s with activeWorldSize := some m }).leaf b).activeRank = (st.leaf b).activeRank := by
    intro b
    by_cases hba : b = a
    · subst hba
      simp
    · rw [modifyLeaf_of_ne st _ hba]
      exact ⟨rfl, rfl⟩
  have hlabelled : Shape T (st.modifyLeaf a fun s => { s with activeWorldSize := some m }) := by
    refine h.relabel (fun b => (hsame b).1) ?_ ?_ rfl
    · intro b hb
      rw [(hsame b).2]
      exact h.active b hb
    · intro b hb
      rw [(hsame b).2]
      exact h.inactive b hb
  simp only [Inprocess.filterLeaf]
  split
  · exact hlabelled.deactivate ha
  · exact hlabelled

theorem leaf_foldl_filterLeaf (hnodup : leaves.Nodup) (st : TreeState) (a : Nat) :
    (leaves.foldl (filterLeaf T m) st).leaf a =
      if a ∈ leaves then filterState m (st.leaf a) else st.leaf a := by
  induction leaves generalizing st with
  | nil => simp
  | cons b rest ih =>
    obtain ⟨hb, hrest⟩ := nodup_cons.mp hnodup
    rw [foldl_cons, ih hrest]
    by_cases hab : a = b
    · subst hab
      rw [if_neg hb, filterLeaf_self, if_pos mem_cons_self]
    · rw [filterLeaf_of_ne m st hab]
      simp [hab]

theorem rankMap_foldl_filterLeaf (leaves : List Nat) (st : TreeState) :
    (leaves.foldl (filterLeaf T m) st).rankMap = st.rankMap := by
  induction leaves generalizing st with
  | nil => rfl
  | cons b rest ih =>
    rw [foldl_cons, ih]
    exact rankMap_filterLeaf m st b

theorem shape_foldl_filterLeaf (h : Shape T st) (hleaves : ∀ a ∈ leaves, a ∈ T.leaves) :
    Shape T (leaves.foldl (filterLeaf T m) st) := by
  induction leaves generalizing st with
  | nil => exact h
  | cons b rest ih =>
    exact ih (h.filterLeaf m (hleaves b mem_cons_self))
      fun a ha => hleaves a (mem_cons_of_mem b ha)

/-- The filter drops the active ranks from the new active world size on. -/
theorem activeNumber_filterState {m : Int} {s : LeafState}
    (hactive : s.mode = .active → ∃ r, s.activeRank = some r) :
    (if (filterState m s).mode = .active then (filterState m s).activeRank else none) =
      (if s.mode = .active then s.activeRank else none).filter fun k => k < m.toNat := by
  by_cases hmode : s.mode = .active
  · obtain ⟨r, hr⟩ := hactive hmode
    simp only [filterState, hmode, hr, Option.getD_some, true_and, if_true]
    by_cases hrm : m ≤ (r : Int)
    · have hge : decide (r < m.toNat) = false := by
        simp only [decide_eq_false_iff_not]
        omega
      rw [if_pos hrm, Option.filter_some, hge]
      rfl
    · have hlt : decide (r < m.toNat) = true := by
        simp only [decide_eq_true_eq]
        omega
      rw [if_neg hrm, Option.filter_some, hlt]
      rfl
  · simp [filterState, hmode]

theorem frame_filterActiveWorldSize (st : TreeState) :
    Frame st (filterActiveWorldSize T filter st) := by
  have hleaf := leaf_foldl_filterLeaf (T := T)
    (filter.apply ((st.leaf (st.rankMap.headD 0)).activeWorldSize.getD 0)) T.leaves_nodup st
  have hstate : ∀ (m : Int) (s : LeafState), (filterState m s).rank = s.rank ∧
      (filterState m s).worldSize = s.worldSize ∧
      ((filterState m s).mode = .terminated ↔ s.mode = .terminated) ∧
      (s.activeRank = none → (filterState m s).activeRank = none) := by
    intro m s
    unfold filterState
    split
    · rename_i hcut
      simp [hcut.1]
    · simp
  refine ⟨rankMap_foldl_filterLeaf _ _ st, ?_, ?_, ?_, ?_⟩
  · intro a
    rw [filterActiveWorldSize, hleaf]
    split
    · exact (hstate _ _).1
    · rfl
  · intro a
    rw [filterActiveWorldSize, hleaf]
    split
    · exact (hstate _ _).2.1
    · rfl
  · intro a
    rw [filterActiveWorldSize, hleaf]
    split
    · exact (hstate _ _).2.2.1
    · exact Iff.rfl
  · intro a _ hnone
    rw [filterActiveWorldSize, hleaf]
    split
    · exact (hstate _ _).2.2.2 hnone
    · exact hnone

theorem settled_filterActiveWorldSize (h : Settled T st activeWorldSize)
    (hhead : st.rankMap.headD 0 ∈ T.leaves) :
    Settled T (filterActiveWorldSize T filter st) (filter.apply activeWorldSize) := by
  have hsize : (st.leaf (st.rankMap.headD 0)).activeWorldSize.getD 0 = activeWorldSize := by
    rw [h.uniform _ hhead]
    rfl
  unfold filterActiveWorldSize
  rw [hsize]
  have hleaf := leaf_foldl_filterLeaf (T := T) (filter.apply activeWorldSize) T.leaves_nodup st
  refine ⟨shape_foldl_filterLeaf _ h.shape fun a ha => ha, ?_, ?_⟩
  · intro a ha
    rw [hleaf, if_pos ha, filterState]
    split
    · rfl
    · rfl
  · have hle := filter.le activeWorldSize
    refine h.numbering.truncate (by omega) fun a => ?_
    by_cases ha : a ∈ T.leaves
    · rw [activeNumber, hleaf, if_pos ha, activeNumber]
      exact activeNumber_filterState (h.shape.active a)
    · have hinitial : (st.leaf a).mode = .initialized :=
        Classical.not_not.mp fun hmode => ha (h.shape.member a hmode)
      rw [activeNumber, hleaf, if_neg ha, activeNumber, hinitial]
      rfl

end ResiliencyExt.Inprocess
