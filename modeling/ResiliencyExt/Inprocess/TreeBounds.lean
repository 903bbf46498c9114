import ResiliencyExt.Inprocess.TreeAssignment

set_option autoImplicit false

/-!
# Inprocess: `max_ranks`

`bounded_activate` refuses a leaf when one of its ancestors is full, but
`replace_with_inactive` does not: the spare that it finds above a host may sit
on another host, whose `max_ranks` leaves are already active.  The bounds hold
after every call in which each spare has room at the moment it is activated.
-/

namespace ResiliencyExt.Inprocess

open Foundation List

/-! ## Active leaves below a node -/

/-- The number of active leaves below an inner node. -/
def activeIn (T : Topology) (st : TreeState) (node : NodePath) : Nat :=
  (T.leavesAt node).countP fun leaf => (st.leaf leaf).mode = .active

/-- No subtree has more active leaves than its layer permits. -/
def WithinBounds (T : Topology) (st : TreeState) : Prop :=
  ∀ node maxRanks, (T.layerAt node).maxRanks = some maxRanks →
    activeIn T st node ≤ maxRanks

/-- The layer of a node permits another active leaf below it. -/
def roomLeft (T : Topology) (st : TreeState) (node : NodePath) : Bool :=
  match (T.layerAt node).maxRanks with
  | none => true
  | some maxRanks => activeIn T st node < maxRanks

/-- Every spare that `replace_with_inactive` activates has room below all its
ancestors. -/
def replacementsFit (T : Topology) (st : TreeState) : List Nat → Bool
  | [] => true
  | rank :: rest =>
    match findSpare T st (st.leafOf rank) with
    | none => replacementsFit T st rest
    | some (spare, popped) =>
      (T.ancestors spare).all (roomLeft T st) &&
        replacementsFit T (activate T popped spare (st.activeRankOf (st.leafOf rank))) rest

/-- The replacements of a call fit. -/
def callFits (T : Topology) (st : TreeState) (terminatedRanks : List Nat) : Bool :=
  let terminatedRanks := propagateTerminations T st terminatedRanks
  let active := terminatedRanks.filter fun rank => (st.leaf (st.leafOf rank)).mode = .active
  replacementsFit T (terminateRanks T st terminatedRanks) (active.insertionSort (· ≤ ·))

variable {T : Topology}

variable {st st' : TreeState} {a : Nat}

variable {walk : TreeState × Nat} {filter : Option WorldSizeFilter} {worldSize : Int}
    {terminatedRanks : List Nat}

theorem lt_of_roomLeft {node : NodePath} {maxRanks : Nat} (h : roomLeft T st node = true)
    (hmax : (T.layerAt node).maxRanks = some maxRanks) : activeIn T st node < maxRanks := by
  simpa [roomLeft, hmax] using h

/-- Fewer active leaves stay within the bounds. -/
theorem WithinBounds.mono (h : WithinBounds T st)
    (hactive : ∀ a, (st'.leaf a).mode = .active → (st.leaf a).mode = .active) :
    WithinBounds T st' := by
  intro node maxRanks hmax
  refine le_trans (countP_mono_left fun a _ ha => ?_) (h node maxRanks hmax)
  simpa using hactive a (by simpa using ha)

/-- A leaf that becomes active counts for its ancestors. -/
theorem activeIn_of_activated (ha : a ∈ T.leaves) (hbefore : (st.leaf a).mode ≠ .active)
    (hafter : (st'.leaf a).mode = .active) (hother : ∀ b, b ≠ a → st'.leaf b = st.leaf b)
    (node : NodePath) :
    activeIn T st' node = activeIn T st node + if node ∈ T.ancestors a then 1 else 0 := by
  have hrest : ∀ leaves : List Nat, a ∉ leaves →
      leaves.countP (fun b => (st'.leaf b).mode = .active) =
        leaves.countP (fun b => (st.leaf b).mode = .active) := by
    intro leaves hnot
    refine countP_congr fun b hb => ?_
    rw [hother b fun heq => hnot (heq ▸ hb)]
  unfold activeIn
  by_cases hnode : node ∈ T.ancestors a
  · have hmem : a ∈ T.leavesAt node := T.mem_leavesAt.mpr ⟨ha, hnode⟩
    have hperm := perm_cons_erase hmem
    have hnodup := hperm.nodup_iff.mp (T.leavesAt_nodup node)
    rw [hperm.countP_eq, hperm.countP_eq, countP_cons_of_pos (by simpa using hafter),
      countP_cons_of_neg (by simpa using hbefore),
      hrest _ (nodup_cons.mp hnodup).1, if_pos hnode]
  · have hmem : a ∉ T.leavesAt node := fun hmem => hnode (T.mem_leavesAt.mp hmem).2
    rw [hrest _ hmem, if_neg hnode, Nat.add_zero]

/-- Activating a leaf with room below its ancestors stays within the bounds. -/
theorem WithinBounds.activated (h : WithinBounds T st) (ha : a ∈ T.leaves)
    (hbefore : (st.leaf a).mode ≠ .active) (hafter : (st'.leaf a).mode = .active)
    (hother : ∀ b, b ≠ a → st'.leaf b = st.leaf b)
    (hroom : ∀ node ∈ T.ancestors a, ∀ maxRanks, (T.layerAt node).maxRanks = some maxRanks →
      activeIn T st node < maxRanks) :
    WithinBounds T st' := by
  intro node maxRanks hmax
  have hbound := h node maxRanks hmax
  rw [activeIn_of_activated ha hbefore hafter hother]
  split
  · rename_i hnode
    exact hroom node hnode maxRanks hmax
  · exact hbound

/-! ## The first call -/

/-- During the walk `active_count` counts the active leaves, within the bounds. -/
structure Counted (T : Topology) (st : TreeState) : Prop where
  count : ∀ node, st.activeCount node = activeIn T st node
  bounds : WithinBounds T st

theorem counted_activateLeaf {leaf : Nat} (h : Counted T walk.1) (hleaf : leaf ∈ T.leaves)
    (hfresh : (walk.1.leaf leaf).mode = .initialized) :
    Counted T (activateLeaf T walk leaf).1 := by
  have hbefore : (walk.1.leaf leaf).mode ≠ .active := by simp [hfresh]
  by_cases hroom : (T.ancestors leaf).all (hasRoom T walk.1)
  · have hafter : ((activateLeaf T walk leaf).1.leaf leaf).mode = .active := by
      simp only [activateLeaf, if_pos hroom, activate_self]
    have hother : ∀ b, b ≠ leaf → (activateLeaf T walk leaf).1.leaf b = walk.1.leaf b :=
      fun b hb => activateLeaf_of_ne walk hb
    refine ⟨fun node => ?_, h.bounds.activated hleaf hbefore hafter hother ?_⟩
    · rw [activeIn_of_activated hleaf hbefore hafter hother, ← h.count]
      simp only [activateLeaf, if_pos hroom]
      split
      · rfl
      · rfl
    · intro node hnode maxRanks hmax
      have hnodeRoom := all_eq_true.mp hroom node hnode
      rw [← h.count]
      simpa [hasRoom, hmax] using hnodeRoom
  · have hmode : ∀ a, ((activateLeaf T walk leaf).1.leaf a).mode = .active ↔
        (walk.1.leaf a).mode = .active := by
      intro a
      by_cases ha : a = leaf
      · subst ha
        simp only [activateLeaf, if_neg hroom, deactivate_self]
        simp [hfresh]
      · rw [activateLeaf_of_ne walk ha]
    refine ⟨fun node => ?_, h.bounds.mono fun a ha => (hmode a).mp ha⟩
    have hcount : (activateLeaf T walk leaf).1.activeCount = walk.1.activeCount := by
      simp only [activateLeaf, if_neg hroom]
      rfl
    rw [hcount, h.count]
    refine (countP_congr fun a _ => ?_).symm
    simp only [decide_eq_true_eq, hmode]

theorem counted_foldl_activateLeaf {leaves : List Nat} (h : Counted T walk.1)
    (hleaves : ∀ a ∈ leaves, a ∈ T.leaves)
    (hfresh : ∀ a ∈ leaves, (walk.1.leaf a).mode = .initialized) (hnodup : leaves.Nodup) :
    Counted T (leaves.foldl (activateLeaf T) walk).1 := by
  induction leaves generalizing walk with
  | nil => exact h
  | cons leaf rest ih =>
    obtain ⟨hleaf, hrest⟩ := nodup_cons.mp hnodup
    refine ih (counted_activateLeaf h (hleaves leaf mem_cons_self)
        (hfresh leaf mem_cons_self))
      (fun a ha => hleaves a (mem_cons_of_mem leaf ha)) ?_ hrest
    intro a ha
    have hne : a ≠ leaf := fun heq => hleaf (heq ▸ ha)
    rw [activateLeaf_of_ne walk hne]
    exact hfresh a (mem_cons_of_mem leaf ha)

theorem startTree_withinBounds : WithinBounds T (startTree T) := by
  have hnobody : ∀ node, activeIn T (builtTree T) node = 0 := fun node =>
    countP_eq_zero.mpr fun a _ => by simp [builtTree]
  have hbuilt : Counted T (builtTree T) := by
    refine ⟨fun node => (hnobody node).symm, fun node maxRanks _ => ?_⟩
    rw [hnobody]
    exact Nat.zero_le maxRanks
  have hwalk : Counted T (boundedActivate T (builtTree T)).1 :=
    counted_foldl_activateLeaf hbuilt (fun _ ha => ha) (fun _ _ => rfl) T.leaves_nodup
  exact hwalk.bounds.mono fun a ha => mode_startTree (T := T) a ▸ ha

/-! ## Later calls -/

/-- Replacements that fit stay within the bounds. -/
theorem replaceWithInactive_withinBounds {todo : List Nat} (h : Shape T st)
    (hbounds : WithinBounds T st) (hfit : replacementsFit T st todo = true) :
    WithinBounds T (replaceWithInactive T st todo).1 := by
  induction todo generalizing st with
  | nil => exact hbounds
  | cons rank rest ih =>
    cases hfind : findSpare T st (st.leafOf rank) with
    | none =>
      simp only [replacementsFit, hfind] at hfit
      simp only [replaceWithInactive, hfind]
      exact ih h hbounds hfit
    | some found =>
      obtain ⟨spare, popped⟩ := found
      obtain ⟨hspare, hpopped⟩ := findSpare_eq_some h hfind
      simp only [replacementsFit, hfind, Bool.and_eq_true] at hfit
      simp only [replaceWithInactive, hfind]
      refine ih (h.activate_popped hspare hpopped _) ?_ hfit.2
      refine hbounds.activated (h.member spare (by simp [hspare])) (by simp [hspare]) ?_ ?_ ?_
      · rw [activate_self]
      · intro b hb
        rw [activate_of_ne popped _ hb, hpopped.leaf]
      · intro node hnode maxRanks hmax
        exact lt_of_roomLeft (all_eq_true.mp hfit.1 node hnode) hmax

theorem mode_backfillNodes (st : TreeState) (replaced backfill nodes : List Nat) (a : Nat) :
    ((backfillNodes st replaced backfill nodes).1.leaf a).mode = (st.leaf a).mode := by
  fun_induction backfillNodes st replaced backfill nodes with
  | case1 st replaced backfill => rfl
  | case2 st replaced leaf rest ih => exact ih
  | case3 st replaced b backfill leaf rest ih =>
    rw [ih]
    exact setActiveRank_mode st b _ a

theorem mode_shifted (st : TreeState) (unhandled : List Nat) (a : Nat) :
    ((shifted T st unhandled).leaf a).mode = (st.leaf a).mode := by
  have hfold : ∀ (domains : List (NodePath × List Nat)) (walk : TreeState × List Nat),
      ((domains.foldl (backfillDomainStep T) walk).1.leaf a).mode = (walk.1.leaf a).mode := by
    intro domains
    induction domains with
    | nil => exact fun walk => rfl
    | cons domain rest ih =>
      intro walk
      rw [foldl_cons, ih]
      exact mode_backfillNodes _ _ _ _ a
  simp only [shifted]
  split
  · rw [mode_shiftRanks, replaceWithBackfill, hfold, mode_backfillNodes]
  · rfl

theorem active_of_filtered (h : ((filtered T filter st).leaf a).mode = .active) :
    (st.leaf a).mode = .active := by
  cases filter with
  | none => exact h
  | some filter =>
    simp only [filtered, filterActiveWorldSize] at h
    rw [leaf_foldl_filterLeaf _ T.leaves_nodup] at h
    split at h
    · unfold filterState at h
      split at h
      · simp at h
      · exact h
    · exact h

/-- After replacement a call activates nobody. -/
theorem active_of_callTree
    (h : ((callTree T filter st worldSize terminatedRanks).leaf a).mode = .active) :
    ((replaced T st (propagateTerminations T st terminatedRanks)).1.leaf a).mode = .active := by
  simp only [callTree] at h
  rw [mode_recomputeRank, (leaf_updateTree _ _ _ a).1] at h
  have hshifted := active_of_filtered h
  rwa [mode_shifted] at hshifted

theorem callTree_withinBounds (filter : Option WorldSizeFilter) (h : Ready T st worldSize)
    (hterm : Terminable T st terminatedRanks) (hbounds : WithinBounds T st)
    (hfit : callFits T st terminatedRanks = true) :
    WithinBounds T (callTree T filter st worldSize terminatedRanks) := by
  have hterm' := hterm.propagateTerminations
  obtain ⟨activeWorldSize, hsettled⟩ := h.settled
  have hshape : Shape T
      (terminateRanks T st (propagateTerminations T st terminatedRanks)) := by
    refine shape_foldl_terminate hsettled.shape fun a ha => ?_
    obtain ⟨r, hr, rfl⟩ := mem_map.mp ha
    exact (h.leafOf_healthy hterm' hr).1
  have hterminated : WithinBounds T
      (terminateRanks T st (propagateTerminations T st terminatedRanks)) := by
    refine hbounds.mono fun a ha => ?_
    rw [terminateRanks, leaf_foldl_terminate] at ha
    split at ha
    · simp at ha
    · exact ha
  exact (replaceWithInactive_withinBounds hshape hterminated hfit).mono fun a ha =>
    active_of_callTree ha

end ResiliencyExt.Inprocess
