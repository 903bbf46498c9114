import ResiliencyExt.Inprocess.Tree

set_option autoImplicit false

/-!
# Inprocess: modes, active ranks and inactive maps agree

The three leaf operations keep one invariant, `Shape`: a leaf has an active rank
exactly when its mode asks for one, and the `inactive_nodes` of an inner node
are the inactive leaves below it.  `activeNumber` reads the active ranks as a
numbering of the leaves, which the phases of a call then rearrange.
-/

namespace ResiliencyExt.Inprocess

open Foundation

/-- The active rank of an active leaf. -/
def activeNumber (st : TreeState) (leaf : Nat) : Option Nat :=
  if (st.leaf leaf).mode = .active then (st.leaf leaf).activeRank else none

variable {st : TreeState} {leaf : Nat}

theorem activeNumber_of_active (h : (st.leaf leaf).mode = .active) :
    activeNumber st leaf = (st.leaf leaf).activeRank :=
  if_pos h

theorem activeNumber_of_ne (h : (st.leaf leaf).mode ≠ .active) : activeNumber st leaf = none :=
  if_neg h

theorem activeNumber_congr {st' : TreeState} (h : st'.leaf leaf = st.leaf leaf) :
    activeNumber st' leaf = activeNumber st leaf := by
  rw [activeNumber, activeNumber, h]

theorem activeNumber_eq_some {r : Nat} :
    activeNumber st leaf = some r ↔
      (st.leaf leaf).mode = .active ∧ (st.leaf leaf).activeRank = some r := by
  unfold activeNumber
  split
  · rename_i h
    simp [h]
  · rename_i h
    simp [h]

@[simp] theorem modifyLeaf_self (st : TreeState) (leaf : Nat) (f : LeafState → LeafState) :
    (st.modifyLeaf leaf f).leaf leaf = f (st.leaf leaf) := by
  simp [TreeState.modifyLeaf]

theorem modifyLeaf_of_ne (st : TreeState) {other : Nat} (f : LeafState → LeafState)
    (h : other ≠ leaf) : (st.modifyLeaf leaf f).leaf other = st.leaf other := by
  simp [TreeState.modifyLeaf, h]

variable {T : Topology}

/-! ## The invariant -/

/-- The modes, the active ranks and the inactive maps of a tree agree. -/
structure Shape (T : Topology) (st : TreeState) : Prop where
  member : ∀ a, (st.leaf a).mode ≠ .initialized → a ∈ T.leaves
  active : ∀ a, (st.leaf a).mode = .active → ∃ r, (st.leaf a).activeRank = some r
  inactive : ∀ a, (st.leaf a).mode = .inactive → (st.leaf a).activeRank = none
  inactiveNodes : ∀ p a, a ∈ st.inactiveNodes p ↔
    p ∈ T.ancestors a ∧ (st.leaf a).mode = .inactive
  nodup : ∀ p, (st.inactiveNodes p).Nodup

variable {leaf other : Nat} {change : List Nat → List Nat} {inactiveNodes : NodePath → List Nat}
    {p : NodePath} (st : TreeState)

theorem Shape.activeNumber_isSome {st : TreeState} (h : Shape T st) {a : Nat}
    (hmode : (st.leaf a).mode = .active) :
    activeNumber st a = some (st.activeRankOf a) := by
  obtain ⟨r, hr⟩ := h.active a hmode
  rw [activeNumber_of_active hmode, TreeState.activeRankOf, hr]
  rfl

/-- Changes of the leaves that keep every mode, and the active ranks where they
must be, keep the invariant. -/
theorem Shape.relabel {st st' : TreeState} (h : Shape T st)
    (hmode : ∀ a, (st'.leaf a).mode = (st.leaf a).mode)
    (hactive : ∀ a, (st.leaf a).mode = .active → ∃ r, (st'.leaf a).activeRank = some r)
    (hinactive : ∀ a, (st.leaf a).mode = .inactive → (st'.leaf a).activeRank = none)
    (hmap : st'.inactiveNodes = st.inactiveNodes) : Shape T st' where
  member a ha := h.member a (hmode a ▸ ha)
  active a ha := hactive a (hmode a ▸ ha)
  inactive a ha := hinactive a (hmode a ▸ ha)
  inactiveNodes p a := by
    rw [hmap, hmode]
    exact h.inactiveNodes p a
  nodup p := by
    rw [hmap]
    exact h.nodup p

/-- One leaf of the tree takes a new state, and the maps of its ancestors follow
its mode: the common part of the three leaf operations. -/
theorem Shape.update_leaf {st st' : TreeState} (h : Shape T st) {a : Nat}
    (hmember : a ∈ T.leaves) (hother : ∀ b, b ≠ a → st'.leaf b = st.leaf b)
    (hactive : (st'.leaf a).mode = .active → ∃ r, (st'.leaf a).activeRank = some r)
    (hinactive : (st'.leaf a).mode = .inactive → (st'.leaf a).activeRank = none)
    (hself : ∀ p, a ∈ st'.inactiveNodes p ↔
      p ∈ T.ancestors a ∧ (st'.leaf a).mode = .inactive)
    (hothers : ∀ p b, b ≠ a → (b ∈ st'.inactiveNodes p ↔ b ∈ st.inactiveNodes p))
    (hnodup : ∀ p, (st'.inactiveNodes p).Nodup) : Shape T st' where
  member b hb := by
    by_cases hba : b = a
    · exact hba ▸ hmember
    · exact h.member b (hother b hba ▸ hb)
  active b hb := by
    by_cases hba : b = a
    · subst hba
      exact hactive hb
    · rw [hother b hba] at hb ⊢
      exact h.active b hb
  inactive b hb := by
    by_cases hba : b = a
    · subst hba
      exact hinactive hb
    · rw [hother b hba] at hb ⊢
      exact h.inactive b hb
  inactiveNodes p b := by
    by_cases hba : b = a
    · subst hba
      exact hself p
    · rw [hothers p b hba, hother b hba]
      exact h.inactiveNodes p b
  nodup := hnodup

/-! ## The leaf operations -/

theorem onAncestors_of_mem (h : p ∈ T.ancestors leaf) :
    onAncestors T leaf change inactiveNodes p = change (inactiveNodes p) :=
  if_pos h

theorem onAncestors_of_not_mem (h : p ∉ T.ancestors leaf) :
    onAncestors T leaf change inactiveNodes p = inactiveNodes p :=
  if_neg h

/-- Popping a leaf from the maps of its ancestors takes it out, if no other map
had it. -/
theorem mem_onAncestors_filter {b : Nat} (hmem : leaf ∈ inactiveNodes p → p ∈ T.ancestors leaf) :
    b ∈ onAncestors T leaf (fun nodes => nodes.filter fun l => l ≠ leaf) inactiveNodes p ↔
      b ∈ inactiveNodes p ∧ b ≠ leaf := by
  by_cases hp : p ∈ T.ancestors leaf
  · rw [onAncestors_of_mem hp, List.mem_filter]
    simp
  · rw [onAncestors_of_not_mem hp]
    constructor
    · intro hb
      refine ⟨hb, ?_⟩
      rintro rfl
      exact hp (hmem hb)
    · exact And.left

theorem nodup_onAncestors (hchange : ∀ nodes : List Nat, nodes.Nodup → (change nodes).Nodup)
    (h : (inactiveNodes p).Nodup) : (onAncestors T leaf change inactiveNodes p).Nodup := by
  unfold onAncestors
  split
  · exact hchange _ h
  · exact h

theorem nodup_insert_last {nodes : List Nat} (leaf : Nat) (h : nodes.Nodup) :
    (if leaf ∈ nodes then nodes else nodes ++ [leaf]).Nodup := by
  split
  · exact h
  · rename_i hnew
    exact List.nodup_append_comm.mp (List.nodup_cons.mpr ⟨hnew, h⟩)

theorem deactivate_self (leaf : Nat) :
    (deactivate T st leaf).leaf leaf =
      { st.leaf leaf with mode := .inactive, activeRank := none } := by
  simp [deactivate, TreeState.modifyLeaf]

theorem deactivate_of_ne (h : other ≠ leaf) :
    (deactivate T st leaf).leaf other = st.leaf other := by
  simp [deactivate, TreeState.modifyLeaf, h]

theorem terminate_self (leaf : Nat) :
    (terminate T st leaf).leaf leaf = { st.leaf leaf with mode := .terminated } := by
  simp [terminate, TreeState.modifyLeaf]

theorem terminate_of_ne (h : other ≠ leaf) :
    (terminate T st leaf).leaf other = st.leaf other := by
  simp [terminate, TreeState.modifyLeaf, h]

theorem activate_self (leaf r : Nat) :
    (activate T st leaf r).leaf leaf =
      { st.leaf leaf with mode := .active, activeRank := some r } := by
  simp [activate, TreeState.modifyLeaf]

theorem activate_of_ne (r : Nat) (h : other ≠ leaf) :
    (activate T st leaf r).leaf other = st.leaf other := by
  simp [activate, TreeState.modifyLeaf, h]

theorem inactiveNodes_deactivate (leaf : Nat) :
    (deactivate T st leaf).inactiveNodes =
      onAncestors T leaf (fun nodes => if leaf ∈ nodes then nodes else nodes ++ [leaf])
        st.inactiveNodes :=
  rfl

theorem Shape.deactivate {st : TreeState} (h : Shape T st) (hleaf : leaf ∈ T.leaves) :
    Shape T (deactivate T st leaf) := by
  have hadd : ∀ p b, b ∈ (Inprocess.deactivate T st leaf).inactiveNodes p ↔
      b ∈ st.inactiveNodes p ∨ (p ∈ T.ancestors leaf ∧ b = leaf) := by
    intro p b
    rw [inactiveNodes_deactivate]
    by_cases hp : p ∈ T.ancestors leaf
    · rw [onAncestors_of_mem hp]
      split
      · rename_i hmem
        simp only [hp, true_and]
        exact ⟨Or.inl, fun hb => hb.elim id fun heq => heq ▸ hmem⟩
      · simp [hp]
    · rw [onAncestors_of_not_mem hp]
      simp [hp]
  refine h.update_leaf hleaf (fun b hb => deactivate_of_ne st hb) ?_ ?_ ?_ ?_ ?_
  · intro hmode
    rw [deactivate_self] at hmode
    simp at hmode
  · intro _
    rw [deactivate_self]
  · intro p
    rw [hadd, deactivate_self, h.inactiveNodes]
    simp
    exact fun hp _ => hp
  · intro p b hb
    rw [hadd]
    simp [hb]
  · intro p
    exact nodup_onAncestors (fun nodes hnodes => nodup_insert_last leaf hnodes) (h.nodup p)

theorem Shape.terminate {st : TreeState} (h : Shape T st) (hleaf : leaf ∈ T.leaves) :
    Shape T (terminate T st leaf) := by
  have hremove : ∀ p b, b ∈ (Inprocess.terminate T st leaf).inactiveNodes p ↔
      b ∈ st.inactiveNodes p ∧ b ≠ leaf := fun p b =>
    mem_onAncestors_filter fun hmem => ((h.inactiveNodes p leaf).mp hmem).1
  refine h.update_leaf hleaf (fun b hb => terminate_of_ne st hb) ?_ ?_ ?_ ?_ ?_
  · intro hmode
    rw [terminate_self] at hmode
    simp at hmode
  · intro hmode
    rw [terminate_self] at hmode
    simp at hmode
  · intro p
    rw [hremove, terminate_self]
    simp
  · intro p b hb
    rw [hremove]
    simp [hb]
  · intro p
    exact nodup_onAncestors (fun nodes hnodes => hnodes.filter _) (h.nodup p)

theorem Shape.activate {st : TreeState} (h : Shape T st) (r : Nat) (hleaf : leaf ∈ T.leaves) :
    Shape T (activate T st leaf r) := by
  have hremove : ∀ p b, b ∈ (Inprocess.activate T st leaf r).inactiveNodes p ↔
      b ∈ st.inactiveNodes p ∧ b ≠ leaf := fun p b =>
    mem_onAncestors_filter fun hmem => ((h.inactiveNodes p leaf).mp hmem).1
  refine h.update_leaf hleaf (fun b hb => activate_of_ne st r hb) ?_ ?_ ?_ ?_ ?_
  · intro _
    rw [activate_self]
    exact ⟨r, rfl⟩
  · intro hmode
    rw [activate_self] at hmode
    simp at hmode
  · intro p
    rw [hremove, activate_self]
    simp
  · intro p b hb
    rw [hremove]
    simp [hb]
  · intro p
    exact nodup_onAncestors (fun nodes hnodes => hnodes.filter _) (h.nodup p)

end ResiliencyExt.Inprocess
