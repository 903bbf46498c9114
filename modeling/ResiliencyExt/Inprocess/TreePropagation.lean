import ResiliencyExt.Foundation.ThresholdClosure
import ResiliencyExt.Inprocess.TreeAssignment

set_option autoImplicit false

/-!
# Inprocess: propagation of terminations

`propagate_terminations` visits every inner node once, children first.  The set of ranks
that it returns is the least one that leaves each node without healthy ranks or with
enough of them.
-/

namespace ResiliencyExt.Inprocess

open Foundation

variable {T : Topology} {st : TreeState}

/-- Every leaf has a rank of its own. -/
structure Ranked (T : Topology) (st : TreeState) : Prop where
  isSome : ∀ a ∈ T.leaves, (st.leaf a).rank.isSome = true
  injective : ∀ a ∈ T.leaves, ∀ b ∈ T.leaves, (st.leaf a).rank = (st.leaf b).rank → a = b

/-- The set leaves each inner node without healthy ranks, or with enough of them. -/
def PropagationClosed (T : Topology) (st : TreeState) (terminatedRanks : List Nat) : Prop :=
  ∀ node ∈ T.nodes, (T.leavesAt node).countP (isHealthy st terminatedRanks) = 0 ∨
    (T.layerAt node).minRanks ≤ (T.leavesAt node).countP (isHealthy st terminatedRanks)

/-- The ranks of the leaves below a node that are not terminated. -/
def ranksAt (T : Topology) (st : TreeState) (node : NodePath) : List Nat :=
  (T.leavesAt node).filterMap fun leaf =>
    if (st.leaf leaf).mode ≠ .terminated then (st.leaf leaf).rank else none

theorem mem_ranksAt {node : NodePath} {r : Nat} : r ∈ ranksAt T st node ↔
    ∃ a ∈ T.leavesAt node, (st.leaf a).mode ≠ .terminated ∧ (st.leaf a).rank = some r := by
  simp only [ranksAt, List.mem_filterMap, Option.ite_none_right_eq_some]

theorem remaining_ranksAt (h : Ranked T st) (terminatedRanks : List Nat) (node : NodePath) :
    remaining (ranksAt T st) terminatedRanks node =
      (T.leavesAt node).countP (isHealthy st terminatedRanks) := by
  rw [remaining, ranksAt, List.countP_filterMap]
  refine List.countP_congr fun a ha => ?_
  obtain ⟨r, hr⟩ := Option.isSome_iff_exists.mp (h.isSome a (T.mem_leavesAt.mp ha).1)
  by_cases hmode : (st.leaf a).mode = .terminated
  · simp [isHealthy, hmode]
  · simp [isHealthy, hmode, hr]

/-- The least number of healthy ranks of a node. -/
def minRanksAt (T : Topology) (node : NodePath) : Nat :=
  (T.layerAt node).minRanks

theorem propagateAt_eq_closeAt (h : Ranked T st) (terminatedRanks : List Nat) (node : NodePath) :
    propagateAt T st terminatedRanks node =
      closeAt (ranksAt T st) (minRanksAt T) terminatedRanks node := by
  rw [propagateAt, closeAt, remaining_ranksAt h]
  rfl

theorem propagateTerminations_eq_foldl (h : Ranked T st) (terminatedRanks : List Nat) :
    propagateTerminations T st terminatedRanks =
      T.nodes.foldl (closeAt (ranksAt T st) (minRanksAt T)) terminatedRanks := by
  have hstep : propagateAt T st = closeAt (ranksAt T st) (minRanksAt T) :=
    funext fun S => funext fun node => propagateAt_eq_closeAt h S node
  rw [propagateTerminations, hstep]

theorem propagationClosed_iff (h : Ranked T st) {terminatedRanks : List Nat} :
    PropagationClosed T st terminatedRanks ↔
      ∀ node ∈ T.nodes, ThresholdClosed (ranksAt T st) (minRanksAt T) terminatedRanks node := by
  simp only [PropagationClosed, ThresholdClosed, remaining_ranksAt h]
  rfl

/-- The ranks below two nodes are nested or disjoint, the earlier node being the inner one. -/
theorem ranksAt_nested (h : Ranked T st) : T.nodes.Pairwise fun p q =>
    ranksAt T st p ⊆ ranksAt T st q ∨ List.Disjoint (ranksAt T st p) (ranksAt T st q) := by
  refine (GroupTree.nodes_pairwise T.keys T.tree).imp fun {p q} hnot => ?_
  have hleaf : ∀ node a, a ∈ T.leavesAt node ↔
      a ∈ T.leaves ∧ node <+: GroupTree.path T.keys a := fun node a =>
    GroupTree.mem_leavesAt (GroupTree.wellGrouped_build T.keys T.initialRanks) node a
  by_cases hqp : q <+: p
  · refine .inl fun r hr => ?_
    obtain ⟨a, ha, hmode, hrank⟩ := mem_ranksAt.mp hr
    obtain ⟨hmem, hprefix⟩ := (hleaf p a).mp ha
    exact mem_ranksAt.mpr ⟨a, (hleaf q a).mpr ⟨hmem, hqp.trans hprefix⟩, hmode, hrank⟩
  · refine .inr fun r hp hq => ?_
    obtain ⟨a, ha, -, hranka⟩ := mem_ranksAt.mp hp
    obtain ⟨b, hb, -, hrankb⟩ := mem_ranksAt.mp hq
    obtain ⟨hmema, hprefixa⟩ := (hleaf p a).mp ha
    obtain ⟨hmemb, hprefixb⟩ := (hleaf q b).mp hb
    obtain rfl := h.injective a hmema b hmemb (hranka.trans hrankb.symm)
    exact (List.prefix_or_prefix_of_prefix hprefixa hprefixb).elim hnot hqp

/-- The trees between the calls of a run are ranked. -/
theorem Ready.ranked {worldSize : Int} (h : Ready T st worldSize) : Ranked T st where
  isSome a ha := by
    rw [h.rank_isSome ha]
    rfl
  injective a ha b _ heq := by
    have hrank := h.rank_isSome ha
    have hb := (h.rank b (st.rankOf a)).mp (heq ▸ hrank)
    exact Option.some.inj (((h.rank a (st.rankOf a)).mp hrank).symm.trans hb)

/-- One pass over a tree computes the least closed set of ranks that has the terminated ones; so
it does on every tree of a run. -/
theorem propagateTerminations_least (T : Topology) :
    (∀ st, Ranked T st → ∀ terminatedRanks,
      terminatedRanks ⊆ propagateTerminations T st terminatedRanks ∧
      PropagationClosed T st (propagateTerminations T st terminatedRanks) ∧
      ∀ S, terminatedRanks ⊆ S → PropagationClosed T st S →
        propagateTerminations T st terminatedRanks ⊆ S) ∧
    ∀ filter, ∀ self ∈ T.initialRanks, ∀ s,
      (treeSystem T filter self).Reachable (fun _ _ => True) s → Ranked T (s.current T) := by
  refine ⟨fun st h terminatedRanks => ?_, fun filter self hself s hs => ?_⟩
  · rw [propagateTerminations_eq_foldl h, propagationClosed_iff h]
    refine ⟨subset_foldl_closeAt _ _, foldl_closeAt_closed (ranksAt_nested h) _,
      fun S hsub hclosed => ?_⟩
    exact foldl_closeAt_subset ((propagationClosed_iff h).mp hclosed) hsub
  · obtain ⟨worldSize, hready, -⟩ := runReady_reachable hself hs
    exact hready.ranked

/-- Two hosts with two ranks each, which need both. -/
def pairedHosts : Topology where
  rootLayer :=
    { minRanks := 1
      maxRanks := none
      keyOrFn := fun _ => "root"
      flag := none }
  innerLayers :=
    [{ minRanks := 2
       maxRanks := none
       keyOrFn := fun leaf => if leaf < 2 then "host0" else "host1"
       flag := none }]
  initialRanks := [0, 1, 2, 3]
  nodup := by decide

/-- The other rank of the host goes too. -/
theorem propagateTerminations_least_pairedHosts :
    1 ∈ propagateTerminations pairedHosts (startTree pairedHosts) [0] ∧
      [0] ⊆ propagateTerminations pairedHosts (startTree pairedHosts) [0] ∧
      PropagationClosed pairedHosts (startTree pairedHosts)
        (propagateTerminations pairedHosts (startTree pairedHosts) [0]) ∧
      ∀ S, [0] ⊆ S → PropagationClosed pairedHosts (startTree pairedHosts) S →
        propagateTerminations pairedHosts (startTree pairedHosts) [0] ⊆ S :=
  ⟨by decide, (propagateTerminations_least pairedHosts).1 (startTree pairedHosts)
    startTree_ready.ranked [0]⟩

end ResiliencyExt.Inprocess
