import Mathlib.Data.List.Infix
import ResiliencyExt.Foundation.GroupTree

set_option autoImplicit false

/-!
# Inprocess: the topology of distributed ranks

`Tree` arranges the ranks in a tree with one level of inner nodes for each
`Layer`.  The shape of the tree never changes after it is built, so it is kept
apart from the state of the leaves.  A leaf is named by its initial rank and an
inner node by the grouping keys on the way to it from the root.
-/

namespace ResiliencyExt.Inprocess

open Foundation

/-- Operational mode of a distributed rank. -/
inductive Mode where
  | initialized
  | active
  | inactive
  | terminated
  deriving DecidableEq, Repr

/-- The bits of a `LayerFlag` value. -/
structure LayerFlag where
  reserve : Bool
  backfill : Bool
  deriving DecidableEq, Repr

/-- A layer of branches; `keyOrFn` is its grouping key for the rank with a given
initial rank. -/
structure Layer where
  minRanks : Nat
  maxRanks : Option Nat
  keyOrFn : Nat → String
  flag : Option LayerFlag

/-- `layer.flag and layer.flag & LayerFlag.RESERVE` -/
def Layer.isReserve (layer : Layer) : Bool :=
  match layer.flag with
  | none => false
  | some flag => flag.reserve

/-- `layer.flag and layer.flag & LayerFlag.BACKFILL` -/
def Layer.isBackfill (layer : Layer) : Bool :=
  match layer.flag with
  | none => false
  | some flag => flag.backfill

/-- An inner node: the grouping keys below the root key. -/
abbrev NodePath := List String

/-- The layers of a `Tree`, the root's first, and the initial ranks that the
processes published, in the order of their ranks. -/
structure Topology where
  rootLayer : Layer
  innerLayers : List Layer
  initialRanks : List Nat
  nodup : initialRanks.Nodup

namespace Topology

variable (T : Topology)

/-- The grouping keys of the layers below the root. -/
def keys : List (Nat → String) :=
  T.innerLayers.map Layer.keyOrFn

/-- `build_tree`: every rank is put below the nodes of its keys. -/
def tree : GroupTree String Nat T.keys :=
  GroupTree.build T.keys T.initialRanks

/-- `self.tree.iter_leaves()` -/
def leaves : List Nat :=
  GroupTree.leaves T.keys T.tree

/-- `node.iter_leaves()` of an inner node. -/
def leavesAt (node : NodePath) : List Nat :=
  GroupTree.leavesAt T.keys T.tree node

/-- The inner nodes, children before parents. -/
def nodes : List NodePath :=
  GroupTree.nodes T.keys T.tree

/-- The layer of an inner node. -/
def layerAt (node : NodePath) : Layer :=
  (T.rootLayer :: T.innerLayers).getD node.length T.rootLayer

/-- The chain of parents of a leaf, up to the root. -/
def ancestors (leaf : Nat) : List NodePath :=
  (GroupTree.path T.keys leaf).inits.reverse

/-- `assign_backfill_domain`: the highest node reached through a chain of
`BACKFILL` layers. -/
def backfillDomain (leaf : Nat) : Option NodePath :=
  ((T.ancestors leaf).takeWhile fun node => (T.layerAt node).isBackfill).getLast?

/-- All ranks share one grouping key at the root level. -/
def SharesRootKey : Prop :=
  ∀ a ∈ T.initialRanks, ∀ b ∈ T.initialRanks, T.rootLayer.keyOrFn a = T.rootLayer.keyOrFn b

instance : Decidable T.SharesRootKey :=
  inferInstanceAs (Decidable (∀ a ∈ T.initialRanks, ∀ b ∈ T.initialRanks, _))

theorem leaves_perm : T.leaves.Perm T.initialRanks :=
  GroupTree.leaves_build_perm T.keys T.initialRanks

theorem leaves_nodup : T.leaves.Nodup :=
  T.leaves_perm.nodup_iff.mpr T.nodup

theorem leavesAt_nodup (node : NodePath) : (T.leavesAt node).Nodup :=
  T.leaves_nodup.sublist (GroupTree.leavesAt_sublist T.keys T.tree node)

/-- The leaves below a node are those that have it as an ancestor. -/
theorem mem_leavesAt {node : NodePath} {leaf : Nat} :
    leaf ∈ T.leavesAt node ↔ leaf ∈ T.leaves ∧ node ∈ T.ancestors leaf := by
  have hgrouped : GroupTree.WellGrouped T.keys T.tree :=
    GroupTree.wellGrouped_build T.keys T.initialRanks
  rw [leavesAt, GroupTree.mem_leavesAt hgrouped]
  simp only [ancestors, List.mem_reverse, List.mem_inits]
  rfl

end Topology

end ResiliencyExt.Inprocess
