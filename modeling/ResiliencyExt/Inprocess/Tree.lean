import Mathlib.Data.List.Sort
import ResiliencyExt.Foundation.Numbering
import ResiliencyExt.Foundation.System
import ResiliencyExt.Inprocess.Topology

set_option autoImplicit false

/-!
# Inprocess: the `Tree` rank assignment

The functions of `Tree`, phase by phase, on the state of the leaves and the
maps of inactive leaves that the inner nodes keep.  A call runs the phases in
order: propagate terminations, terminate, replace from reserve domains,
backfill, shift, filter, update, recompute ranks.

Sets of ranks are lists without duplicates.  Log messages and the fields of
`State` that no phase reads (`fn_exception`, `iteration`) are left out.
-/

namespace ResiliencyExt.Inprocess

open Foundation

/-- The fields of a leaf's `State` that rank assignment reads and writes. -/
structure LeafState where
  mode : Mode
  rank : Option Nat
  worldSize : Int
  activeRank : Option Nat
  activeWorldSize : Option Int
  deriving DecidableEq, Repr

/-- `world_size_filter`: it returns a world size no greater than its input, as
`filter_active_world_size` asserts. -/
structure WorldSizeFilter where
  apply : Int → Int
  le : ∀ n, apply n ≤ n

/-- The mutable part of a `Tree`: the leaves by initial rank, the `inactive_nodes`
and `active_count` of each inner node, and `rank_map`. -/
structure TreeState where
  leaf : Nat → LeafState
  inactiveNodes : NodePath → List Nat
  activeCount : NodePath → Nat
  rankMap : List Nat

namespace TreeState

/-- Change one leaf. -/
def modifyLeaf (st : TreeState) (leaf : Nat) (f : LeafState → LeafState) : TreeState :=
  { st with leaf := Function.update st.leaf leaf (f (st.leaf leaf)) }

/-- Change every leaf of `rank_map`, whose values are different leaves. -/
def modifyRankMap (st : TreeState) (f : LeafState → LeafState) : TreeState :=
  { st with leaf := fun leaf => if leaf ∈ st.rankMap then f (st.leaf leaf) else st.leaf leaf }

/-- `self.rank_map[rank]` -/
def leafOf (st : TreeState) (rank : Nat) : Nat :=
  st.rankMap.getD rank 0

/-- `node.state.active_rank` of a leaf that has one. -/
def activeRankOf (st : TreeState) (leaf : Nat) : Nat :=
  (st.leaf leaf).activeRank.getD 0

end TreeState

section Phases

variable (T : Topology)

/-! ## Nodes -/

/-- Change the `inactive_nodes` of all ancestors of a leaf. -/
def onAncestors (leaf : Nat) (change : List Nat → List Nat)
    (inactiveNodes : NodePath → List Nat) : NodePath → List Nat :=
  fun node =>
    if node ∈ T.ancestors leaf then change (inactiveNodes node) else inactiveNodes node

/-- `Node.deactivate` -/
def deactivate (st : TreeState) (leaf : Nat) : TreeState :=
  { st.modifyLeaf leaf fun s => { s with mode := .inactive, activeRank := none } with
    inactiveNodes :=
      onAncestors T leaf (fun nodes => if leaf ∈ nodes then nodes else nodes ++ [leaf])
        st.inactiveNodes }

/-- `Node.terminate` -/
def terminate (st : TreeState) (leaf : Nat) : TreeState :=
  { st.modifyLeaf leaf fun s => { s with mode := .terminated } with
    inactiveNodes :=
      onAncestors T leaf (fun nodes => nodes.filter fun l => l ≠ leaf) st.inactiveNodes }

/-- `Node.activate` -/
def activate (st : TreeState) (leaf activeRank : Nat) : TreeState :=
  { st.modifyLeaf leaf fun s => { s with mode := .active, activeRank := some activeRank } with
    inactiveNodes :=
      onAncestors T leaf (fun nodes => nodes.filter fun l => l ≠ leaf) st.inactiveNodes }

/-! ## The first call -/

/-- The ancestor's layer permits another active rank. -/
def hasRoom (st : TreeState) (node : NodePath) : Bool :=
  match (T.layerAt node).maxRanks with
  | none => true
  | some maxRanks => st.activeCount node < maxRanks

/-- What `bounded_activate` does at a leaf. -/
def activateLeaf (walk : TreeState × Nat) (leaf : Nat) : TreeState × Nat :=
  let st := walk.1
  let counter := walk.2
  if (T.ancestors leaf).all (hasRoom T st) then
    ({ activate T st leaf counter with
        activeCount := fun node =>
          if node ∈ T.ancestors leaf then st.activeCount node + 1 else st.activeCount node },
      counter + 1)
  else (deactivate T st leaf, counter)

/-- `bounded_activate`: the walk visits the leaves depth first. -/
def boundedActivate (st : TreeState) : TreeState × Nat :=
  T.leaves.foldl (activateLeaf T) (st, 0)

/-- The leaves as `build_tree` creates them from the published states. -/
def builtTree : TreeState where
  leaf := fun leaf =>
    { mode := .initialized
      rank := if leaf ∈ T.initialRanks then some (T.initialRanks.idxOf leaf) else none
      worldSize := T.initialRanks.length
      activeRank := none
      activeWorldSize := none }
  inactiveNodes := fun _ => []
  activeCount := fun _ => 0
  rankMap := T.initialRanks

/-- What the first call does before it comes to the terminated ranks. -/
def startTree : TreeState :=
  let walk := boundedActivate T (builtTree T)
  walk.1.modifyRankMap fun s => { s with activeWorldSize := some (walk.2 : Int) }

/-! ## Termination -/

/-- The leaf is healthy under the terminations collected so far. -/
def isHealthy (st : TreeState) (terminatedRanks : List Nat) (leaf : Nat) : Bool :=
  (st.leaf leaf).mode ≠ .terminated &&
    (st.leaf leaf).rank.all fun rank => rank ∉ terminatedRanks

/-- `propagate_terminations` at one inner node. -/
def propagateAt (st : TreeState) (terminatedRanks : List Nat) (node : NodePath) : List Nat :=
  if (T.leavesAt node).countP (isHealthy st terminatedRanks) < (T.layerAt node).minRanks then
    ((T.leavesAt node).filterMap fun leaf =>
      if (st.leaf leaf).mode ≠ .terminated then (st.leaf leaf).rank else none) ∪ terminatedRanks
  else terminatedRanks

/-- `propagate_terminations`: children before parents. -/
def propagateTerminations (st : TreeState) (terminatedRanks : List Nat) : List Nat :=
  T.nodes.foldl (propagateAt T st) terminatedRanks

/-- The loop of `__call__` that terminates the leaves of the terminated ranks. -/
def terminateRanks (st : TreeState) (terminatedRanks : List Nat) : TreeState :=
  (terminatedRanks.map st.leafOf).foldl (terminate T) st

/-! ## Replacement from a reserve domain -/

/-- The nearest ancestor, up a chain of `RESERVE` layers, that has an inactive
leaf. -/
def reserveNode (st : TreeState) (leaf : Nat) : Option NodePath :=
  ((T.ancestors leaf).takeWhile fun node => (T.layerAt node).isReserve).find? fun node =>
    st.inactiveNodes node ≠ []

/-- `parent.inactive_nodes.popitem()`: the leaf inserted last. -/
def popitem (st : TreeState) (node : NodePath) : Option (Nat × TreeState) :=
  (st.inactiveNodes node).getLast?.map fun leaf =>
    (leaf, { st with
      inactiveNodes := fun other =>
        if other = node then (st.inactiveNodes node).dropLast else st.inactiveNodes other })

/-- The spare that replaces a leaf, and the tree without it in its node's map. -/
def findSpare (st : TreeState) (leaf : Nat) : Option (Nat × TreeState) :=
  (reserveNode T st leaf).bind (popitem st)

/-- `replace_with_inactive` over the sorted terminated active ranks: the tree
and the ranks that were replaced. -/
def replaceWithInactive (st : TreeState) : List Nat → TreeState × List Nat
  | [] => (st, [])
  | rank :: rest =>
    match findSpare T st (st.leafOf rank) with
    | none => replaceWithInactive st rest
    | some (spare, popped) =>
      let next :=
        replaceWithInactive (activate T popped spare (st.activeRankOf (st.leafOf rank))) rest
      (next.1, rank :: next.2)

/-! ## Backfill -/

/-- `heapq.nlargest(count, active leaves of the domain, key=active_rank)` -/
def largestActive (st : TreeState) (domain : NodePath) (count : Nat) : List Nat :=
  (((T.leavesAt domain).filter fun leaf => (st.leaf leaf).mode = .active).insertionSort
    fun a b => st.activeRankOf b ≤ st.activeRankOf a).take count

/-- The loop over `zip_longest(backfill nodes, terminated nodes)`: each backfill
node takes the active rank of its terminated node; `replaced` collects the active
ranks that nobody holds afterwards. -/
def backfillNodes (st : TreeState) (replaced : List Nat) :
    List Nat → List Nat → TreeState × List Nat
  | _, [] => (st, replaced)
  | [], terminated :: rest =>
    backfillNodes st (replaced.insert (st.activeRankOf terminated)) [] rest
  | backfill :: nodes, terminated :: rest =>
    backfillNodes
      (st.modifyLeaf backfill fun s =>
        { s with activeRank := some (st.activeRankOf terminated) })
      (replaced.insert (st.activeRankOf backfill)) nodes rest

/-- `backfill_domains`: the terminated nodes of each domain, in order. -/
def backfillDomains (nodes : List Nat) : Dict NodePath (List Nat) :=
  nodes.foldl (fun domains leaf =>
    match T.backfillDomain leaf with
    | none => domains
    | some domain => domains.alter domain [] fun leaves => leaves ++ [leaf]) .empty

/-- The backfill of one domain. -/
def backfillDomainStep (walk : TreeState × List Nat) (domain : NodePath × List Nat) :
    TreeState × List Nat :=
  backfillNodes walk.1 walk.2
    (largestActive T walk.1 domain.1 domain.2.length).reverse domain.2

/-- `replace_with_backfill`: nodes without a domain leave their active rank
vacant, as if their domain had no active leaf. -/
def replaceWithBackfill (st : TreeState) (unhandledTerminations : List Nat) :
    TreeState × List Nat :=
  let nodes := (unhandledTerminations.insertionSort (· ≤ ·)).map st.leafOf
  let undomained := nodes.filter fun leaf => T.backfillDomain leaf = none
  (backfillDomains T nodes).entries.foldl (backfillDomainStep T)
    (backfillNodes st [] [] undomained)

/-! ## Shift and filter -/

/-- `bisect.bisect_left` on a sorted list. -/
def bisectLeft (sorted : List Nat) (x : Nat) : Nat :=
  (sorted.takeWhile fun y => y < x).length

/-- `shift_ranks` -/
def shiftRanks (st : TreeState) (replacedActive unhandledTerminations : List Nat) : TreeState :=
  let sortedReplacedActive := replacedActive.insertionSort (· ≤ ·)
  st.modifyRankMap fun s =>
    { s with
      activeWorldSize := s.activeWorldSize.map fun n => n - unhandledTerminations.length
      activeRank := s.activeRank.map fun r => r - bisectLeft sortedReplacedActive r }

/-- What `filter_active_world_size` does at a leaf. -/
def filterLeaf (newActiveWorldSize : Int) (st : TreeState) (leaf : Nat) : TreeState :=
  let st := st.modifyLeaf leaf fun s => { s with activeWorldSize := some newActiveWorldSize }
  if (st.leaf leaf).mode = .active ∧ newActiveWorldSize ≤ (st.activeRankOf leaf : Int) then
    deactivate T st leaf
  else st

/-- `filter_active_world_size` -/
def filterActiveWorldSize (filter : WorldSizeFilter) (st : TreeState) : TreeState :=
  let activeWorldSize := (st.leaf (st.rankMap.headD 0)).activeWorldSize.getD 0
  T.leaves.foldl (filterLeaf T (filter.apply activeWorldSize)) st

/-! ## Ranks -/

/-- `update_tree` -/
def updateTree (st : TreeState) (worldSize : Int) (terminatedRanks : List Nat) : TreeState :=
  let terminated := terminatedRanks.map st.leafOf
  { st with
    leaf := fun leaf =>
      let s := st.leaf leaf
      let s := if leaf ∈ T.leaves then { s with worldSize := worldSize - terminatedRanks.length }
        else s
      if leaf ∈ terminated then { s with rank := none, activeRank := none } else s }

/-- The leaves, healthy ones first: a stable sort by `mode == TERMINATED`. -/
def sortedLeaves (st : TreeState) : List Nat :=
  (T.leaves.filter fun leaf => (st.leaf leaf).mode ≠ .terminated) ++
    T.leaves.filter fun leaf => (st.leaf leaf).mode = .terminated

/-- `recompute_rank` -/
def recomputeRank (st : TreeState) : TreeState :=
  { st with
    leaf := fun leaf =>
      if leaf ∈ sortedLeaves T st then
        { st.leaf leaf with rank := some ((sortedLeaves T st).idxOf leaf) }
      else st.leaf leaf
    rankMap := sortedLeaves T st }

/-! ## A call -/

/-- The tree after reserve replacement, with the ranks left unhandled. -/
def replaced (st : TreeState) (terminatedRanks : List Nat) : TreeState × List Nat :=
  let terminatedActiveRanks :=
    terminatedRanks.filter fun rank => (st.leaf (st.leafOf rank)).mode = .active
  let next := replaceWithInactive T (terminateRanks T st terminatedRanks)
    (terminatedActiveRanks.insertionSort (· ≤ ·))
  (next.1, terminatedActiveRanks.filter fun rank => rank ∉ next.2)

/-- The tree after backfill and shift, which run only for unhandled ranks. -/
def shifted (st : TreeState) (unhandledTerminations : List Nat) : TreeState :=
  if unhandledTerminations ≠ [] then
    let next := replaceWithBackfill T st unhandledTerminations
    shiftRanks next.1 next.2 unhandledTerminations
  else st

/-- The tree after the optional filter. -/
def filtered (filter : Option WorldSizeFilter) (st : TreeState) : TreeState :=
  match filter with
  | none => st
  | some filter => filterActiveWorldSize T filter st

/-- `Tree.__call__` on a built tree, with `ctx.state.world_size`. -/
def callTree (filter : Option WorldSizeFilter) (st : TreeState) (worldSize : Int)
    (terminatedRanks : List Nat) : TreeState :=
  let terminatedRanks := propagateTerminations T st terminatedRanks
  let next := replaced T st terminatedRanks
  let st := filtered T filter (shifted T next.1 next.2)
  recomputeRank T (updateTree T st worldSize terminatedRanks)

end Phases

end ResiliencyExt.Inprocess
