import Mathlib.Data.List.Sort
import ResiliencyExt.Foundation.GreedyMatching

set_option autoImplicit false

/-!
# Health checks: the NIC of a GPU

`NicHealthCheck._get_gpu_ib_mapping`.  Every GPU and every NIC has a place in the PCI tree, which
is read from the system or from a topology file.  The pairs with a common ancestor are matched
greedily, the closest first, and a GPU that is left over shares a NIC.

What the system answers is a parameter: the ancestors of a PCI device, and what the topology file
says.
-/

namespace ResiliencyExt.HealthCheck

open Foundation List

/-- A GPU, a NIC and their distance. -/
abbrev Assignment :=
  WeightedPair Nat String

/-- Where the topology is read from. -/
inductive Topology where
  /-- `get_pci_ancestor`, from the device up to the root. -/
  | system (getPciAncestor : String → List String)
  /-- `_parse_topo_file`, the children of every bridge. -/
  | file (topoMap : Dict String (List String))

/-- The hops of both paths to the first common ancestor. -/
def commonDepth (gpuAncestors nicAncestors : List String) : Option Nat :=
  match gpuAncestors.find? fun node => node ∈ nicAncestors with
  | none => none
  | some node =>
    if node = "" then none
    else some (gpuAncestors.idxOf node + nicAncestors.idxOf node)

/-- The bridge of a device; of several it is the last one. -/
def parentOf (topoMap : Dict String (List String)) (device : String) : Option String :=
  ((topoMap.entries.flatMap fun e => e.2.map fun dev => (dev, e.1)).foldl
    (fun parents e => parents.set e.1 e.2) Dict.empty).get? device

/-- The distance of a GPU and a NIC, if they can be assigned to each other. -/
def Topology.depth (topology : Topology) (gpuPci ibPci : String) : Option Nat :=
  match topology with
  | .system getPciAncestor => commonDepth (getPciAncestor gpuPci) (getPciAncestor ibPci)
  | .file topoMap =>
    match parentOf topoMap gpuPci with
    | none => none
    | some parent =>
      if parent ≠ "" ∧ ibPci ∈ (topoMap.get? parent).getD [] then some 0 else none

section Mapping

variable (gpuPciMap : Dict Nat String) (ibPciMap : Dict String String)

/-- The loops over the GPUs and the NICs. -/
def assignmentsBy (depth : String → String → Option Nat) : List Assignment :=
  gpuPciMap.entries.flatMap fun gpu => ibPciMap.entries.filterMap fun ib =>
    (depth gpu.2 ib.2).map fun d => ⟨gpu.1, ib.1, d⟩

/-- `_get_gpu_ib_assignments_from_system` sorts by depth, `_get_gpu_ib_assignments_from_topo` has
no need to. -/
def assignments (topology : Topology) : List Assignment :=
  match topology with
  | .system _ =>
    (assignmentsBy gpuPciMap ibPciMap topology.depth).mergeSort fun a b => a.cost ≤ b.cost
  | .file _ => assignmentsBy gpuPciMap ibPciMap topology.depth

/-- `get_gb200_static_mapping` -/
def gb200StaticMapping : Dict Nat String where
  entries := [(0, "mlx5_0"), (1, "mlx5_1"), (2, "mlx5_3"), (3, "mlx5_4")]
  nodup := by decide

/-- `_get_gpu_ib_mapping` -/
def getGpuIbMapping (topology : Topology) (isGb200Platform : Bool) : Dict Nat String :=
  let gpuIbMap := GreedyMatching.greedy (assignments gpuPciMap ibPciMap topology)
  if gpuIbMap.entries = [] ∧ isGb200Platform then gb200StaticMapping else gpuIbMap

/-- A GPU and a NIC at a depth that the topology gives them. -/
def Candidate (topology : Topology) (gpuRank : Nat) (ibDev : String) (depth : Nat) : Prop :=
  ∃ gpuPci ibPci, gpuPciMap.get? gpuRank = some gpuPci ∧ ibPciMap.get? ibDev = some ibPci ∧
    topology.depth gpuPci ibPci = some depth

variable {gpuPciMap ibPciMap} {topology : Topology}

/-! ## The assignments -/

theorem mem_assignmentsBy {depth : String → String → Option Nat} {a : Assignment} :
    a ∈ assignmentsBy gpuPciMap ibPciMap depth ↔
      ∃ gpuPci ibPci, gpuPciMap.get? a.left = some gpuPci ∧ ibPciMap.get? a.right = some ibPci ∧
        depth gpuPci ibPci = some a.cost := by
  unfold assignmentsBy
  rw [mem_flatMap]
  constructor
  · rintro ⟨gpu, hgpu, ha⟩
    obtain ⟨ib, hib, hdepth⟩ := mem_filterMap.mp ha
    obtain ⟨d, hd, rfl⟩ := Option.map_eq_some_iff.mp hdepth
    exact ⟨gpu.2, ib.2, Dict.get?_eq_some_of_mem hgpu, Dict.get?_eq_some_of_mem hib, hd⟩
  · rintro ⟨gpuPci, ibPci, hgpu, hib, hdepth⟩
    refine ⟨(a.left, gpuPci), Dict.mem_of_get?_eq_some hgpu, mem_filterMap.mpr
      ⟨(a.right, ibPci), Dict.mem_of_get?_eq_some hib, ?_⟩⟩
    rw [hdepth]
    rfl

theorem mem_assignments {a : Assignment} :
    a ∈ assignments gpuPciMap ibPciMap topology ↔
      Candidate gpuPciMap ibPciMap topology a.left a.right a.cost := by
  unfold assignments Candidate
  cases topology with
  | system getPciAncestor => rw [mem_mergeSort, mem_assignmentsBy]
  | file topoMap => exact mem_assignmentsBy

/-- All assignments of a topology file have the same depth. -/
theorem depth_file {topoMap : Dict String (List String)} {gpuPci ibPci : String} {d : Nat}
    (h : (Topology.file topoMap).depth gpuPci ibPci = some d) : d = 0 := by
  unfold Topology.depth at h
  dsimp only at h
  split at h
  · cases h
  · split at h
    · exact (Option.some.inj h).symm
    · cases h

theorem pairwise_assignments :
    (assignments gpuPciMap ibPciMap topology).Pairwise fun a b => a.cost ≤ b.cost := by
  cases topology with
  | system getPciAncestor =>
    have hsorted := @pairwise_mergeSort Assignment (fun a b => decide (a.cost ≤ b.cost))
      (fun a b c => by simpa using Nat.le_trans) (fun a b => by simpa using Nat.le_total _ _)
      (assignmentsBy gpuPciMap ibPciMap (Topology.system getPciAncestor).depth)
    exact hsorted.imp of_decide_eq_true
  | file topoMap =>
    refine pairwise_of_forall_mem_list fun a ha b hb => ?_
    obtain ⟨_, _, _, _, hdepth⟩ := mem_assignmentsBy.mp ha
    rw [depth_file hdepth]
    exact Nat.zero_le _

/-! ## The mapping -/

/-- No NIC of the static mapping has two GPUs. -/
theorem gb200StaticMapping_injective {a b : Nat} {dev : String}
    (ha : gb200StaticMapping.get? a = some dev) (hb : gb200StaticMapping.get? b = some dev) :
    a = b := by
  have hmem : ∀ {k : Nat}, gb200StaticMapping.get? k = some dev →
      (k, dev) ∈ [(0, "mlx5_0"), (1, "mlx5_1"), (2, "mlx5_3"), (3, "mlx5_4")] :=
    fun h => Dict.mem_of_get?_eq_some h
  have ha := hmem ha
  have hb := hmem hb
  simp only [mem_cons, Prod.mk.injEq, not_mem_nil, or_false] at ha hb
  rcases ha with ⟨rfl, rfl⟩ | ⟨rfl, rfl⟩ | ⟨rfl, rfl⟩ | ⟨rfl, rfl⟩ <;> simp at hb <;> exact hb.symm

/-- Whatever the topology, the mapping is complete and stable, and a NIC is shared only by a GPU
that has no free candidate. -/
theorem getGpuIbMapping_stable (gpuPciMap : Dict Nat String) (ibPciMap : Dict String String)
    (topology : Topology) (isGb200Platform : Bool) :
    GreedyMatching.Stable (Candidate gpuPciMap ibPciMap topology)
      (getGpuIbMapping gpuPciMap ibPciMap topology isGb200Platform) := by
  have hgreedy := GreedyMatching.stable_greedy
    (@pairwise_assignments gpuPciMap ibPciMap topology)
  have hcandidate : (fun a b cost =>
      (⟨a, b, cost⟩ : Assignment) ∈ assignments gpuPciMap ibPciMap topology) =
        Candidate gpuPciMap ibPciMap topology := by
    funext a b cost
    exact propext mem_assignments
  rw [hcandidate] at hgreedy
  unfold getGpuIbMapping
  dsimp only
  split
  · next hempty =>
    -- the greedy mapping is empty, so that no GPU has a candidate
    have hnone : ∀ a b cost, ¬ Candidate gpuPciMap ibPciMap topology a b cost := by
      intro a b cost hmem
      obtain ⟨partner, _, hget, _⟩ := hgreedy.complete a b cost hmem
      have hentry := Dict.mem_of_get?_eq_some hget
      rw [hempty.1] at hentry
      cases hentry
    refine ⟨fun a b cost h => absurd h (hnone a b cost), fun a b cost h =>
      absurd h (hnone a b cost), fun a a' b hearlier ha ha' => ?_⟩
    rw [gb200StaticMapping_injective ha ha'] at hearlier
    exact absurd hearlier (Nat.lt_irrefl _)
  · exact hgreedy

end Mapping

end ResiliencyExt.HealthCheck
