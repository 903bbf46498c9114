import Mathlib.Data.Fintype.Basic
import ResiliencyExt.Foundation.System

set_option autoImplicit false

/-!
# Planning a save, with and without the metadata cache

`save_state_dict_async_plan` runs on all ranks.  Between its collective operations a
rank acts on its own, so its planning is a program whose steps are collectives, and a
save goes on only when all ranks have come to the same collective.

The functions of the planner and of `FileSystemWriter` are parameters: they are not part of
the repository.
-/

namespace ResiliencyExt.Checkpointing.AsyncCkpt

open Foundation

/-- A `SavePlan`: `storage_data`, and all other fields. -/
structure SavePlan (Content StorageData : Type) where
  content : Content
  storageData : Option StorageData
  deriving DecidableEq, Repr

/-- A `Metadata`, with the attribute `all_local_plans` if it has it. -/
structure Metadata (Content StorageData Body : Type) where
  body : Body
  allLocalPlans : Option (List (SavePlan Content StorageData))
  deriving DecidableEq, Repr

/-- The planner and the storage writer of `n` ranks. -/
structure PlanSetup (n : Nat) (StateDict Content StorageData Body : Type) where
  coordinator : Fin n
  /-- Both `can_run_decentralized_global_plan`. -/
  decentralized : Bool
  createLocalPlan : Fin n → StateDict → SavePlan Content StorageData
  createGlobalPlan : (Fin n → SavePlan Content StorageData) →
    (Fin n → SavePlan Content StorageData) × Metadata Content StorageData Body
  createDecentralizedGlobalPlan : Fin n → SavePlan Content StorageData →
    SavePlan Content StorageData
  finishPlan : Fin n → SavePlan Content StorageData → SavePlan Content StorageData
  prepareGlobalPlan : (Fin n → SavePlan Content StorageData) →
    Fin n → SavePlan Content StorageData
  /-- `_StoragePrefix(f"__{rank}_")` -/
  storagePrefix : Fin n → StorageData

/-! ## The cache of a rank -/

section Cache

variable (Content StorageData Body : Type)

/-- What `set_cache_metadata` sets together. -/
structure CachedPlans where
  centralPlan : SavePlan Content StorageData
  localPlan : SavePlan Content StorageData
  validatedCacheReuse : Bool
  deriving DecidableEq, Repr

/-- `CheckpointMetadataCache` -/
structure MetadataCache where
  cachedPlans : Option (CachedPlans Content StorageData)
  cachedGlobalMetadata : Option (Metadata Content StorageData Body)
  validatedLoadedMetadataReuse : Bool
  loadedAllPlans : Option (List (SavePlan Content StorageData))
  deriving DecidableEq, Repr

end Cache

variable {n : Nat} {StateDict Content StorageData Body : Type}

namespace MetadataCache

/-- `CheckpointMetadataCache()` -/
def empty : MetadataCache Content StorageData Body :=
  ⟨none, none, false, none⟩

/-- `set_cached_global_metadata` -/
def setCachedGlobalMetadata (cache : MetadataCache Content StorageData Body)
    (metadata : Option (Metadata Content StorageData Body)) :
    MetadataCache Content StorageData Body :=
  { cache with
    cachedGlobalMetadata := metadata
    loadedAllPlans := metadata.bind Metadata.allLocalPlans }

variable [DecidableEq Content] [DecidableEq StorageData]

/-- `set_cache_metadata` -/
def setCacheMetadata (cache : MetadataCache Content StorageData Body)
    (centralPlan localPlan : SavePlan Content StorageData) (globalMdVerifyReuse : Bool) :
    MetadataCache Content StorageData Body :=
  { cache with
    validatedLoadedMetadataReuse := globalMdVerifyReuse
    cachedPlans := some ⟨centralPlan, localPlan,
      cache.cachedPlans.map CachedPlans.centralPlan = some centralPlan⟩ }

/-- `bool(loaded_all_plans)` -/
def hasLoadedPlans (cache : MetadataCache Content StorageData Body) : Bool :=
  match cache.loadedAllPlans with
  | none | some [] => false
  | some (_ :: _) => true

/-- `validated_cache_reuse` -/
def validated (cache : MetadataCache Content StorageData Body) : Bool :=
  cache.cachedPlans.any CachedPlans.validatedCacheReuse

/-- `prepare_save_state_dict_ret`: the cache, and the global metadata that is returned. -/
def prepareSaveStateDictRet (cache : MetadataCache Content StorageData Body) (isCoordinator : Bool)
    (globalMetadata : Option (Metadata Content StorageData Body)) :
    MetadataCache Content StorageData Body × Option (Metadata Content StorageData Body) :=
  if cache.hasLoadedPlans && cache.cachedGlobalMetadata.isSome &&
      cache.validatedLoadedMetadataReuse then
    (cache, if isCoordinator then cache.cachedGlobalMetadata else globalMetadata)
  else if cache.validated then
    if globalMetadata.isSome then
      ({ cache with cachedGlobalMetadata := globalMetadata }, globalMetadata)
    else (cache, if isCoordinator then cache.cachedGlobalMetadata else globalMetadata)
  else (cache, globalMetadata)

end MetadataCache

/-! ## Planning of a rank -/

/-- What planning comes to on one rank. -/
structure Planned (Content StorageData Body : Type) where
  /-- The plan that is given to `prepare_write_data`. -/
  centralPlan : SavePlan Content StorageData
  localPlan : SavePlan Content StorageData
  globalMetadata : Option (Metadata Content StorageData Body)
  globalMdVerifyReuse : Bool
  deriving DecidableEq, Repr

inductive Collective where
  | allReduce
  | gatherObject
  | reduceScatter
  deriving DecidableEq, Repr

/-- The planning of one rank from where it stands. -/
inductive Planning (n : Nat) (Content StorageData Body : Type) where
  | planned (result : Planned Content StorageData Body)
  | allReduce (localVerifyReuse : Bool) (next : Bool → Planning n Content StorageData Body)
  | gatherObject (localPlan : SavePlan Content StorageData)
      (next : Option (Fin n → SavePlan Content StorageData) →
        Planning n Content StorageData Body)
  | reduceScatter (localPlan : SavePlan Content StorageData)
      (next : SavePlan Content StorageData → Option (Metadata Content StorageData Body) →
        Planning n Content StorageData Body)

/-- The collective that the rank enters next. -/
def Planning.enters : Planning n Content StorageData Body → Option Collective
  | .planned _ => none
  | .allReduce _ _ => some .allReduce
  | .gatherObject _ _ => some .gatherObject
  | .reduceScatter _ _ => some .reduceScatter

/-- What a rank that waits for no other has planned. -/
def Planning.result : Planning n Content StorageData Body →
    Option (Planned Content StorageData Body)
  | .planned result => some result
  | _ => none

/-- `prepare_local_plan`, which makes the directory of the checkpoint. -/
def prepareLocalPlan (localPlan : SavePlan Content StorageData) :
    SavePlan Content StorageData :=
  localPlan

namespace PlanSetup

variable (P : PlanSetup n StateDict Content StorageData Body)

/-- `prepare_decentralized_global_plan` -/
def prepareDecentralizedGlobalPlan (r : Fin n) (localPlan : SavePlan Content StorageData) :
    SavePlan Content StorageData :=
  { localPlan with storageData := some (P.storagePrefix r) }

/-- `verify_global_md_reuse`, and what follows it. -/
def verifyGlobalMdReuse [DecidableEq Content]
    (loadedAllPlans : Option (List (SavePlan Content StorageData)))
    (localPlan : SavePlan Content StorageData) (r : Fin n)
    (next : Bool → Planning n Content StorageData Body) : Planning n Content StorageData Body :=
  match loadedAllPlans with
  | none | some [] => next false
  | some (first :: rest) =>
    if h : (first :: rest).length = n then
      .allReduce (localPlan.content = ((first :: rest).get (r.cast h.symm)).content) next
    else next false

/-- The end of the decentralized planning. -/
def planDecentralized (r : Fin n) (localPlan : SavePlan Content StorageData)
    (globalMetadata : Option (Metadata Content StorageData Body)) (globalMdVerifyReuse : Bool) :
    Planning n Content StorageData Body :=
  let localPlan := P.prepareDecentralizedGlobalPlan r (P.createDecentralizedGlobalPlan r localPlan)
  .planned ⟨P.finishPlan r localPlan, localPlan, globalMetadata, globalMdVerifyReuse⟩

/-- The metadata that the coordinator makes of the gathered plans. -/
def gatheredMetadata (allLocalPlans : Fin n → SavePlan Content StorageData) :
    Metadata Content StorageData Body :=
  { (P.createGlobalPlan allLocalPlans).2 with allLocalPlans := some (List.ofFn allLocalPlans) }

variable [DecidableEq Content]

/-- The planning of `save_state_dict_async_plan` on rank `r`; without a cache nothing is
cached. -/
def planning (cache : Option (MetadataCache Content StorageData Body)) (r : Fin n)
    (stateDict : StateDict) : Planning n Content StorageData Body :=
  match cache.bind MetadataCache.cachedPlans with
  | some ⟨centralPlan, localPlan, true⟩ =>
    .planned ⟨P.finishPlan r centralPlan, prepareLocalPlan localPlan, none, false⟩
  | some ⟨_, cachedLocalPlan, false⟩ => go cachedLocalPlan
  | none => go (P.createLocalPlan r stateDict)
where
  /-- The planning from the local plan of the planner. -/
  go (localPlan : SavePlan Content StorageData) : Planning n Content StorageData Body :=
    let localPlan := prepareLocalPlan localPlan
    let loadedAllPlans := cache.bind MetadataCache.loadedAllPlans
    if P.decentralized then
      verifyGlobalMdReuse loadedAllPlans localPlan r fun globalMdVerifyReuse =>
        if globalMdVerifyReuse then P.planDecentralized r localPlan none globalMdVerifyReuse
        else .gatherObject localPlan fun allLocalPlans =>
          P.planDecentralized r localPlan (allLocalPlans.map P.gatheredMetadata)
            globalMdVerifyReuse
    else .reduceScatter localPlan fun centralPlan globalMetadata =>
      .planned ⟨P.finishPlan r centralPlan, localPlan, globalMetadata, false⟩

end PlanSetup

/-! ## All ranks together -/

/-- The answers of all ranks, if all of them have one. -/
def together {α : Type} (answers : Fin n → Option α) : Option (Fin n → α) :=
  if h : ∀ r, (answers r).isSome then some fun r => (answers r).get (h r) else none

theorem together_some {α : Type} (answers : Fin n → α) :
    together (fun r => some (answers r)) = some answers := by
  simp [together]

theorem together_eq_none {α : Type} {answers : Fin n → Option α} {r : Fin n}
    (h : answers r = none) : together answers = none := by
  refine dif_neg fun hall => ?_
  have hsome := hall r
  rw [h] at hsome
  cases hsome

namespace PlanSetup

variable (P : PlanSetup n StateDict Content StorageData Body)

/-- One collective, when all ranks have entered it. -/
def collective (planning : Fin n → Planning n Content StorageData Body) :
    Option (Fin n → Planning n Content StorageData Body) :=
  match planning P.coordinator with
  | .planned _ => none
  | .allReduce _ _ =>
    (together fun r => match planning r with
      | .allReduce localVerifyReuse next => some (localVerifyReuse, next)
      | _ => none).map fun calls r => (calls r).2 (decide (∀ q, (calls q).1 = true))
  | .gatherObject _ _ =>
    (together fun r => match planning r with
      | .gatherObject localPlan next => some (localPlan, next)
      | _ => none).map fun calls r =>
        (calls r).2 (if r = P.coordinator then some fun q => (calls q).1 else none)
  | .reduceScatter _ _ =>
    (together fun r => match planning r with
      | .reduceScatter localPlan next => some (localPlan, next)
      | _ => none).map fun calls =>
        let globalPlan := P.createGlobalPlan fun q => (calls q).1
        let allLocalPlans := P.prepareGlobalPlan globalPlan.1
        fun r => (calls r).2 (allLocalPlans r)
          (if r = P.coordinator then some globalPlan.2 else none)

/-- The planning of all ranks to its end, with the collectives that each rank enters.  It has
no result when some rank waits in a collective that another one does not enter. -/
def plan : Nat → (Fin n → Planning n Content StorageData Body) →
    Option ((Fin n → Planned Content StorageData Body) × (Fin n → List Collective))
  | fuel, planning =>
    match together fun r => (planning r).result with
    | some results => some (results, fun _ => [])
    | none =>
      match fuel with
      | 0 => none
      | fuel + 1 => (P.collective planning).bind fun next => (plan fuel next).map fun results =>
        (results.1, fun r => (planning r).enters.toList ++ results.2 r)

end PlanSetup

/-! ## Saves in a row -/

/-- What a save has come to: the plans given to `prepare_write_data`, and the metadata that is
returned on the coordinator. -/
structure SaveRecord (n : Nat) (StateDict Content StorageData Body : Type) where
  stateDicts : Fin n → StateDict
  centralPlans : Fin n → SavePlan Content StorageData
  globalMetadata : Option (Metadata Content StorageData Body)
  entered : Fin n → List Collective

structure PlanningState (n : Nat) (StateDict Content StorageData Body : Type) where
  /-- `_checkpoint_metadata_cache` of each rank. -/
  caches : Fin n → Option (MetadataCache Content StorageData Body)
  saves : List (SaveRecord n StateDict Content StorageData Body)

inductive PlanningEvent (n : Nat) (StateDict Content StorageData Body : Type) where
  | init (cachedGlobalMetadata : Option (Metadata Content StorageData Body))
  /-- `save_state_dict_async_plan` with `enable_cache=True` -/
  | save (stateDicts : Fin n → StateDict)

/-- `init_checkpoint_metadata_cache` on all ranks. -/
def PlanningState.initCheckpointMetadataCache
    (s : PlanningState n StateDict Content StorageData Body)
    (cachedGlobalMetadata : Option (Metadata Content StorageData Body)) :
    PlanningState n StateDict Content StorageData Body :=
  { s with caches := fun r => some (((s.caches r).getD .empty).setCachedGlobalMetadata
      cachedGlobalMetadata) }

namespace PlanSetup

variable (P : PlanSetup n StateDict Content StorageData Body)
  [DecidableEq Content] [DecidableEq StorageData]

/-- The cache of a rank after a save, and the global metadata that the rank returns. -/
def updateCache (cache : Option (MetadataCache Content StorageData Body)) (r : Fin n)
    (result : Planned Content StorageData Body) :
    Option (MetadataCache Content StorageData Body) ×
      Option (Metadata Content StorageData Body) :=
  match cache with
  | none => (none, result.globalMetadata)
  | some cache =>
    let updated := (cache.setCacheMetadata result.centralPlan result.localPlan
      result.globalMdVerifyReuse).prepareSaveStateDictRet (r = P.coordinator)
        result.globalMetadata
    (some updated.1, updated.2)

/-- One save; three collectives are more than any save has. -/
def save (s : PlanningState n StateDict Content StorageData Body)
    (stateDicts : Fin n → StateDict) :
    Option (PlanningState n StateDict Content StorageData Body) :=
  (P.plan 3 fun r => P.planning (s.caches r) r (stateDicts r)).map fun results =>
    { caches := fun r => (P.updateCache (s.caches r) r (results.1 r)).1
      saves := s.saves ++ [{
        stateDicts := stateDicts
        centralPlans := fun r => (results.1 r).centralPlan
        globalMetadata := (P.updateCache (s.caches P.coordinator) P.coordinator
          (results.1 P.coordinator)).2
        entered := results.2 }] }

def system : System (PlanningState n StateDict Content StorageData Body)
    (PlanningEvent n StateDict Content StorageData Body) where
  init s := s = ⟨fun _ => none, []⟩
  step s
    | .init cachedGlobalMetadata => some (s.initCheckpointMetadataCache cachedGlobalMetadata)
    | .save stateDicts => P.save s stateDicts

end PlanSetup

end ResiliencyExt.Checkpointing.AsyncCkpt
