import ResiliencyExt.Checkpointing.AsyncCkpt.WriteBuckets
import ResiliencyExt.Foundation.System

set_option autoImplicit false

/-!
# The tensor caches of the trainer and of the worker

With `use_cached_data_structure` the worker keeps the GPU tensors of a save, and the trainer
keeps a record of what the worker has.  A later save with the same key then sends no tensors.
The trainer decides this in `prepare_write_data`, which comes before `schedule_async_call`,
and it is in `schedule_async_call` that a worker is started and the record is cleared.

A storage is known by what `_compute_tensor_data_ptrs` says of a tensor.  The key is the list
that the code hashes.
-/

namespace ResiliencyExt.Checkpointing.AsyncCkpt

open Foundation

/-! ## Tensors -/

inductive Device where
  | cpu
  | cuda (index : Nat)
  deriving DecidableEq, Repr

/-- `tensor_info` -/
structure TensorInfo where
  device : Device
  dataPtr : Nat
  storagePtr : Nat
  storageOffset : Nat
  size : List Nat
  stride : List Nat
  dtype : String
  deriving DecidableEq, Repr

structure Tensor where
  info : TensorInfo
  /-- `"dequantize" in type(ten).__dict__` -/
  quantized : Bool
  deriving DecidableEq, Repr

/-- What the trainer passes for an item. -/
inductive Staged where
  /-- A handle to the storage of a GPU tensor. -/
  | ipc (tensor : Tensor)
  /-- The values of a tensor that is on the CPU, or has been dequantized. -/
  | values (tensor : Tensor)
  /-- A tensor in shared memory. -/
  | shm (index : Nat)
  | bytes (contents : List UInt8)
  deriving DecidableEq, Repr

/-- Items and their data, as two lists. -/
abbrev TensorData : Type :=
  List WriteItem × List Staged

/-- The tensor whose data is read through `data`. -/
def Staged.tensor (shm : Nat → Option Tensor) : Staged → Option Tensor
  | .ipc tensor | .values tensor => some tensor
  | .shm index => shm index
  | .bytes _ => none

/-! ## Saves -/

/-- The bins of `preload_tensors`. -/
def binsOf (separationHint : Option String) (threadCount : Nat) : Nat :=
  if separationHint.isSome then threadCount / 2 else threadCount

/-- A call of `prepare_write_data`: the writer, the plan, and the planner. -/
structure Save where
  useCachedDataStructure : Bool
  useCpuShm : Bool
  separationHint : Option String
  threadCount : Nat
  plan : List WriteItem
  /-- `planner.resolve_data` of a tensor. -/
  tensor : WriteItem → Tensor
  bytes : WriteItem → List UInt8
  bins_pos : 0 < binsOf separationHint threadCount

abbrev StructureKey : Type :=
  List ((String × WriteItemType) × Option (List Nat × String))

instance (key : StructureKey) (keys : List StructureKey) : Decidable (key ∈ keys) :=
  List.instDecidableMemOfLawfulBEq key keys

/-- `_compute_data_structure_key_from_plan` -/
def dataStructureKey (items : List WriteItem) : StructureKey :=
  items.map fun item => ((item.fqn, item.type),
    item.tensorData.map fun tensorData => (tensorData.chunk.sizes, tensorData.dtype.name))

abbrev DataPtrs : Type :=
  List (String × Option Chunk × TensorInfo)

/-- `_compute_tensor_data_ptrs` -/
def tensorDataPtrs (items : List WriteItem) (tensors : List Tensor) : DataPtrs :=
  (items.zip tensors).map fun e => (e.1.fqn, e.1.chunk, e.2.info)

namespace Save

variable (save : Save)

def tensorItems : List WriteItem :=
  save.plan.filter fun item => !item.isBytes

def byteIoItems : List WriteItem :=
  save.plan.filter WriteItem.isBytes

/-- `separate_cacheable`: the item is not for the cache. -/
def uncached (item : WriteItem) : Bool :=
  match (save.tensor item).info.device with
  | .cpu => true
  | .cuda _ => (save.tensor item).quantized && !save.useCpuShm

def gpuItems : List WriteItem :=
  save.tensorItems.filter fun item => !save.uncached item

def uncachedItems : List WriteItem :=
  save.tensorItems.filter save.uncached

def gpuData : List Tensor :=
  save.gpuItems.map save.tensor

def key : StructureKey :=
  dataStructureKey save.tensorItems

/-- The condition of the first branch of `prepare_write_data`. -/
def mayCache : Bool :=
  (save.useCachedDataStructure || save.useCpuShm) && !save.tensorItems.isEmpty

def onShmPath : Bool :=
  !save.gpuItems.isEmpty && save.useCpuShm

/-- What is never cached. -/
def uncachedTensorData : Option TensorData :=
  if save.uncachedItems.isEmpty then none
  else some (save.uncachedItems, save.uncachedItems.map fun item => .values (save.tensor item))

def byteIoData : Option TensorData :=
  if save.byteIoItems.isEmpty then none
  else some (save.byteIoItems, save.byteIoItems.map fun item => .bytes (save.bytes item))

end Save

/-- `data_to_pass` -/
structure DataToPass where
  identifier : Option StructureKey
  separationHint : Option String
  cachedTensorData : Option TensorData
  uncachedTensorData : Option TensorData
  byteIoData : Option TensorData
  threadCount : Nat

/-! ## The trainer -/

/-- The class-level caches of `FileSystemWriterAsync`, and the tensors in shared memory. -/
structure TrainerCaches where
  cachedIdentifiers : List StructureKey
  cachedTensorDataPtrs : Dict StructureKey DataPtrs
  shmTensorCache : Dict StructureKey (List WriteItem × List Nat)
  /-- The tensor that was copied last to each of them. -/
  shm : Nat → Option Tensor
  allocated : Nat

/-- `shm_t.copy_(gpu_t)` for each of them. -/
def copyToShm (shm : Nat → Option Tensor) (shmTensors : List Nat) (gpuData : List Tensor) :
    Nat → Option Tensor :=
  (shmTensors.zip gpuData).foldl (fun shm e i => if i = e.1 then some e.2 else shm i) shm

namespace TrainerCaches

/-- `cleanup_tensor_caches` -/
def cleanupTensorCaches (caches : TrainerCaches) : TrainerCaches :=
  { caches with cachedIdentifiers := [], cachedTensorDataPtrs := .empty, shmTensorCache := .empty }

/-- What `retrieve_write_results` does after a failure in the worker. -/
def discard (caches : TrainerCaches) (key : StructureKey) : TrainerCaches :=
  { caches with
    cachedIdentifiers := caches.cachedIdentifiers.filter fun k => k ≠ key
    cachedTensorDataPtrs := caches.cachedTensorDataPtrs.erase key }

/-- The tensors in shared memory, with the current values.  Before those of the cache are
used again, the drain finalizes saves, of which those with the keys in `failed` have failed. -/
def shmTensors (caches : TrainerCaches) (save : Save) (failed : List StructureKey) :
    TrainerCaches × List Nat :=
  match if save.useCachedDataStructure then caches.shmTensorCache.get? save.key else none with
  | some cached =>
    let drained := failed.foldl discard caches
    ({ drained with shm := copyToShm drained.shm cached.2 save.gpuData }, cached.2)
  | none =>
    let shmTensors := List.range' caches.allocated save.gpuItems.length
    ({ caches with
      shm := copyToShm caches.shm shmTensors save.gpuData
      allocated := caches.allocated + save.gpuItems.length
      shmTensorCache :=
        if save.useCachedDataStructure then
          caches.shmTensorCache.set save.key (save.gpuItems, shmTensors)
        else caches.shmTensorCache }, shmTensors)

/-- The caches, the identifier, and the cached tensor data of a save. -/
abbrev Prepared : Type :=
  TrainerCaches × Option StructureKey × Option TensorData

/-- The CPU shared-memory path. -/
def prepareShm (caches : TrainerCaches) (save : Save) (failed : List StructureKey) : Prepared :=
  let found := caches.shmTensors save failed
  let data : TensorData := (save.gpuItems, found.2.map .shm)
  if save.useCachedDataStructure then
    if save.key ∈ caches.cachedIdentifiers then (found.1, some save.key, none)
    else ({ found.1 with cachedIdentifiers := found.1.cachedIdentifiers.insert save.key },
      some save.key, some data)
  else (found.1, none, some data)

/-- The GPU IPC path. -/
def prepareIpc (caches : TrainerCaches) (save : Save) : Prepared :=
  let dataPtrs := tensorDataPtrs save.gpuItems save.gpuData
  let data : TensorData := (save.gpuItems, save.gpuData.map .ipc)
  if save.key ∈ caches.cachedIdentifiers then
    if caches.cachedTensorDataPtrs.get? save.key = some dataPtrs then (caches, some save.key, none)
    else ({ caches with
      cachedTensorDataPtrs := caches.cachedTensorDataPtrs.set save.key dataPtrs },
      some save.key, some data)
  else if save.gpuItems.isEmpty then (caches, none, none)
  else ({ caches with
    cachedIdentifiers := caches.cachedIdentifiers.insert save.key
    cachedTensorDataPtrs := caches.cachedTensorDataPtrs.set save.key dataPtrs },
    some save.key, some data)

/-- Without caching. -/
def prepareUncached (caches : TrainerCaches) (save : Save) : Prepared :=
  (caches, none,
    if save.gpuItems.isEmpty then none else some (save.gpuItems, save.gpuData.map .ipc))

/-- `prepare_write_data` -/
def prepareWriteData (caches : TrainerCaches) (save : Save) (failed : List StructureKey) :
    TrainerCaches × DataToPass :=
  let prepared :=
    if save.mayCache then
      if save.onShmPath then caches.prepareShm save failed else caches.prepareIpc save
    else caches.prepareUncached save
  (prepared.1,
    { identifier := prepared.2.1
      separationHint := save.separationHint
      cachedTensorData := prepared.2.2
      uncachedTensorData := save.uncachedTensorData
      byteIoData := save.byteIoData
      threadCount := save.threadCount })

end TrainerCaches

/-! ## The worker -/

abbrev WorkerDataCache : Type :=
  Dict StructureKey TensorData

inductive PreloadError where
  /-- `Worker cache miss for key {key}. Worker may have restarted.` -/
  | cacheMiss (key : StructureKey)
  /-- An item has no data. -/
  | keyError
  deriving DecidableEq, Repr

/-- The cached tensor data of a request, and the cache afterwards. -/
def WorkerDataCache.lookup (cache : WorkerDataCache) (identifier : Option StructureKey)
    (cachedTensorData : Option TensorData) :
    Except PreloadError (WorkerDataCache × Option TensorData) :=
  match identifier, cachedTensorData with
  | none, sent => .ok (cache, sent)
  | some key, some sent => .ok (Dict.set cache key sent, some sent)
  | some key, none =>
    match cache.get? key with
    | some kept => .ok (cache, some kept)
    | none => .error (.cacheMiss key)

/-- `combine_data` -/
def combineData (parts : List (Option TensorData)) : TensorData :=
  (parts.flatMap fun part => (part.map Prod.fst).getD [],
    parts.flatMap fun part => (part.map Prod.snd).getD [])

/-- `preload_tensors` -/
def preloadTensors (cache : WorkerDataCache) (data : DataToPass) :
    Except PreloadError (WorkerDataCache × List (WriteBucket Staged)) := do
  let found ← cache.lookup data.identifier data.cachedTensorData
  let combined := combineData [found.2, data.uncachedTensorData, data.byteIoData]
  if combined.2.length < combined.1.length then .error .keyError
  else
    let bins := binsOf data.separationHint data.threadCount
    .ok (found.1, writeBuckets (splitBySizeAndType bins (combined.1.zip combined.2))
      data.separationHint)

inductive Worker where
  | absent
  | up (dataCache : WorkerDataCache)
  /-- The process has ended, and the trainer still has its handle. -/
  | down

/-! ## The system -/

structure CacheState where
  trainer : TrainerCaches
  /-- A save that is prepared and not scheduled. -/
  prepared : Option (Save × DataToPass)
  /-- The request for whose preload the trainer waits. -/
  requested : Option (Save × DataToPass)
  worker : Worker
  /-- The worker was started by `warmup_persistent_caller`, and nothing was scheduled since. -/
  warm : Bool

inductive CacheEvent where
  /-- `prepare_write_data`, and the keys of the failed saves that its drain comes upon. -/
  | prepareWriteData (save : Save) (failed : List StructureKey)
  /-- `schedule_async_call` -/
  | scheduleAsyncCall
  /-- The worker takes the request. -/
  | preload
  /-- `retrieve_write_results` of a save that has failed. -/
  | retrieveFailure (key : StructureKey)
  /-- The worker process ends. -/
  | fail
  /-- `AsyncCallsQueue.close`, with or without `abort`. -/
  | close
  /-- `warmup_persistent_caller` -/
  | warmup

namespace CacheState

/-- `_start_worker` -/
def startWorker (s : CacheState) : CacheState :=
  { s with trainer := s.trainer.cleanupTensorCaches, worker := .up .empty }

/-- `_get_async_caller`: a warm worker that has ended is given up. -/
def getAsyncCaller (s : CacheState) : CacheState :=
  match s.warm, s.worker with
  | true, .down => { s with warm := false, worker := .absent }
  | _, _ => { s with warm := false }

/-- `schedule_async_call` of the prepared save. -/
def scheduleAsyncCall (s : CacheState) (save : Save) (data : DataToPass) : CacheState :=
  let s := { s.getAsyncCaller with prepared := none }
  if save.plan.isEmpty then s
  else
    let s := match s.worker with
      | .absent => s.startWorker
      | _ => s
    { s with requested := some (save, data) }

def step (s : CacheState) : CacheEvent → Option CacheState
  | .prepareWriteData save failed =>
    if s.prepared.isNone && s.requested.isNone then
      let result := s.trainer.prepareWriteData save failed
      some { s with trainer := result.1, prepared := some (save, result.2) }
    else none
  | .scheduleAsyncCall =>
    match s.prepared, s.requested with
    | some (save, data), none => some (s.scheduleAsyncCall save data)
    | _, _ => none
  | .preload =>
    match s.worker, s.requested with
    | .up cache, some (_, data) =>
      match preloadTensors cache data with
      | .ok result => some { s with worker := .up result.1, requested := none }
      | .error _ => some { s with worker := .down }
    | _, _ => none
  | .retrieveFailure key => some { s with trainer := s.trainer.discard key }
  | .fail =>
    match s.worker with
    | .up _ => some { s with worker := .down }
    | _ => none
  | .close => some { s with worker := .absent, requested := none, warm := false }
  | .warmup =>
    match s.warm, s.worker with
    | true, _ => some s
    | false, .absent => some { s.startWorker with warm := true }
    -- The worker that is there stays in use.
    | false, _ => some { s with trainer := s.trainer.cleanupTensorCaches }

/-- A trainer before its first save. -/
def system : System CacheState CacheEvent where
  init s := s.trainer.cachedIdentifiers = [] ∧ s.trainer.cachedTensorDataPtrs = .empty ∧
    s.trainer.shmTensorCache = .empty ∧ s.prepared = none ∧ s.requested = none ∧
    s.worker = .absent ∧ s.warm = false
  step := step

end CacheState

end ResiliencyExt.Checkpointing.AsyncCkpt
