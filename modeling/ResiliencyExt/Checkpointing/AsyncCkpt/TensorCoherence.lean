import ResiliencyExt.Checkpointing.AsyncCkpt.TensorCaches

set_option autoImplicit false

/-!
# The tensor caches are coherent

What the trainer has on record is what the worker has, or will have once the save that is on
its way has come to it.  The record is about one worker: it is wrong as soon as that worker
is closed, and it is cleared when the next worker is started, which is after the next save
was prepared.  In shared memory the record is the key alone, which has no chunk offsets and
does not say which tensors are on the GPU.
-/

namespace ResiliencyExt.Checkpointing.AsyncCkpt

open Foundation List

/-- The index of an item, and its chunk. -/
def WriteItem.spot (item : WriteItem) : String × Option Chunk :=
  (item.fqn, item.chunk)

/-- The items with the tensors whose data is read for them. -/
def readPairs (shm : Nat → Option Tensor) (pairs : List (WriteItem × Staged)) :
    List ((String × Option Chunk) × Option Tensor) :=
  pairs.map fun e => (e.1.spot, e.2.tensor shm)

/-- The items with their own tensors. -/
def Save.ownPairs (save : Save) (items : List WriteItem) :
    List ((String × Option Chunk) × Option Tensor) :=
  items.map fun item => (item.spot, some (save.tensor item))

/-! ## Data that fits the items -/

/-- The data is that of `items`, as they are now. -/
structure Fits (shm : Nat → Option Tensor) (save : Save) (items : List WriteItem)
    (data : TensorData) : Prop where
  spots : data.1.map WriteItem.spot = items.map WriteItem.spot
  tensors : data.2.map (Staged.tensor shm) = items.map fun item => some (save.tensor item)
  notBytes : ∀ item ∈ data.1, item.isBytes = false

namespace Fits

variable {shm : Nat → Option Tensor} {save : Save} {items : List WriteItem} {data : TensorData}

theorem length_eq (h : Fits shm save items data) : data.1.length = data.2.length := by
  have hitems := congrArg List.length h.spots
  have htensors := congrArg List.length h.tensors
  rw [length_map, length_map] at hitems htensors
  exact hitems.trans htensors.symm

theorem readPairs_eq (h : Fits shm save items data) :
    readPairs shm (data.1.zip data.2) = save.ownPairs items := by
  have hzip : readPairs shm (data.1.zip data.2) =
      (data.1.map WriteItem.spot).zip (data.2.map (Staged.tensor shm)) :=
    zip_map.symm
  rw [hzip, h.spots, h.tensors]
  exact zip_map'

theorem filter_zip (h : Fits shm save items data) :
    ((data.1.zip data.2).filter fun e => !e.1.isBytes) = data.1.zip data.2 := by
  refine filter_eq_self.mpr fun e he => ?_
  rw [h.notBytes e.1 (of_mem_zip he).1]
  rfl

end Fits

/-- The same for data that is left out when there are no items. -/
def FitsOption (shm : Nat → Option Tensor) (save : Save) (items : List WriteItem) :
    Option TensorData → Prop
  | none => items = []
  | some data => Fits shm save items data

theorem FitsOption.getD {shm : Nat → Option Tensor} {save : Save} {items : List WriteItem}
    {data : Option TensorData} (h : FitsOption shm save items data) :
    Fits shm save items (data.getD ([], [])) := by
  cases data with
  | none =>
    cases h
    exact ⟨rfl, rfl, nofun⟩
  | some data => exact h

namespace Save

variable (save : Save)

theorem isBytes_of_mem_tensorItems {item : WriteItem} (h : item ∈ save.tensorItems) :
    item.isBytes = false :=
  (Bool.not_eq_true' _).mp (mem_filter.mp h).2

theorem isBytes_of_mem_gpuItems {item : WriteItem} (h : item ∈ save.gpuItems) :
    item.isBytes = false :=
  save.isBytes_of_mem_tensorItems (mem_filter.mp h).1

theorem fits_uncached (shm : Nat → Option Tensor) :
    FitsOption shm save save.uncachedItems save.uncachedTensorData := by
  unfold uncachedTensorData
  split
  · rename_i hempty
    exact List.isEmpty_iff.mp hempty
  · refine ⟨rfl, ?_, fun item hitem => ?_⟩
    · rw [map_map]
      rfl
    · exact save.isBytes_of_mem_tensorItems (mem_filter.mp hitem).1

theorem gpuItems_append_uncachedItems_perm :
    (save.gpuItems ++ save.uncachedItems).Perm save.tensorItems :=
  perm_append_comm.trans (filter_append_perm save.uncached save.tensorItems)

/-- The data of the byte items. -/
theorem byteIoData_spec :
    (save.byteIoData.getD ([], [])).1.length = (save.byteIoData.getD ([], [])).2.length ∧
      ∀ item ∈ (save.byteIoData.getD ([], [])).1, item.isBytes = true := by
  unfold byteIoData
  split
  · exact ⟨rfl, nofun⟩
  · exact ⟨(length_map _).symm, fun item hitem => (mem_filter.mp hitem).2⟩

end Save

/-! ## A request that is ready for the worker -/

/-- The cache of the worker after the preload of a request. -/
def WorkerDataCache.after (cache : WorkerDataCache) (identifier : Option StructureKey)
    (cachedTensorData : Option TensorData) : WorkerDataCache :=
  match identifier, cachedTensorData with
  | some key, some sent => Dict.set cache key sent
  | _, _ => cache

theorem after_of_lookup {cache : WorkerDataCache} {identifier : Option StructureKey}
    {sent : Option TensorData}
    {result : WorkerDataCache × Option TensorData}
    (h : cache.lookup identifier sent = .ok result) : result.1 = cache.after identifier sent := by
  unfold WorkerDataCache.lookup at h
  split at h
  · cases h
    rfl
  · cases h
    rfl
  · split at h
    · cases h
      rfl
    · cases h

/-- The worker finds the data of the GPU tensors, and the rest is in the request. -/
structure Ready (shm : Nat → Option Tensor) (cache : WorkerDataCache) (save : Save)
    (data : DataToPass) : Prop where
  found : ∃ result, cache.lookup data.identifier data.cachedTensorData = .ok result ∧
    FitsOption shm save save.gpuItems result.2
  uncached : data.uncachedTensorData = save.uncachedTensorData
  byteIo : data.byteIoData = save.byteIoData
  separationHint : data.separationHint = save.separationHint
  threadCount : data.threadCount = save.threadCount
  identifier : save.tensorItems = [] → data.identifier = none

theorem combineData_eq (a b c : Option TensorData) :
    combineData [a, b, c] =
      ((a.getD ([], [])).1 ++ ((b.getD ([], [])).1 ++ (c.getD ([], [])).1),
        (a.getD ([], [])).2 ++ ((b.getD ([], [])).2 ++ (c.getD ([], [])).2)) := by
  cases a <;> cases b <;> cases c <;> simp [combineData]

/-- A request that is ready is preloaded, and every tensor of the plan is written with its own
data. -/
theorem Ready.preload {shm : Nat → Option Tensor} {cache : WorkerDataCache} {save : Save}
    {data : DataToPass} (h : Ready shm cache save data) :
    ∃ buckets, preloadTensors cache data =
        .ok (cache.after data.identifier data.cachedTensorData, buckets) ∧
      (readPairs shm (buckets.flatMap WriteBucket.tensorData)).Perm
        (save.ownPairs save.tensorItems) := by
  obtain ⟨⟨cache', found⟩, hlookup, hfits⟩ := h.found
  have hafter := after_of_lookup hlookup
  have hgpu := hfits.getD
  have huncached := (save.fits_uncached shm).getD
  obtain ⟨hbytesLength, hbytes⟩ := save.byteIoData_spec
  have hbytesFilter : (((save.byteIoData.getD ([], [])).1.zip
      (save.byteIoData.getD ([], [])).2).filter fun e => !e.1.isBytes) = [] := by
    refine filter_eq_nil_iff.mpr fun e he => ?_
    rw [hbytes e.1 (of_mem_zip he).1]
    exact Bool.false_ne_true
  have hrest : data.uncachedTensorData = save.uncachedTensorData ∧
      data.byteIoData = save.byteIoData := ⟨h.uncached, h.byteIo⟩
  refine ⟨writeBuckets (splitBySizeAndType (binsOf data.separationHint data.threadCount)
    ((combineData [found, data.uncachedTensorData, data.byteIoData]).1.zip
      (combineData [found, data.uncachedTensorData, data.byteIoData]).2)) data.separationHint,
    ?_, ?_⟩
  · have hlength : ¬ (combineData [found, data.uncachedTensorData, data.byteIoData]).2.length <
        (combineData [found, data.uncachedTensorData, data.byteIoData]).1.length := by
      rw [hrest.1, hrest.2, combineData_eq]
      simp only [length_append, hgpu.length_eq, huncached.length_eq, hbytesLength,
        Nat.lt_irrefl, not_false_eq_true]
    unfold preloadTensors
    rw [hlookup, ← hafter]
    exact if_neg hlength
  · have hbins : 0 < binsOf data.separationHint data.threadCount := by
      rw [h.separationHint, h.threadCount]
      exact save.bins_pos
    refine ((tensorData_writeBuckets_perm hbins _ data.separationHint).map _).trans ?_
    rw [hrest.1, hrest.2, combineData_eq, zip_append hgpu.length_eq,
      zip_append huncached.length_eq, filter_append, filter_append,
      hgpu.filter_zip, huncached.filter_zip, hbytesFilter, append_nil]
    change (readPairs shm _).Perm _
    have hsplit : ∀ pairs pairs', readPairs shm (pairs ++ pairs') =
        readPairs shm pairs ++ readPairs shm pairs' :=
      fun pairs pairs' => map_append
    rw [hsplit, hgpu.readPairs_eq, huncached.readPairs_eq]
    refine List.Perm.trans (.of_eq ?_) (save.gpuItems_append_uncachedItems_perm.map _)
    exact map_append.symm

/-! ## The record of the trainer -/

/-- What the worker keeps under a key is what the trainer has on record. -/
structure RecordOf (caches : TrainerCaches) (key : StructureKey) (kept : TensorData) : Prop where
  notBytes : ∀ item ∈ kept.1, item.isBytes = false
  /-- The data pointers are those of the kept handles. -/
  ipc : ∀ ptrs, caches.cachedTensorDataPtrs.get? key = some ptrs →
    ∃ tensors, kept.2 = tensors.map .ipc ∧ kept.1.length = tensors.length ∧
      (∀ tensor ∈ tensors, tensor.quantized = false) ∧ tensorDataPtrs kept.1 tensors = ptrs
  /-- Without data pointers, the kept tensors are those in shared memory. -/
  shm : caches.cachedTensorDataPtrs.get? key = none →
    ∃ cached, caches.shmTensorCache.get? key = some cached ∧
      kept.1.map WriteItem.spot = cached.1.map WriteItem.spot ∧ kept.2 = cached.2.map .shm

/-- The worker has all keys on record. -/
def Known (caches : TrainerCaches) (cache : WorkerDataCache) : Prop :=
  ∀ key ∈ caches.cachedIdentifiers, ∃ kept, cache.get? key = some kept ∧ RecordOf caches key kept

/-- What holds of the trainer's caches by themselves. -/
structure Consistent (caches : TrainerCaches) : Prop where
  recorded : ∀ {key ptrs}, caches.cachedTensorDataPtrs.get? key = some ptrs →
    key ∈ caches.cachedIdentifiers
  nodup : ∀ {key cached}, caches.shmTensorCache.get? key = some cached →
    cached.2.Nodup ∧ cached.2.length = cached.1.length

variable {caches : TrainerCaches} {cache : WorkerDataCache} {save : Save}

variable {key : StructureKey} {caches' : TrainerCaches}

theorem consistent_cleanup (caches : TrainerCaches) : Consistent caches.cleanupTensorCaches :=
  ⟨nofun, nofun⟩

theorem known_cleanup (caches : TrainerCaches) (cache : WorkerDataCache) :
    Known caches.cleanupTensorCaches cache :=
  nofun

theorem mem_identifiers_discard {k : StructureKey} :
    k ∈ (caches.discard key).cachedIdentifiers ↔ k ∈ caches.cachedIdentifiers ∧ k ≠ key := by
  simp only [TrainerCaches.discard, mem_filter, decide_eq_true_eq]

theorem Consistent.discard (h : Consistent caches) (key : StructureKey) :
    Consistent (caches.discard key) := by
  refine ⟨fun {k ptrs} hget => ?_, h.nodup⟩
  have hkey := (Dict.mem_keys_erase.mp (Dict.mem_keys_of_get? hget)).2
  exact mem_identifiers_discard.mpr ⟨h.recorded (Dict.get?_of_get?_erase hget), hkey⟩

theorem Known.discard (h : Known caches cache) (key : StructureKey) :
    Known (caches.discard key) cache := by
  intro k hk
  obtain ⟨hmem, hne⟩ := mem_identifiers_discard.mp hk
  obtain ⟨kept, hget, hrecord⟩ := h k hmem
  have hsame : (caches.discard key).cachedTensorDataPtrs.get? k =
      caches.cachedTensorDataPtrs.get? k := Dict.get?_erase_of_ne _ hne
  refine ⟨kept, hget, hrecord.notBytes, fun ptrs hptrs => ?_, fun hnone => ?_⟩
  · exact hrecord.ipc ptrs (hsame ▸ hptrs)
  · exact hrecord.shm (hsame ▸ hnone)

/-- What the drain leaves as it is. -/
theorem foldl_discard (failed : List StructureKey) (caches : TrainerCaches) :
    (failed.foldl TrainerCaches.discard caches).shmTensorCache = caches.shmTensorCache ∧
      (failed.foldl TrainerCaches.discard caches).shm = caches.shm ∧
      (∀ key ∈ (failed.foldl TrainerCaches.discard caches).cachedIdentifiers,
        key ∈ caches.cachedIdentifiers) ∧
      (Consistent caches → Consistent (failed.foldl TrainerCaches.discard caches)) ∧
      ∀ cache, Known caches cache → Known (failed.foldl TrainerCaches.discard caches) cache := by
  induction failed generalizing caches with
  | nil => exact ⟨rfl, rfl, fun _ hkey => hkey, id, fun _ h => h⟩
  | cons key failed ih =>
    obtain ⟨hcache, hshm, hmem, hconsistent, hknown⟩ := ih (caches.discard key)
    exact ⟨hcache, hshm, fun k hk => (mem_identifiers_discard.mp (hmem k hk)).1,
      fun h => hconsistent (h.discard key), fun cache h => hknown cache (h.discard key)⟩

/-! ## Shared memory -/

theorem copyToShm_of_not_mem (shm : Nat → Option Tensor) {shmTensors : List Nat}
    (gpuData : List Tensor) {i : Nat} (hi : i ∉ shmTensors) :
    copyToShm shm shmTensors gpuData i = shm i := by
  unfold copyToShm
  induction shmTensors generalizing shm gpuData with
  | nil => rfl
  | cons j shmTensors ih =>
    cases gpuData with
    | nil => rfl
    | cons tensor gpuData =>
      have hne : i ≠ j := fun heq => hi (heq ▸ mem_cons_self)
      have hrest := ih (fun i' => if i' = j then some tensor else shm i') gpuData
        fun hmem => hi (mem_cons_of_mem j hmem)
      exact hrest.trans (if_neg hne)

/-- Every tensor in shared memory has its copy. -/
theorem map_copyToShm (shm : Nat → Option Tensor) {shmTensors : List Nat} {gpuData : List Tensor}
    (hnodup : shmTensors.Nodup) (hlength : shmTensors.length = gpuData.length) :
    shmTensors.map (copyToShm shm shmTensors gpuData) = gpuData.map some := by
  induction shmTensors generalizing shm gpuData with
  | nil =>
    rw [eq_nil_of_length_eq_zero hlength.symm]
    rfl
  | cons j shmTensors ih =>
    cases gpuData with
    | nil => cases hlength
    | cons tensor gpuData =>
      obtain ⟨hnot, hrest⟩ := nodup_cons.mp hnodup
      have hself : copyToShm (fun i => if i = j then some tensor else shm i) shmTensors gpuData j
          = some tensor := (copyToShm_of_not_mem _ gpuData hnot).trans (if_pos rfl)
      have htail := ih (fun i => if i = j then some tensor else shm i) hrest
        (Nat.succ.inj hlength)
      rw [map_cons, map_cons]
      exact congrArg₂ List.cons hself htail

/-- The shared memory that is there for the key was allocated for the same items. -/
def SameItems (caches : TrainerCaches) (save : Save) : Prop :=
  ∀ cached, caches.shmTensorCache.get? save.key = some cached →
    cached.1.map WriteItem.spot = save.gpuItems.map WriteItem.spot

theorem length_gpuData (save : Save) : save.gpuData.length = save.gpuItems.length :=
  length_map _

theorem map_some_gpuData (save : Save) :
    save.gpuData.map some = save.gpuItems.map fun item => some (save.tensor item) := by
  unfold Save.gpuData
  rw [map_map]
  rfl

/-- The tensors in shared memory after the copies. -/
theorem fits_shmTensors (h : Consistent caches)
    (hitems : save.useCachedDataStructure = true → SameItems caches save)
    (failed : List StructureKey) :
    Fits (caches.shmTensors save failed).1.shm save save.gpuItems
      (save.gpuItems, (caches.shmTensors save failed).2.map .shm) := by
  have hcopied : (caches.shmTensors save failed).2.map (caches.shmTensors save failed).1.shm =
      save.gpuData.map some := by
    unfold TrainerCaches.shmTensors
    split
    · rename_i cached hget
      split at hget
      · rename_i hcached
        obtain ⟨hnodup, hlength⟩ := h.nodup hget
        have hspots := congrArg List.length (hitems hcached cached hget)
        rw [length_map, length_map] at hspots
        exact map_copyToShm _ hnodup ((hlength.trans hspots).trans (length_gpuData save).symm)
      · cases hget
    · exact map_copyToShm _ nodup_range' (length_range'.trans (length_gpuData save).symm)
  refine ⟨rfl, ?_, fun item hitem => save.isBytes_of_mem_gpuItems hitem⟩
  rw [map_map]
  exact hcopied.trans (map_some_gpuData save)

/-! ## What a save prepares -/

/-- The save is on record, so that no tensors are sent. -/
def TrainerCaches.reuses (caches : TrainerCaches) (save : Save) : Bool :=
  save.key ∈ caches.cachedIdentifiers &&
    if save.onShmPath then save.useCachedDataStructure
    else caches.cachedTensorDataPtrs.get? save.key =
      some (tensorDataPtrs save.gpuItems save.gpuData)

/-- What `prepare_write_data` comes to, with a worker that has `cache`. -/
structure Prepares (caches : TrainerCaches) (cache : WorkerDataCache) (save : Save)
    (prepared : TrainerCaches.Prepared) : Prop where
  consistent : Consistent prepared.1
  known : Known caches cache → Known prepared.1 (cache.after prepared.2.1 prepared.2.2)
  ready : Known caches cache ∨ caches.reuses save = false →
    ∃ result, cache.lookup prepared.2.1 prepared.2.2 = .ok result ∧
      FitsOption prepared.1.shm save save.gpuItems result.2

/-- The data of the GPU IPC path. -/
theorem fits_ipc (shm : Nat → Option Tensor) (save : Save) :
    Fits shm save save.gpuItems (save.gpuItems, save.gpuData.map .ipc) := by
  refine ⟨rfl, ?_, fun item hitem => save.isBytes_of_mem_gpuItems hitem⟩
  rw [map_map]
  exact map_some_gpuData save

theorem prepares_uncached (h : Consistent caches) (cache : WorkerDataCache) (save : Save) :
    Prepares caches cache save (caches.prepareUncached save) := by
  refine ⟨h, id, fun _ => ⟨_, rfl, ?_⟩⟩
  unfold TrainerCaches.prepareUncached
  simp only
  split
  · rename_i hempty
    exact List.isEmpty_iff.mp hempty
  · exact fits_ipc caches.shm save

/-- The record of data that was sent over IPC. -/
theorem recordOf_ipc (save : Save)
    (hquantized : ∀ item ∈ save.gpuItems, (save.tensor item).quantized = false)
    (hptrs : caches'.cachedTensorDataPtrs.get? save.key =
      some (tensorDataPtrs save.gpuItems save.gpuData)) :
    RecordOf caches' save.key (save.gpuItems, save.gpuData.map .ipc) := by
  refine ⟨fun item hitem => save.isBytes_of_mem_gpuItems hitem, fun ptrs hget => ?_,
    fun hnone => ?_⟩
  · refine ⟨save.gpuData, rfl, (length_gpuData save).symm, fun tensor htensor => ?_,
      Option.some.inj (hptrs.symm.trans hget)⟩
    obtain ⟨item, hitem, rfl⟩ := mem_map.mp htensor
    exact hquantized item hitem
  · cases hptrs.symm.trans hnone

/-- Data pointers tell the items and the tensors apart. -/
theorem eq_of_tensorDataPtrs_eq {items items' : List WriteItem} {tensors tensors' : List Tensor}
    (hlength : items.length = tensors.length) (hlength' : items'.length = tensors'.length)
    (hquantized : ∀ tensor ∈ tensors, tensor.quantized = false)
    (hquantized' : ∀ tensor ∈ tensors', tensor.quantized = false)
    (h : tensorDataPtrs items tensors = tensorDataPtrs items' tensors') :
    items.map WriteItem.spot = items'.map WriteItem.spot ∧ tensors = tensors' := by
  induction items generalizing items' tensors tensors' with
  | nil =>
    rw [eq_nil_of_length_eq_zero hlength.symm] at h ⊢
    have hzip := congrArg List.length h
    simp only [tensorDataPtrs, zip_nil_left, map_nil, length_nil,
      length_map, length_zip, hlength', Nat.min_self] at hzip
    rw [eq_nil_of_length_eq_zero (hlength'.trans hzip.symm),
      eq_nil_of_length_eq_zero hzip.symm]
    exact ⟨rfl, rfl⟩
  | cons item items ih =>
    cases tensors with
    | nil => cases hlength
    | cons tensor tensors =>
      cases items' with
      | nil => cases h
      | cons item' items' =>
        cases tensors' with
        | nil => cases hlength'
        | cons tensor' tensors' =>
          obtain ⟨hhead, htail⟩ := List.cons.inj h
          obtain ⟨hitems, htensors⟩ := ih (Nat.succ.inj hlength) (Nat.succ.inj hlength')
            (fun t ht => hquantized t (mem_cons_of_mem _ ht))
            (fun t ht => hquantized' t (mem_cons_of_mem _ ht)) htail
          obtain ⟨hfqn, hpair⟩ := Prod.mk.inj hhead
          obtain ⟨hchunk, hinfo⟩ := Prod.mk.inj hpair
          have hspot : item.spot = item'.spot := Prod.ext hfqn hchunk
          have hflag : tensor.quantized = tensor'.quantized :=
            (hquantized tensor mem_cons_self).trans
              (hquantized' tensor' mem_cons_self).symm
          have htensor : tensor = tensor' := by
            cases tensor
            cases tensor'
            cases hinfo
            cases hflag
            rfl
          exact ⟨congrArg₂ List.cons hspot hitems, congrArg₂ List.cons htensor htensors⟩

/-- A record that agrees with the data pointers of the save. -/
theorem RecordOf.fits {kept : TensorData} (h : RecordOf caches save.key kept)
    (hquantized : ∀ item ∈ save.gpuItems, (save.tensor item).quantized = false)
    (hptrs : caches.cachedTensorDataPtrs.get? save.key =
      some (tensorDataPtrs save.gpuItems save.gpuData)) (shm : Nat → Option Tensor) :
    Fits shm save save.gpuItems kept := by
  obtain ⟨tensors, hkept, hlength, hkeptQuantized, hkeptPtrs⟩ := h.ipc _ hptrs
  have hownQuantized : ∀ tensor ∈ save.gpuData, tensor.quantized = false := by
    intro tensor htensor
    obtain ⟨item, hitem, rfl⟩ := mem_map.mp htensor
    exact hquantized item hitem
  obtain ⟨hspots, htensors⟩ := eq_of_tensorDataPtrs_eq hlength (length_gpuData save).symm
    hkeptQuantized hownQuantized hkeptPtrs
  refine ⟨hspots, ?_, h.notBytes⟩
  rw [hkept, htensors, map_map]
  exact map_some_gpuData save

/-- New data pointers leave the other records as they are. -/
theorem RecordOf.congr {kept : TensorData} (h : RecordOf caches key kept)
    (hptrs : caches'.cachedTensorDataPtrs.get? key = caches.cachedTensorDataPtrs.get? key)
    (hshm : caches.cachedTensorDataPtrs.get? key = none →
      caches'.shmTensorCache.get? key = caches.shmTensorCache.get? key) :
    RecordOf caches' key kept := by
  refine ⟨h.notBytes, fun ptrs hget => h.ipc ptrs (hptrs ▸ hget), fun hnone => ?_⟩
  rw [hptrs] at hnone
  rw [hshm hnone]
  exact h.shm hnone

/-- A save over IPC that sends its data and sets its record. -/
theorem known_of_sent (h : Known caches cache) {sent : TensorData}
    (hmem : ∀ k ∈ caches'.cachedIdentifiers, k = key ∨ k ∈ caches.cachedIdentifiers)
    (hkey : RecordOf caches' key sent)
    (hother : ∀ k kept, k ≠ key → RecordOf caches k kept → RecordOf caches' k kept) :
    Known caches' (cache.after (some key) (some sent)) := by
  intro k hk
  change ∃ kept, (Dict.set cache key sent).get? k = some kept ∧ _
  rw [Dict.get?_set]
  by_cases heq : k = key
  · subst heq
    exact ⟨sent, if_pos rfl, hkey⟩
  · obtain ⟨kept, hget, hrecord⟩ := h k ((hmem k hk).resolve_left heq)
    exact ⟨kept, (if_neg heq).trans hget, hother k kept heq hrecord⟩

theorem prepares_ipc (h : Consistent caches) (cache : WorkerDataCache) {save : Save}
    (hpath : save.onShmPath = false)
    (hquantized : ∀ item ∈ save.gpuItems, (save.tensor item).quantized = false) :
    Prepares caches cache save (caches.prepareIpc save) := by
  have hother : ∀ (caches' : TrainerCaches) k kept, k ≠ save.key →
      caches'.cachedTensorDataPtrs = caches.cachedTensorDataPtrs.set save.key
        (tensorDataPtrs save.gpuItems save.gpuData) →
      caches'.shmTensorCache = caches.shmTensorCache →
      RecordOf caches k kept → RecordOf caches' k kept := by
    intro caches' k kept hne hptrs hshm hrecord
    refine hrecord.congr ?_ fun _ => congrArg (fun cache => cache.get? k) hshm
    rw [hptrs]
    exact Dict.get?_set_of_ne _ _ hne
  have hconsistent : ∀ (caches' : TrainerCaches),
      caches'.cachedTensorDataPtrs = caches.cachedTensorDataPtrs.set save.key
        (tensorDataPtrs save.gpuItems save.gpuData) →
      caches'.shmTensorCache = caches.shmTensorCache →
      save.key ∈ caches'.cachedIdentifiers →
      (∀ k ∈ caches.cachedIdentifiers, k ∈ caches'.cachedIdentifiers) → Consistent caches' := by
    intro caches' hptrs hshm hkey hmem
    refine ⟨fun {k ptrs} hget => ?_, fun hget => h.nodup (hshm ▸ hget)⟩
    rw [hptrs, Dict.get?_set] at hget
    split at hget
    · rename_i heq
      exact heq ▸ hkey
    · exact hmem k (h.recorded hget)
  unfold TrainerCaches.prepareIpc
  simp only
  split
  · rename_i hkey
    split
    · -- The data pointers are those on record.
      rename_i hptrs
      refine ⟨h, id, fun hcond => ?_⟩
      rcases hcond with hknown | hreuses
      · obtain ⟨kept, hget, hrecord⟩ := hknown save.key hkey
        refine ⟨(cache, some kept), ?_, hrecord.fits hquantized hptrs caches.shm⟩
        simp only [WorkerDataCache.lookup, hget]
      · simp only [TrainerCaches.reuses, hkey, hpath, hptrs, decide_true, Bool.true_and,
          Bool.false_eq_true, if_false] at hreuses
        cases hreuses
    · refine ⟨hconsistent _ rfl rfl hkey fun _ hk => hk, fun hknown => ?_,
        fun _ => ⟨_, rfl, fits_ipc caches.shm save⟩⟩
      exact known_of_sent hknown (fun k hk => .inr hk)
        (recordOf_ipc save hquantized (Dict.get?_set_self _ _ _))
        fun k kept hne => hother _ k kept hne rfl rfl
  · split
    · rename_i hempty
      exact ⟨h, id, fun _ => ⟨_, rfl, List.isEmpty_iff.mp hempty⟩⟩
    · refine ⟨hconsistent _ rfl rfl (mem_insert_iff.mpr (.inl rfl))
        fun k hk => mem_insert_iff.mpr (.inr hk), fun hknown => ?_,
        fun _ => ⟨_, rfl, fits_ipc caches.shm save⟩⟩
      exact known_of_sent hknown (fun k hk => mem_insert_iff.mp hk)
        (recordOf_ipc save hquantized (Dict.get?_set_self _ _ _))
        fun k kept hne => hother _ k kept hne rfl rfl

/-! ### Shared memory -/

theorem mem_identifiers_shmTensors {failed : List StructureKey}
    (hkey : key ∈ (caches.shmTensors save failed).1.cachedIdentifiers) :
    key ∈ caches.cachedIdentifiers := by
  unfold TrainerCaches.shmTensors at hkey
  split at hkey
  · exact (foldl_discard failed caches).2.2.1 key hkey
  · exact hkey

theorem consistent_shmTensors (h : Consistent caches) (failed : List StructureKey) :
    Consistent (caches.shmTensors save failed).1 := by
  unfold TrainerCaches.shmTensors
  split
  · have hdrained := (foldl_discard failed caches).2.2.2.1 h
    exact ⟨hdrained.recorded, hdrained.nodup⟩
  · refine ⟨h.recorded, fun {key cached} hget => ?_⟩
    simp only at hget
    split at hget
    · rw [Dict.get?_set] at hget
      split at hget
      · cases hget
        exact ⟨nodup_range', length_range'⟩
      · exact h.nodup hget
    · exact h.nodup hget

/-- With caching, the tensors in shared memory are those that are kept for the key. -/
theorem shmTensorCache_shmTensors (hcached : save.useCachedDataStructure = true)
    (hitems : SameItems caches save) (failed : List StructureKey) :
    ∃ cached, (caches.shmTensors save failed).1.shmTensorCache.get? save.key = some cached ∧
      cached.1.map WriteItem.spot = save.gpuItems.map WriteItem.spot ∧
      cached.2 = (caches.shmTensors save failed).2 := by
  unfold TrainerCaches.shmTensors
  rw [if_pos hcached]
  split
  · rename_i cached hget
    refine ⟨cached, ?_, hitems cached hget, rfl⟩
    exact ((foldl_discard failed caches).1 ▸ hget :)
  · refine ⟨(save.gpuItems, range' caches.allocated save.gpuItems.length), ?_, rfl, rfl⟩
    simp only [if_pos hcached]
    exact Dict.get?_set_self _ _ _

/-- The tensors of the cache are used again. -/
theorem shmTensors_of_cached (hcached : save.useCachedDataStructure = true)
    {cached : List WriteItem × List Nat}
    (hget : caches.shmTensorCache.get? save.key = some cached) (failed : List StructureKey) :
    (caches.shmTensors save failed).2 = cached.2 := by
  unfold TrainerCaches.shmTensors
  rw [if_pos hcached, hget]

theorem known_shmTensors (h : Known caches cache) (failed : List StructureKey) :
    Known (caches.shmTensors save failed).1 cache := by
  unfold TrainerCaches.shmTensors
  split
  · intro key hkey
    obtain ⟨kept, hget, hrecord⟩ := (foldl_discard failed caches).2.2.2.2 cache h key hkey
    exact ⟨kept, hget, hrecord.congr rfl fun _ => rfl⟩
  · rename_i hnone
    intro key hkey
    obtain ⟨kept, hget, hrecord⟩ := h key hkey
    refine ⟨kept, hget, hrecord.congr rfl fun hptrsNone => ?_⟩
    simp only
    split
    · rename_i hcached
      rw [if_pos hcached] at hnone
      refine Dict.get?_set_of_ne _ _ fun heq => ?_
      -- A key on record without data pointers has its tensors in shared memory.
      subst heq
      obtain ⟨cached, hsome, _⟩ := hrecord.shm hptrsNone
      cases hnone.symm.trans hsome
    · rfl

theorem prepares_shm (h : Consistent caches) (cache : WorkerDataCache) {save : Save}
    (hpath : save.onShmPath = true)
    (hitems : save.useCachedDataStructure = true → SameItems caches save)
    (hptrs : save.useCachedDataStructure = true → save.key ∈ caches.cachedIdentifiers →
      caches.cachedTensorDataPtrs.get? save.key = none) (failed : List StructureKey) :
    Prepares caches cache save (caches.prepareShm save failed) := by
  have hconsistent : Consistent (caches.shmTensors save failed).1 :=
    consistent_shmTensors h failed
  have hfits := fits_shmTensors h hitems failed
  unfold TrainerCaches.prepareShm
  simp only
  split
  · rename_i hcached
    split
    · -- The worker has the tensors.
      rename_i hkey
      refine ⟨hconsistent, fun hknown => known_shmTensors hknown failed, fun hcond => ?_⟩
      rcases hcond with hknown | hreuses
      · obtain ⟨kept, hget, hrecord⟩ := hknown save.key hkey
        obtain ⟨cached, hsome, hspots, hkept⟩ := hrecord.shm (hptrs hcached hkey)
        refine ⟨(cache, some kept), ?_, ?_, ?_, hrecord.notBytes⟩
        · simp only [WorkerDataCache.lookup, hget]
        · exact hspots.trans (hitems hcached cached hsome)
        · rw [hkept, ← shmTensors_of_cached hcached hsome failed]
          exact hfits.tensors
      · simp only [TrainerCaches.reuses, hkey, hpath, hcached, decide_true, Bool.true_and,
          if_true] at hreuses
        cases hreuses
    · rename_i hkey
      have hnotMem : save.key ∉ (caches.shmTensors save failed).1.cachedIdentifiers :=
        fun hmem => hkey (mem_identifiers_shmTensors hmem)
      have hnone : (caches.shmTensors save failed).1.cachedTensorDataPtrs.get? save.key = none :=
        Option.eq_none_iff_forall_ne_some.mpr fun ptrs hget => hnotMem (hconsistent.recorded hget)
      refine ⟨⟨fun hget => mem_insert_iff.mpr (.inr (hconsistent.recorded hget)),
        hconsistent.nodup⟩, fun hknown => ?_, fun _ => ⟨_, rfl, hfits⟩⟩
      obtain ⟨cached, hget, hspots, hids⟩ :=
        shmTensorCache_shmTensors hcached (hitems hcached) failed
      refine known_of_sent (known_shmTensors hknown failed)
        (fun k hk => mem_insert_iff.mp hk) ?_
        fun k kept _ hrecord => hrecord.congr rfl fun _ => rfl
      refine ⟨fun item hitem => save.isBytes_of_mem_gpuItems hitem, fun ptrs hsome => ?_,
        fun _ => ⟨cached, hget, hspots.symm, by rw [hids]⟩⟩
      cases hnone.symm.trans hsome
  · exact ⟨hconsistent, fun hknown => known_shmTensors hknown failed,
      fun _ => ⟨_, rfl, hfits⟩⟩

/-! ### Both paths -/

/-- On the shared-memory path with caching: the memory that is there for the key was allocated
for the same items, and the record is not one of the other path. -/
def TrainerCaches.shmRecordFits (caches : TrainerCaches) (save : Save) : Bool :=
  (match caches.shmTensorCache.get? save.key with
    | none => true
    | some cached => cached.1.map WriteItem.spot = save.gpuItems.map WriteItem.spot) &&
  (save.key ∉ caches.cachedIdentifiers || (caches.cachedTensorDataPtrs.get? save.key).isNone)

theorem sameItems_of_shmRecordFits (h : caches.shmRecordFits save = true) :
    SameItems caches save := by
  intro cached hget
  have hitems := ((Bool.and_eq_true _ _).mp h).1
  rw [hget] at hitems
  exact of_decide_eq_true hitems

theorem ptrs_of_shmRecordFits (h : caches.shmRecordFits save = true)
    (hkey : save.key ∈ caches.cachedIdentifiers) :
    caches.cachedTensorDataPtrs.get? save.key = none := by
  have hptrs := ((Bool.and_eq_true _ _).mp h).2
  rcases (Bool.or_eq_true _ _).mp hptrs with hnew | hnone
  · exact absurd hkey (of_decide_eq_true hnew)
  · exact Option.isNone_iff_eq_none.mp hnone

theorem quantized_of_mem_gpuItems (hpath : save.onShmPath = false) {item : WriteItem}
    (hitem : item ∈ save.gpuItems) : (save.tensor item).quantized = false := by
  have hnonempty : save.gpuItems.isEmpty = false := by
    cases hitems : save.gpuItems with
    | nil =>
      rw [hitems] at hitem
      cases hitem
    | cons _ _ => rfl
  rw [Save.onShmPath, hnonempty, Bool.not_false, Bool.true_and] at hpath
  have hcacheable := (mem_filter.mp hitem).2
  unfold Save.uncached at hcacheable
  split at hcacheable
  · cases hcacheable
  · simpa [hpath] using hcacheable

/-- What a save prepares is ready for a worker that has what is on record. -/
theorem ready_prepareWriteData (h : Consistent caches) (cache : WorkerDataCache) (save : Save)
    (failed : List StructureKey)
    (hshm : save.onShmPath = true → save.useCachedDataStructure = true →
      caches.shmRecordFits save = true) :
    Consistent (caches.prepareWriteData save failed).1 ∧
      (Known caches cache → Known (caches.prepareWriteData save failed).1
        (cache.after (caches.prepareWriteData save failed).2.identifier
          (caches.prepareWriteData save failed).2.cachedTensorData)) ∧
      (Known caches cache ∨ caches.reuses save = false →
        Ready (caches.prepareWriteData save failed).1.shm cache save
          (caches.prepareWriteData save failed).2) := by
  have hresult : Prepares caches cache save (if save.mayCache then
        if save.onShmPath then caches.prepareShm save failed else caches.prepareIpc save
      else caches.prepareUncached save) := by
    split
    · split
      · rename_i hpath
        exact prepares_shm h cache hpath
          (fun hcached => sameItems_of_shmRecordFits (hshm hpath hcached))
          (fun hcached hkey => ptrs_of_shmRecordFits (hshm hpath hcached) hkey) failed
      · rename_i hpath
        have hpath := Bool.eq_false_iff.mpr hpath
        exact prepares_ipc h cache hpath fun item hitem => quantized_of_mem_gpuItems hpath hitem
    · exact prepares_uncached h cache save
  refine ⟨hresult.consistent, hresult.known, fun hcond => ?_⟩
  refine ⟨hresult.ready hcond, rfl, rfl, rfl, rfl, fun hempty => ?_⟩
  have huncached : save.mayCache = false := by
    rw [Save.mayCache, hempty, isEmpty_nil, Bool.not_true, Bool.and_false]
  simp only [TrainerCaches.prepareWriteData, huncached, Bool.false_eq_true, if_false,
    TrainerCaches.prepareUncached]

end ResiliencyExt.Checkpointing.AsyncCkpt
