import ResiliencyExt.Checkpointing.AsyncCkpt.TensorCoherence

set_option autoImplicit false

/-!
# Preloads of coherent caches

A save that is prepared but not scheduled, or requested but not preloaded, is on its way to
the worker.  The record of the trainer is about what the worker will have after it.
-/

namespace ResiliencyExt.Checkpointing.AsyncCkpt

open Foundation

namespace Worker

def dataCache : Worker → WorkerDataCache
  | .up cache => cache
  | .absent | .down => .empty

def isAbsent : Worker → Bool
  | .absent => true
  | .up _ | .down => false

def isDown : Worker → Bool
  | .down => true
  | .absent | .up _ => false

end Worker

namespace CacheState

variable {s t : CacheState}

/-- A save that is on record is not prepared without a worker, a worker is not closed between
the preparation of a save and its scheduling, and on the shared-memory path the record fits
the save. -/
def safeToReuse (s : CacheState) : CacheEvent → Bool
  | .prepareWriteData save _ =>
    (!s.worker.isAbsent || !s.trainer.reuses save) &&
      (!(save.onShmPath && save.useCachedDataStructure) || s.trainer.shmRecordFits save)
  | .close => s.prepared.isNone
  | _ => true

/-- The save that is on its way to the worker. -/
def pending (s : CacheState) : Option (Save × DataToPass) :=
  s.prepared.or s.requested

/-- The cache of the worker, once it has the save that is on its way. -/
def cacheAfterPending (s : CacheState) : WorkerDataCache :=
  match s.pending with
  | none => s.worker.dataCache
  | some (_, data) => s.worker.dataCache.after data.identifier data.cachedTensorData

/-- The record is about the worker, and the save on its way is ready for it.  A worker that is
down preloads nothing, unless it is a warm one that is going to be replaced. -/
structure Coherent (s : CacheState) : Prop where
  consistent : Consistent s.trainer
  known : ∀ {cache}, s.worker = .up cache → Known s.trainer s.cacheAfterPending
  ready : ∀ {save data}, s.pending = some (save, data) →
    (s.worker.isDown = true → s.warm = true) →
    Ready s.trainer.shm s.worker.dataCache save data
  onePending : s.prepared = none ∨ s.requested = none
  absent : s.worker = .absent → s.requested = none
  warm : s.warm = true → s.worker.dataCache = .empty ∧ s.requested = none ∧
    (s.prepared = none → s.trainer.cachedIdentifiers = [])

namespace Coherent

variable {save : Save} {data : DataToPass}

theorem prepareWriteData (h : s.Coherent) (hprepared : s.prepared = none)
    (hrequested : s.requested = none) (failed : List StructureKey)
    (hcond : s.safeToReuse (.prepareWriteData save failed) = true) :
    Coherent { s with
      trainer := (s.trainer.prepareWriteData save failed).1
      prepared := some (save, (s.trainer.prepareWriteData save failed).2) } := by
  have hpending : s.pending = none := by
    rw [pending, hprepared, hrequested]
    rfl
  have hcache : s.cacheAfterPending = s.worker.dataCache := by
    rw [cacheAfterPending, hpending]
  obtain ⟨hworker, hshm⟩ := (Bool.and_eq_true _ _).mp hcond
  have hfits : save.onShmPath = true → save.useCachedDataStructure = true →
      s.trainer.shmRecordFits save = true := by
    intro hpath hcached
    rwa [hpath, hcached, Bool.and_self, Bool.not_true, Bool.false_or] at hshm
  obtain ⟨hconsistent, hknown, hready⟩ :=
    ready_prepareWriteData h.consistent s.worker.dataCache save failed hfits
  refine ⟨hconsistent, fun hup => hknown (hcache ▸ h.known hup), fun {save' data} hsome hdown => ?_,
    .inr hrequested, h.absent, fun hwarm => ?_⟩
  · cases hsome
    refine hready ?_
    change s.worker.isDown = true → s.warm = true at hdown
    cases hplace : s.worker with
    | up cache =>
      rw [← hplace, ← hcache]
      exact .inl (h.known hplace)
    | absent =>
      rw [hplace] at hworker
      exact .inr ((Bool.not_eq_true' _).mp hworker)
    | down =>
      rw [hplace] at hdown
      -- A warm worker has nothing, and there is nothing on record.
      have hnone := (h.warm (hdown rfl)).2.2 hprepared
      refine .inr ?_
      rw [TrainerCaches.reuses, hnone]
      rfl
  · obtain ⟨hempty, hnone, _⟩ := h.warm hwarm
    exact ⟨hempty, hnone, fun hsome => by cases hsome⟩

theorem preload (h : s.Coherent) {cache : WorkerDataCache} (hup : s.worker = .up cache)
    (hrequested : s.requested = some (save, data)) : Ready s.trainer.shm cache save data := by
  have hprepared : s.prepared = none := h.onePending.resolve_right (hrequested ▸ nofun)
  have hpending : s.pending = some (save, data) := by
    rw [pending, hprepared, hrequested]
    rfl
  have hready := h.ready hpending (by rw [hup]; exact nofun)
  rwa [hup] at hready

/-- The preload has been made. -/
theorem preloaded (h : s.Coherent) {cache : WorkerDataCache} (hup : s.worker = .up cache)
    (hrequested : s.requested = some (save, data)) :
    Coherent { s with
      worker := .up (cache.after data.identifier data.cachedTensorData), requested := none } := by
  have hprepared : s.prepared = none := h.onePending.resolve_right (hrequested ▸ nofun)
  have hpending : s.pending = some (save, data) := by
    rw [pending, hprepared, hrequested]
    rfl
  have hcache : s.cacheAfterPending = cache.after data.identifier data.cachedTensorData := by
    rw [cacheAfterPending, hpending, hup]
    rfl
  refine ⟨h.consistent, fun _ => ?_, fun hsome => ?_, .inr rfl, nofun, fun hwarm => ?_⟩
  · have hknown := h.known hup
    rw [hcache] at hknown
    rw [cacheAfterPending, pending, hprepared]
    exact hknown
  · rw [pending, hprepared] at hsome
    cases hsome
  · have hnone := (h.warm hwarm).2.1
    cases hrequested.symm.trans hnone

theorem discard (h : s.Coherent) (key : StructureKey) :
    Coherent { s with trainer := s.trainer.discard key } := by
  refine ⟨h.consistent.discard key, fun hup => (h.known hup).discard key, h.ready, h.onePending,
    h.absent, fun hwarm => ?_⟩
  obtain ⟨hempty, hnone, hids⟩ := h.warm hwarm
  refine ⟨hempty, hnone, fun hprepared => ?_⟩
  simp only [TrainerCaches.discard, hids hprepared, List.filter_nil]

theorem fail (h : s.Coherent) : Coherent { s with worker := .down } := by
  refine ⟨h.consistent, nofun, fun hsome hwarm => ?_, h.onePending, nofun, fun hwarm => ?_⟩
  · have hempty := (h.warm (hwarm rfl)).1
    have hready := h.ready hsome fun _ => hwarm rfl
    rwa [hempty] at hready
  · exact ⟨rfl, (h.warm hwarm).2⟩

theorem close (h : s.Coherent) (hprepared : s.prepared = none) :
    Coherent { s with worker := .absent, requested := none, warm := false } := by
  refine ⟨h.consistent, nofun, fun hsome => ?_, .inr rfl, fun _ => rfl, nofun⟩
  rw [pending, hprepared] at hsome
  cases hsome

/-- A worker is started by the request for a save. -/
theorem started (hready : Ready s.trainer.shm .empty save data) :
    Coherent { s with
      trainer := s.trainer.cleanupTensorCaches
      prepared := none
      requested := some (save, data)
      worker := .up .empty
      warm := false } := by
  refine ⟨consistent_cleanup s.trainer, fun _ => known_cleanup _ _, fun hsome _ => ?_, .inl rfl,
    nofun, nofun⟩
  cases hsome
  exact hready

/-- A worker that is there takes the request for a save. -/
theorem requested (h : s.Coherent) (hprepared : s.prepared = some (save, data))
    (hworker : s.worker.isAbsent = false) :
    Coherent { s with prepared := none, requested := some (save, data), warm := false } := by
  have hpending : s.pending = some (save, data) := by
    rw [pending, hprepared]
    rfl
  refine ⟨h.consistent, fun {cache} hup => ?_, fun hsome hdown => ?_, .inl rfl, fun habsent => ?_,
    nofun⟩
  · have hknown := h.known hup
    rw [cacheAfterPending, hpending] at hknown
    exact hknown
  · cases hsome
    exact h.ready hpending fun hisDown => absurd (hdown hisDown) Bool.false_ne_true
  · change s.worker = .absent at habsent
    rw [habsent] at hworker
    cases hworker

/-- A save without items is not requested. -/
theorem dropped (h : s.Coherent) (hempty : save.plan = [])
    (hprepared : s.prepared = some (save, data)) (hrequested : s.requested = none)
    {worker : Worker} (hworker : worker = s.worker ∨ worker = .absent) :
    Coherent { s with prepared := none, worker := worker, warm := false } := by
  have hpending : s.pending = some (save, data) := by
    rw [pending, hprepared]
    rfl
  have hitems : save.tensorItems = [] := by
    rw [Save.tensorItems, hempty]
    rfl
  refine ⟨h.consistent, fun {cache} hup => ?_, fun hsome => ?_, .inl rfl, fun _ => hrequested,
    nofun⟩
  · change worker = .up cache at hup
    rcases hworker with heq | heq
    · have hup' := heq.symm.trans hup
      have hready := h.ready hpending (by rw [hup']; exact nofun)
      have hknown := h.known hup'
      rw [cacheAfterPending, hpending] at hknown
      simp only [hready.identifier hitems, WorkerDataCache.after] at hknown
      simp only [cacheAfterPending, pending, hrequested, Option.or_none]
      rwa [heq]
    · cases heq.symm.trans hup
  · change (none : Option (Save × DataToPass)).or s.requested = some _ at hsome
    rw [hrequested] at hsome
    cases hsome

theorem getAsyncCaller_worker (s : CacheState) :
    s.getAsyncCaller.worker = s.worker ∨
      (s.warm = true ∧ s.worker = .down ∧ s.getAsyncCaller.worker = .absent) := by
  unfold CacheState.getAsyncCaller
  split
  · rename_i hwarm hdown
    exact .inr ⟨hwarm, hdown, rfl⟩
  · exact .inl rfl

theorem getAsyncCaller_eq (s : CacheState) :
    s.getAsyncCaller = { s with worker := s.getAsyncCaller.worker, warm := false } := by
  unfold CacheState.getAsyncCaller
  split <;> rfl

theorem scheduleAsyncCall (h : s.Coherent) (hprepared : s.prepared = some (save, data))
    (hrequested : s.requested = none) : (s.scheduleAsyncCall save data).Coherent := by
  have hpending : s.pending = some (save, data) := by
    rw [pending, hprepared]
    rfl
  unfold CacheState.scheduleAsyncCall
  rw [getAsyncCaller_eq]
  simp only
  split
  · rename_i hempty
    have hworker : s.getAsyncCaller.worker = s.worker ∨ s.getAsyncCaller.worker = .absent :=
      (getAsyncCaller_worker s).imp_right fun hboth => hboth.2.2
    exact h.dropped (List.isEmpty_iff.mp hempty) hprepared hrequested hworker
  · split
    · rename_i habsent
      refine started ?_
      rcases getAsyncCaller_worker s with hsame | ⟨hwarm, hdown, _⟩
      · have habsent' := hsame.symm.trans habsent
        have hready := h.ready hpending (by rw [habsent']; exact nofun)
        rwa [habsent'] at hready
      · have hready := h.ready hpending fun _ => hwarm
        rwa [hdown] at hready
    · rename_i hpresent
      rcases getAsyncCaller_worker s with hsame | ⟨_, _, habsent⟩
      · rw [hsame] at hpresent ⊢
        refine h.requested hprepared ?_
        cases hplace : s.worker with
        | absent => exact absurd hplace hpresent
        | up _ => rfl
        | down => rfl
      · exact absurd habsent hpresent

theorem warmup (h : s.Coherent) (hstep : s.step .warmup = some t) : t.Coherent := by
  simp only [CacheState.step] at hstep
  split at hstep
  · cases hstep
    exact h
  · rename_i habsent
    cases hstep
    have hrequested := h.absent habsent
    refine ⟨consistent_cleanup s.trainer, fun _ => known_cleanup _ _, fun hsome _ => ?_,
      .inr hrequested, nofun, fun _ => ⟨rfl, hrequested, fun _ => rfl⟩⟩
    have hready := h.ready hsome (by rw [habsent]; exact nofun)
    rwa [habsent] at hready
  · rename_i hwarm hpresent
    cases hstep
    refine ⟨consistent_cleanup s.trainer, fun _ => known_cleanup _ _, h.ready, h.onePending,
      fun habsent => absurd habsent hpresent, fun hwarm' => ?_⟩
    cases hwarm.symm.trans hwarm'

theorem step (h : s.Coherent) {event : CacheEvent} (hcond : s.safeToReuse event = true)
    (hstep : s.step event = some t) : t.Coherent := by
  cases event with
  | prepareWriteData save failed =>
    simp only [CacheState.step] at hstep
    split at hstep
    · rename_i hfree
      obtain ⟨hprepared, hrequested⟩ := (Bool.and_eq_true _ _).mp hfree
      cases hstep
      exact h.prepareWriteData (Option.isNone_iff_eq_none.mp hprepared)
        (Option.isNone_iff_eq_none.mp hrequested) failed hcond
    · cases hstep
  | scheduleAsyncCall =>
    simp only [CacheState.step] at hstep
    split at hstep
    · rename_i hprepared hrequested
      cases hstep
      exact h.scheduleAsyncCall hprepared hrequested
    · cases hstep
  | preload =>
    simp only [CacheState.step] at hstep
    split at hstep
    · rename_i cache save data hup hrequested
      obtain ⟨buckets, hpreload, _⟩ := (h.preload hup hrequested).preload
      rw [hpreload] at hstep
      cases hstep
      exact h.preloaded hup hrequested
    · cases hstep
  | retrieveFailure key =>
    cases hstep
    exact h.discard key
  | fail =>
    simp only [CacheState.step] at hstep
    split at hstep
    · cases hstep
      exact h.fail
    · cases hstep
  | close =>
    cases hstep
    exact h.close (Option.isNone_iff_eq_none.mp hcond)
  | warmup => exact h.warmup hstep

end Coherent

theorem coherent_of_reachable
    (hs : system.Reachable (fun s event => s.safeToReuse event = true) s) : s.Coherent := by
  refine System.Reachable.invariant (P := Coherent) ?_ (fun _ _ _ h hcond => h.step hcond) hs
  rintro s ⟨hids, hptrs, hshm, hprepared, hrequested, hworker, hwarm⟩
  refine ⟨⟨fun hget => ?_, fun hget => ?_⟩, fun hup => ?_, fun hsome => ?_, .inl hprepared,
    fun _ => hrequested, fun hwarm' => ?_⟩
  · rw [hptrs] at hget
    cases hget
  · rw [hshm] at hget
    cases hget
  · cases hworker.symm.trans hup
  · rw [pending, hprepared, hrequested] at hsome
    cases hsome
  · cases hwarm.symm.trans hwarm'

/-- A preload finds what it needs, and writes every tensor of the plan, with its index and its
chunk, from its own storage. -/
theorem preload_coherent
    (hs : system.Reachable (fun s event => s.safeToReuse event = true) s)
    {cache : WorkerDataCache} {save : Save} {data : DataToPass} (hup : s.worker = .up cache)
    (hrequested : s.requested = some (save, data)) :
    ∃ result, preloadTensors cache data = .ok result ∧
      (readPairs s.trainer.shm (result.2.flatMap WriteBucket.tensorData)).Perm
        (save.ownPairs save.tensorItems) := by
  obtain ⟨buckets, hpreload, hpairs⟩ := ((coherent_of_reachable hs).preload hup hrequested).preload
  exact ⟨_, hpreload, hpairs⟩

/-! ## A save of one tensor -/

def weight : WriteItem where
  fqn := "w"
  type := .tensor
  tensorData := some ⟨⟨[0], [4]⟩, ⟨"torch.float32", 4⟩⟩
  tensorData_eq_none_iff := by decide

/-- The tensor of `weight` at an address of the GPU. -/
def saveAt (dataPtr : Nat) : Save where
  useCachedDataStructure := true
  useCpuShm := false
  separationHint := none
  threadCount := 1
  plan := [weight]
  tensor _ := ⟨⟨.cuda 0, dataPtr, dataPtr, 0, [4], [1], "torch.float32"⟩, false⟩
  bytes _ := []
  bins_pos := by decide

def newTrainer : CacheState where
  trainer := ⟨[], .empty, .empty, fun _ => none, 0⟩
  prepared := none
  requested := none
  worker := .absent
  warm := false

theorem init_newTrainer : system.init newTrainer :=
  ⟨rfl, rfl, rfl, rfl, rfl, rfl, rfl⟩

/-- A save up to its preload. -/
def saveOnce (dataPtr : Nat) : List CacheEvent :=
  [.prepareWriteData (saveAt dataPtr) [], .scheduleAsyncCall, .preload]

/-- The request of the state is a save that sends no tensors. -/
def requestsReuse (s : CacheState) : Bool :=
  match s.requested with
  | some (save, data) => data.identifier = some save.key && data.cachedTensorData.isNone
  | none => false

/-- The worker is up, and has no data. -/
def workerIsEmpty (s : CacheState) : Bool :=
  match s.worker with
  | .up cache => cache.entries.isEmpty
  | .absent | .down => false

/-- The third save finds the tensors of the second one. -/
theorem preload_coherent_reuse :
    ∃ (s : CacheState) (cache : WorkerDataCache) (save : Save) (data : DataToPass),
      system.Reachable (fun s event => s.safeToReuse event = true) s ∧ s.worker = .up cache ∧
      s.requested = some (save, data) ∧ data.cachedTensorData = none ∧
      ∃ result, preloadTensors cache data = .ok result ∧
        (readPairs s.trainer.shm (result.2.flatMap WriteBucket.tensorData)).Perm
          (save.ownPairs save.tensorItems) := by
  have hrun : (system.execute (fun s event => CacheState.safeToReuse s event = true) newTrainer
      (saveOnce 8 ++ saveOnce 8 ++ [.prepareWriteData (saveAt 8) [], .scheduleAsyncCall])).any
        (fun s => requestsReuse s && !s.worker.isAbsent && !s.worker.isDown) = true := by
    decide +kernel
  obtain ⟨s, hs, htest⟩ := System.exists_reachable_of_execute init_newTrainer hrun
  obtain ⟨hboth, hnotDown⟩ := (Bool.and_eq_true _ _).mp htest
  obtain ⟨hreuse, hnotAbsent⟩ := (Bool.and_eq_true _ _).mp hboth
  cases hworker : s.worker with
  | absent =>
    rw [hworker] at hnotAbsent
    cases hnotAbsent
  | down =>
    rw [hworker] at hnotDown
    cases hnotDown
  | up cache =>
    cases hrequested : s.requested with
    | none =>
      rw [requestsReuse, hrequested] at hreuse
      cases hreuse
    | some request =>
      rw [requestsReuse, hrequested] at hreuse
      have hnone := ((Bool.and_eq_true _ _).mp hreuse).2
      exact ⟨s, cache, request.1, request.2, hs, hworker, hrequested,
        Option.isNone_iff_eq_none.mp hnone, preload_coherent hs hworker hrequested⟩

/-- The first save after the worker was closed sends nothing, and the new worker has
nothing. -/
theorem cache_miss_after_close :
    ∃ (s : CacheState) (cache : WorkerDataCache) (save : Save) (data : DataToPass),
      system.Reachable (fun _ _ => True) s ∧ s.worker = .up cache ∧
      s.requested = some (save, data) ∧
      preloadTensors cache data = .error (.cacheMiss save.key) := by
  have hrun : (system.execute (fun _ _ => True) newTrainer
      (saveOnce 8 ++ saveOnce 8 ++
        [.close, .prepareWriteData (saveAt 8) [], .scheduleAsyncCall])).any
        (fun s => requestsReuse s && workerIsEmpty s) = true := by
    decide +kernel
  obtain ⟨s, hs, htest⟩ := System.exists_reachable_of_execute init_newTrainer hrun
  obtain ⟨hreuse, hempty⟩ := (Bool.and_eq_true _ _).mp htest
  cases hworker : s.worker with
  | absent | down =>
    rw [workerIsEmpty, hworker] at hempty
    cases hempty
  | up cache =>
    rw [workerIsEmpty, hworker] at hempty
    cases hrequested : s.requested with
    | none =>
      rw [requestsReuse, hrequested] at hreuse
      cases hreuse
    | some request =>
      rw [requestsReuse, hrequested] at hreuse
      obtain ⟨hkey, hnone⟩ := (Bool.and_eq_true _ _).mp hreuse
      refine ⟨s, cache, request.1, request.2, hs, hworker, hrequested, ?_⟩
      have hmiss : cache.get? request.1.key = none := by
        rw [Dict.get?, List.isEmpty_iff.mp hempty]
        rfl
      unfold preloadTensors
      rw [of_decide_eq_true hkey, Option.isNone_iff_eq_none.mp hnone]
      simp only [WorkerDataCache.lookup, hmiss]
      rfl

end CacheState

end ResiliencyExt.Checkpointing.AsyncCkpt
