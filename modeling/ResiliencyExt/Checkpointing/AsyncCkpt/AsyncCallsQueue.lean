import Mathlib.Data.List.Basic

set_option autoImplicit false

/-!
# Asynchronous checkpoints: the queue of async calls

One rank's `AsyncCallsQueue`, its callers and their background processes.  A
persistent caller hands all requests of the queue to one worker process, which
works them off in order; a temporal caller starts one writer process for one
request.

The training process is interrupted where it waits: in a blocking poll, in the
collectives, in the join of a writer and in the join of the worker at a close.
`Control` says where it stands.  What the collectives return depends on the other
ranks and is an input of the step (`SyncInput`).

A request is told apart by its serial number, the number of requests scheduled
before it.  The code does not have that number; it is carried along so that what
a process has done can be attributed to a request.
-/

namespace ResiliencyExt.Checkpointing.AsyncCkpt

/-! ## Requests and callers -/

/-- An `AsyncRequest`, as far as the queue reads it. -/
structure AsyncRequest where
  /-- `async_fn` is not `None`. -/
  hasAsyncFn : Bool
  callIdx : Int
  /-- One of its finalize functions raises. -/
  raises : Bool
  deriving DecidableEq, Repr

/-- The copy of a request that a worker gets, or the item it puts for it on `comp_q`. -/
structure WorkItem where
  callIdx : Int
  serial : Nat
  deriving DecidableEq, Repr

structure PersistentAsyncCaller where
  /-- The worker, with what was put on its queue and is not done. -/
  process : Option (List WorkItem)
  compQ : List WorkItem
  curItem : Option WorkItem
  deriving DecidableEq, Repr

inductive Writer where
  | running
  | exited
  deriving DecidableEq, Repr

/-- The caller of an active call. -/
inductive AsyncCaller where
  /-- A `TemporalAsyncCaller` of its own. -/
  | temporal (process : Option Writer)
  /-- The persistent caller of the queue. -/
  | persistent
  /-- A persistent caller that was closed: its process is `None`. -/
  | closed
  deriving DecidableEq, Repr

/-- `_ActiveAsyncRequest` -/
structure ActiveAsyncRequest where
  idx : Int
  asyncCaller : AsyncCaller
  asyncRequest : AsyncRequest
  serial : Nat
  deriving DecidableEq, Repr

structure AsyncCallsQueue where
  persistent : Bool
  cpuShmMode : Bool
  asyncCalls : List ActiveAsyncRequest
  callIdx : Int
  persistentCaller : Option PersistentAsyncCaller
  /-- `_warmup_persistent_caller` holds a caller whose worker is running. -/
  warmup : Bool
  /-- `_shm_drain_callback` is the one this queue registered. -/
  drainCallback : Bool
  deriving DecidableEq, Repr

namespace PersistentAsyncCaller

/-- `schedule_async_call` -/
def scheduleAsyncCall (caller : PersistentAsyncCaller) (request : AsyncRequest)
    (serial : Nat) : PersistentAsyncCaller :=
  if request.hasAsyncFn then
    { caller with process := some (caller.process.getD [] ++ [⟨request.callIdx, serial⟩]) }
  else caller

/-- The loop of `is_current_async_call_done` and the `is_alive` it ends with; `none` while
a blocking poll finds `comp_q` empty. -/
def poll (caller : PersistentAsyncCaller) (blocking : Bool) :
    Option (PersistentAsyncCaller × Bool) :=
  match caller.process, caller.curItem, caller.compQ with
  | none, _, _ => some (caller, false)
  | some _, some _, _ => some (caller, false)
  | some _, none, item :: rest =>
    some ({ caller with curItem := some item, compQ := rest }, false)
  | some _, none, [] => if blocking then none else some (caller, true)

/-- The worker completes the request at the head of its queue and puts the index on
`comp_q`. -/
def finish (caller : PersistentAsyncCaller) : Option (PersistentAsyncCaller × WorkItem) :=
  match caller.process with
  | some (item :: rest) =>
    some ({ caller with process := some rest, compQ := caller.compQ ++ [item] }, item)
  | _ => none

end PersistentAsyncCaller

/-- The reference of an active call to a persistent caller that is closed. -/
def AsyncCaller.close : AsyncCaller → AsyncCaller
  | .persistent => .closed
  | caller => caller

namespace AsyncCallsQueue

/-- `AsyncCallsQueue(persistent, cpu_shm_mode)` -/
def fresh (persistent cpuShmMode : Bool) : AsyncCallsQueue where
  persistent := persistent
  cpuShmMode := cpuShmMode
  asyncCalls := []
  callIdx := -1
  persistentCaller := none
  warmup := false
  drainCallback := cpuShmMode

/-- `_get_async_caller` of a persistent queue. -/
def getAsyncCaller (queue : AsyncCallsQueue) : AsyncCallsQueue × PersistentAsyncCaller :=
  match queue.persistentCaller with
  | some caller => (queue, caller)
  | none =>
    if queue.warmup then ({ queue with warmup := false }, ⟨some [], [], none⟩)
    else (queue, ⟨none, [], none⟩)

/-- `schedule_async_request`, and the index it returns. -/
def scheduleAsyncRequest (queue : AsyncCallsQueue) (request : AsyncRequest) (serial : Nat) :
    AsyncCallsQueue × Int :=
  let idx := queue.callIdx + 1
  if queue.persistent then
    let (queue, caller) := queue.getAsyncCaller
    ({ queue with
        callIdx := idx
        persistentCaller :=
          some (caller.scheduleAsyncCall { request with callIdx := idx } serial)
        asyncCalls := queue.asyncCalls ++ [⟨idx, .persistent, request, serial⟩] }, idx)
  else
    ({ queue with
        callIdx := idx
        asyncCalls := queue.asyncCalls ++
          [⟨idx, .temporal (if request.hasAsyncFn then some .running else none),
            request, serial⟩] }, idx)

/-- `is_current_async_call_done` of the head up to `is_alive`; `none` while it waits. -/
def isAlive (queue : AsyncCallsQueue) (caller : AsyncCaller) (blocking : Bool) :
    Option (AsyncCallsQueue × Bool) :=
  match caller, queue.persistentCaller with
  | .temporal process, _ => some (queue, process = some .running)
  | .persistent, some persistentCaller =>
    (persistentCaller.poll blocking).map fun (next, alive) =>
      ({ queue with persistentCaller := some next }, alive)
  | _, _ => some (queue, false)

/-- `cur_item = None` in the persistent caller. -/
def resetCurItem (queue : AsyncCallsQueue) : AsyncCallsQueue :=
  { queue with persistentCaller := queue.persistentCaller.map fun caller =>
      { caller with curItem := none } }

/-- The end of `close`: the callers are closed and the parameters reset. -/
def reset (queue : AsyncCallsQueue) : AsyncCallsQueue :=
  { queue with
    asyncCalls := queue.asyncCalls.map fun call =>
      { call with asyncCaller := call.asyncCaller.close }
    callIdx := -1
    persistentCaller := none
    warmup := false }

/-- The first lines of `close`. -/
def clearDrainCallback (queue : AsyncCallsQueue) : AsyncCallsQueue :=
  { queue with drainCallback := queue.drainCallback && !queue.cpuShmMode }

/-- The writer process of the active call at position `i` exits. -/
def exitWriter (queue : AsyncCallsQueue) (i : Nat) : Option (AsyncCallsQueue × Nat) :=
  match queue.asyncCalls[i]? with
  | some ⟨idx, .temporal (some .running), request, serial⟩ =>
    some ({ queue with asyncCalls :=
      queue.asyncCalls.set i ⟨idx, .temporal (some .exited), request, serial⟩ }, serial)
  | _ => none

end AsyncCallsQueue

/-! ## The training process -/

/-- A running `maybe_finalize_async_calls`, called by the user, by the drain callback or
from `close`. -/
structure FinalizeCall where
  blocking : Bool
  noDist : Bool
  closing : Bool
  /-- `call_idx_finalized` -/
  callIdxFinalized : List Int
  deriving DecidableEq, Repr

inductive Control where
  | idle
  /-- At `while self.async_calls`. -/
  | looping (call : FinalizeCall)
  /-- In `sync_all_async_calls`. -/
  | syncing (call : FinalizeCall) (isAlive : Bool)
  /-- In the join of a temporal caller. -/
  | joining (call : FinalizeCall)
  /-- About to take the head off the queue and run its finalize functions. -/
  | finalizing (call : FinalizeCall)
  /-- In the `all_reduce` of `execute_finalize_fns`. -/
  | validating (call : FinalizeCall) (callIdx : Int)
  /-- `close` of the persistent caller. -/
  | closing
  deriving DecidableEq, Repr

/-- What the collectives bring from the other ranks: how many of them have a request
alive, and the maximum of all call indices. -/
structure SyncInput where
  others : Nat
  maxCallIdx : Int
  deriving DecidableEq, Repr

structure QueueState where
  queue : AsyncCallsQueue
  control : Control
  deriving DecidableEq, Repr

/-- What a step tells the outside. -/
inductive Output where
  | silent
  /-- A request was scheduled and given this index. -/
  | scheduled (idx : Int) (hasAsyncFn : Bool)
  /-- The `async_fn` of a request returned. -/
  | completed (serial : Nat)
  /-- The finalize functions of a request were run. -/
  | finalized (serial : Nat)
  | returned (callIdxFinalized : List Int)
  /-- The queue was closed or aborted. -/
  | closed
  deriving DecidableEq, Repr

inductive QueueEvent where
  | schedule (request : AsyncRequest)
  | maybeFinalize (blocking noDist : Bool)
  /-- `prepare_write_data` is about to reuse shared memory. -/
  | prepareWriteData
  /-- `warmup_persistent_caller` -/
  | warmup
  /-- `close`, `abort_nvrx_checkpoint` or the deletion of the queue. -/
  | close (abort : Bool)
  /-- The training process goes on. -/
  | main (input : SyncInput)
  /-- The worker completes a request. -/
  | finish
  /-- The writer of an active call completes its request. -/
  | finishWriter (i : Nat)
  /-- The writer of an active call dies. -/
  | dieWriter (i : Nat)
  deriving DecidableEq, Repr

namespace QueueState

/-- `return call_idx_finalized` -/
def ret (queue : AsyncCallsQueue) (call : FinalizeCall) : QueueState × Output :=
  (⟨queue, if call.closing then .closing else .idle⟩, .returned call.callIdxFinalized)

/-- The end of `is_current_async_call_done`, once it is known whether all ranks are done. -/
def conclude (queue : AsyncCallsQueue) (caller : AsyncCaller) (call : FinalizeCall)
    (isDone : Bool) : QueueState × Output :=
  match caller with
  | .temporal _ =>
    if isDone || call.blocking then (⟨queue, .joining call⟩, .silent) else ret queue call
  | .persistent =>
    if isDone then (⟨queue.resetCurItem, .finalizing call⟩, .silent) else ret queue call
  | .closed => if isDone then (⟨queue, .finalizing call⟩, .silent) else ret queue call

/-- `popleft` and `execute_finalize_fns`, up to the check of the call index. -/
def finalizeHead (queue : AsyncCallsQueue) (call : FinalizeCall) : Option (QueueState × Output) :=
  match queue.asyncCalls with
  | [] => none
  | head :: rest =>
    let queue := { queue with asyncCalls := rest }
    let next :=
      if head.asyncRequest.raises then .idle
      else if call.noDist then
        .looping { call with
          callIdxFinalized := call.callIdxFinalized ++ [head.asyncRequest.callIdx] }
      else .validating call head.asyncRequest.callIdx
    some (⟨queue, next⟩, .finalized head.serial)

/-- The training process goes on from where it stands. -/
def mainStep (queue : AsyncCallsQueue) (input : SyncInput) :
    Control → Option (QueueState × Output)
  | .idle => none
  | .looping call =>
    match queue.asyncCalls with
    | [] => some (ret queue call)
    | head :: _ =>
      (queue.isAlive head.asyncCaller call.blocking).map fun (queue, alive) =>
        if call.noDist then conclude queue head.asyncCaller call (!alive)
        else (⟨queue, .syncing call alive⟩, .silent)
  | .syncing call alive =>
    queue.asyncCalls.head?.map fun head =>
      conclude queue head.asyncCaller call (!alive && input.others = 0)
  | .joining call =>
    match queue.asyncCalls with
    | ⟨idx, .temporal process, request, serial⟩ :: rest =>
      if process = some .running then none
      else
        some (⟨{ queue with asyncCalls := ⟨idx, .temporal none, request, serial⟩ :: rest },
          .finalizing call⟩, .silent)
    | _ => none
  | .finalizing call => finalizeHead queue call
  | .validating call callIdx =>
    if input.maxCallIdx = callIdx then
      some (⟨queue, .looping { call with
        callIdxFinalized := call.callIdxFinalized ++ [callIdx] }⟩, .silent)
    else some (⟨queue, .idle⟩, .silent)
  | .closing =>
    -- the worker is joined when it has worked off its queue
    match queue.persistentCaller with
    | some ⟨some (_ :: _), _, _⟩ => none
    | _ => some (⟨queue.reset, .idle⟩, .closed)

/-- `close` up to its first wait. -/
def close (queue : AsyncCallsQueue) (abort : Bool) : QueueState × Output :=
  let cleared := queue.clearDrainCallback
  if abort then (⟨cleared.reset, .idle⟩, .closed)
  else if queue.persistent = false ∨ queue.persistentCaller.isSome then
    (⟨cleared, .looping ⟨true, false, true, []⟩⟩, .silent)
  else (⟨cleared.reset, .idle⟩, .closed)

/-- One step; a request that is scheduled is given the serial number `serial`. -/
def step (serial : Nat) (state : QueueState) : QueueEvent → Option (QueueState × Output)
  | .schedule request =>
    if state.control = .idle then
      let (queue, idx) := state.queue.scheduleAsyncRequest request serial
      some (⟨queue, .idle⟩, .scheduled idx request.hasAsyncFn)
    else none
  | .maybeFinalize blocking noDist =>
    if state.control = .idle then
      some (⟨state.queue, .looping ⟨blocking, noDist, false, []⟩⟩, .silent)
    else none
  | .prepareWriteData =>
    if state.control = .idle then
      if state.queue.drainCallback then
        some (⟨state.queue, .looping ⟨true, true, false, []⟩⟩, .silent)
      else some (state, .silent)
    else none
  | .warmup =>
    if state.control = .idle then
      some (⟨{ state.queue with warmup := true }, .idle⟩, .silent)
    else none
  | .close abort => if state.control = .idle then some (close state.queue abort) else none
  | .main input => mainStep state.queue input state.control
  | .finish =>
    (state.queue.persistentCaller.bind PersistentAsyncCaller.finish).map fun (caller, item) =>
      (⟨{ state.queue with persistentCaller := some caller }, state.control⟩,
        .completed item.serial)
  | .finishWriter i =>
    (state.queue.exitWriter i).map fun (queue, done) =>
      (⟨queue, state.control⟩, .completed done)
  | .dieWriter i =>
    (state.queue.exitWriter i).map fun (queue, _) => (⟨queue, state.control⟩, .silent)

end QueueState

/-! ## What has happened -/

structure History where
  /-- The number of requests scheduled. -/
  scheduled : Nat
  /-- The requests that are done in the background; one without `async_fn` is from the
  beginning. -/
  completed : List Nat
  /-- The requests whose finalize functions were run, in order. -/
  finalized : List Nat
  /-- The indices returned by `schedule_async_request` since the last close. -/
  indices : List Int
  /-- The lists returned by `maybe_finalize_async_calls` since the last close. -/
  returned : List Int
  deriving DecidableEq, Repr

namespace History

def empty : History :=
  ⟨0, [], [], [], []⟩

def record (history : History) : Output → History
  | .silent => history
  | .scheduled idx hasAsyncFn =>
    { history with
      scheduled := history.scheduled + 1
      completed :=
        if hasAsyncFn then history.completed else history.completed ++ [history.scheduled]
      indices := history.indices ++ [idx] }
  | .completed serial => { history with completed := history.completed ++ [serial] }
  | .finalized serial => { history with finalized := history.finalized ++ [serial] }
  | .returned callIdxFinalized =>
    { history with returned := history.returned ++ callIdxFinalized }
  | .closed => { history with indices := [], returned := [] }

end History

/-- A queue and what has happened on it. -/
structure RankState where
  state : QueueState
  history : History
  deriving DecidableEq, Repr

namespace RankState

def fresh (persistent cpuShmMode : Bool) : RankState :=
  ⟨⟨.fresh persistent cpuShmMode, .idle⟩, .empty⟩

def step (rank : RankState) (event : QueueEvent) : Option RankState :=
  (rank.state.step rank.history.scheduled event).map fun (state, output) =>
    ⟨state, rank.history.record output⟩

end RankState

end ResiliencyExt.Checkpointing.AsyncCkpt
