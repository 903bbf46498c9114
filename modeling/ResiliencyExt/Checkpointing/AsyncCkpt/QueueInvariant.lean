import ResiliencyExt.Checkpointing.AsyncCkpt.AsyncCallsQueue

set_option autoImplicit false

/-!
# The queue, its worker and its completion queue stay in step

The invariant of one rank's queue as long as it is not closed and no writer dies.
The active calls carry consecutive serial numbers that begin where the finalized
ones end.  The requests of the active calls that have an `async_fn` are, in order:
some that were taken off `comp_q` too early (for a call without `async_fn`), the one
in `cur_item`, those on `comp_q`, and those the worker still has.  All but the last
are completed, and a call that is about to be finalized is one of them.
-/

namespace ResiliencyExt.Checkpointing.AsyncCkpt

open List
open Option (map_eq_some_iff some)

/-! ## Where the training process stands -/

namespace Control

/-- The running `maybe_finalize_async_calls`. -/
def call? : Control → Option FinalizeCall
  | .idle | .closing => none
  | .looping call | .syncing call _ | .joining call | .finalizing call | .validating call _ =>
    some call

/-- In the collective of `sync_all_async_calls`. -/
def inSync : Control → Bool
  | .syncing _ _ => true
  | _ => false

/-- In the collective of `execute_finalize_fns`. -/
def inValidation : Control → Bool
  | .validating _ _ => true
  | _ => false

/-- In `sync_all_async_calls` in a blocking call. -/
def blocksInSync : Control → Bool
  | .syncing call _ => call.blocking
  | _ => false

/-- The flag contributed to `sync_all_async_calls`. -/
def isAlive : Control → Bool
  | .syncing _ alive => alive
  | _ => false

/-- The index contributed to the check of `execute_finalize_fns`. -/
def callIdx : Control → Int
  | .validating _ callIdx => callIdx
  | _ => 0

/-- The head of the queue is being asked for. -/
def asks : Control → Bool
  | .looping _ | .syncing _ _ => true
  | _ => false

end Control

/-! ## What is under way -/

/-- The call went through the worker of the persistent caller. -/
def ActiveAsyncRequest.viaWorker (call : ActiveAsyncRequest) : Bool :=
  call.asyncCaller = .persistent && call.asyncRequest.hasAsyncFn

/-- The serial numbers of the calls that went through the worker. -/
def realSerials (calls : List ActiveAsyncRequest) : List Nat :=
  (calls.filter ActiveAsyncRequest.viaWorker).map fun call => call.serial

@[simp] theorem realSerials_nil : realSerials [] = [] := rfl

theorem realSerials_cons (call : ActiveAsyncRequest) (calls : List ActiveAsyncRequest) :
    realSerials (call :: calls) =
      if call.viaWorker then call.serial :: realSerials calls else realSerials calls := by
  unfold realSerials
  rw [filter_cons]
  split <;> rfl

theorem realSerials_append (calls more : List ActiveAsyncRequest) :
    realSerials (calls ++ more) = realSerials calls ++ realSerials more := by
  simp [realSerials]

namespace PersistentAsyncCaller

/-- A caller without a worker. -/
def new : PersistentAsyncCaller := ⟨none, [], none⟩

/-- The completed requests the training process has not done with. -/
def done (caller : PersistentAsyncCaller) : List Nat :=
  (caller.curItem.toList ++ caller.compQ).map fun item => item.serial

/-- The requests the worker still has. -/
def queued (caller : PersistentAsyncCaller) : List Nat :=
  (caller.process.getD []).map fun item => item.serial

/-- A poll has found the current request done. -/
def Polled (caller : PersistentAsyncCaller) : Prop :=
  caller.curItem.isSome = true ∨ caller.process = none

/-- What a poll can do. -/
theorem poll_cases {caller next : PersistentAsyncCaller} {blocking alive : Bool}
    (hpoll : caller.poll blocking = some (next, alive)) :
    (next = caller ∧ caller.Polled ∧ alive = false) ∨
      (∃ item rest, caller.curItem = none ∧ caller.compQ = item :: rest ∧
        next = { caller with curItem := some item, compQ := rest } ∧
        caller.process ≠ none ∧ alive = false) ∨
      (next = caller ∧ alive = true ∧ blocking = false) := by
  obtain ⟨process, compQ, curItem⟩ := caller
  cases process with
  | none =>
    simp only [PersistentAsyncCaller.poll, some.injEq, Prod.mk.injEq] at hpoll
    exact .inl ⟨hpoll.1.symm, .inr rfl, hpoll.2.symm⟩
  | some items =>
    cases curItem with
    | some item =>
      simp only [PersistentAsyncCaller.poll, some.injEq, Prod.mk.injEq] at hpoll
      exact .inl ⟨hpoll.1.symm, .inl rfl, hpoll.2.symm⟩
    | none =>
      cases compQ with
      | cons item rest =>
        simp only [PersistentAsyncCaller.poll, some.injEq, Prod.mk.injEq] at hpoll
        exact .inr (.inl ⟨item, rest, rfl, rfl, hpoll.1.symm, by simp, hpoll.2.symm⟩)
      | nil =>
        cases blocking with
        | true => simp [PersistentAsyncCaller.poll] at hpoll
        | false =>
          simp only [PersistentAsyncCaller.poll, Bool.false_eq_true, if_false,
            some.injEq, Prod.mk.injEq] at hpoll
          exact .inr (.inr ⟨hpoll.1.symm, hpoll.2.symm, rfl⟩)

/-- A poll that ends without finding the request alive has found it done. -/
theorem polled_of_poll {caller next : PersistentAsyncCaller} {blocking : Bool}
    (hpoll : caller.poll blocking = some (next, false)) : next.Polled := by
  rcases poll_cases hpoll with ⟨rfl, h, -⟩ | ⟨item, rest, -, -, rfl, -, -⟩ | ⟨-, h, -⟩
  · exact h
  · exact .inl rfl
  · cases h

/-- A blocking poll goes on until the request is done. -/
theorem not_alive_of_poll_blocking {caller next : PersistentAsyncCaller} {alive : Bool}
    (hpoll : caller.poll true = some (next, alive)) : alive = false := by
  rcases poll_cases hpoll with ⟨-, -, h⟩ | ⟨item, rest, -, -, -, -, h⟩ | ⟨-, -, h⟩
  · exact h
  · exact h
  · cases h

/-- What the worker can do. -/
theorem finish_cases {caller next : PersistentAsyncCaller} {item : WorkItem}
    (hfinish : caller.finish = some (next, item)) :
    ∃ rest, caller.process = some (item :: rest) ∧
      next = { caller with process := some rest, compQ := caller.compQ ++ [item] } := by
  obtain ⟨process, compQ, curItem⟩ := caller
  match process, hfinish with
  | some (head :: rest), hfinish =>
    simp only [PersistentAsyncCaller.finish, some.injEq, Prod.mk.injEq] at hfinish
    obtain ⟨rfl, rfl⟩ := hfinish
    exact ⟨rest, rfl, rfl⟩

/-- The requests `reals` pass through the caller in order; `early` were taken off it for
another request. -/
structure Pipeline (caller : PersistentAsyncCaller) (completed reals early : List Nat) :
    Prop where
  order : reals = early ++ caller.done ++ caller.queued
  early : ∀ serial ∈ early, serial ∈ completed
  done : ∀ serial ∈ caller.done, serial ∈ completed
  asleep : caller.process = none → caller.curItem = none ∧ caller.compQ = []

namespace Pipeline

variable {caller : PersistentAsyncCaller} {completed reals early : List Nat}

theorem mono (h : caller.Pipeline completed reals early) {more : List Nat}
    (hmore : ∀ serial ∈ completed, serial ∈ more) : caller.Pipeline more reals early :=
  ⟨h.order, fun _ hmem => hmore _ (h.early _ hmem), fun _ hmem => hmore _ (h.done _ hmem),
    h.asleep⟩

theorem scheduleAsyncCall (h : caller.Pipeline completed reals early)
    (request : AsyncRequest) (serial : Nat) :
    (caller.scheduleAsyncCall request serial).Pipeline completed
      (reals ++ if request.hasAsyncFn then [serial] else []) early := by
  unfold PersistentAsyncCaller.scheduleAsyncCall
  split
  · refine ⟨?_, h.early, h.done, by simp⟩
    rw [h.order]
    simp [PersistentAsyncCaller.queued, PersistentAsyncCaller.done]
  · simpa using h

/-- A poll only moves the head of `comp_q` to `cur_item`. -/
theorem poll (h : caller.Pipeline completed reals early) {blocking alive : Bool}
    {next : PersistentAsyncCaller} (hpoll : caller.poll blocking = some (next, alive)) :
    next.Pipeline completed reals early := by
  rcases poll_cases hpoll with ⟨rfl, -, -⟩ | ⟨item, rest, hitem, hcompQ, rfl, hworker, -⟩ |
      ⟨rfl, -, -⟩
  · exact h
  · have hsame : PersistentAsyncCaller.done { caller with curItem := some item, compQ := rest }
        = caller.done := by
      simp [PersistentAsyncCaller.done, hitem, hcompQ]
    refine ⟨?_, h.early, ?_, fun hnone => ?_⟩
    · rw [hsame]
      exact h.order
    · rw [hsame]
      exact h.done
    · exact absurd hnone hworker
  · exact h

/-- The worker's next request moves to `comp_q`. -/
theorem finish (h : caller.Pipeline completed reals early) {next : PersistentAsyncCaller}
    {item : WorkItem} (hfinish : caller.finish = some (next, item)) :
    next.Pipeline (completed ++ [item.serial]) reals early := by
  obtain ⟨rest, hworker, rfl⟩ := finish_cases hfinish
  have hdone : PersistentAsyncCaller.done
      { caller with process := some rest, compQ := caller.compQ ++ [item] } =
        caller.done ++ [item.serial] := by
    simp [PersistentAsyncCaller.done]
  refine ⟨?_, fun serial hmem => mem_append_left _ (h.early _ hmem), ?_, by simp⟩
  · rw [h.order, hdone]
    simp [PersistentAsyncCaller.queued, hworker]
  · intro serial hmem
    rw [hdone] at hmem
    rcases mem_append.mp hmem with hmem | hmem
    · exact mem_append_left _ (h.done _ hmem)
    · exact mem_append_right _ hmem

/-- What was taken off the caller, the current item included. -/
theorem takeCurItem (h : caller.Pipeline completed reals early) :
    ({ caller with curItem := none } : PersistentAsyncCaller).Pipeline completed reals
      (early ++ caller.curItem.toList.map fun item => item.serial) := by
  have hdone : caller.done = (caller.curItem.toList.map fun item => item.serial) ++
      PersistentAsyncCaller.done { caller with curItem := none } := by
    simp [PersistentAsyncCaller.done]
  refine ⟨?_, ?_, ?_, fun hnone => ⟨rfl, (h.asleep hnone).2⟩⟩
  · rw [h.order, hdone]
    simp [PersistentAsyncCaller.queued]
  · intro serial hmem
    rcases mem_append.mp hmem with hmem | hmem
    · exact h.early _ hmem
    · exact h.done _ (by rw [hdone]; exact mem_append_left _ hmem)
  · intro serial hmem
    exact h.done _ (by rw [hdone]; exact mem_append_right _ hmem)

/-- Once a request that went to the worker was found done, something was taken off the
caller, and the first such thing is that request. -/
theorem resetCurItem {serial : Nat} {rest : List Nat}
    (h : caller.Pipeline completed (serial :: rest) early) (hpolled : caller.Polled) :
    serial ∈ completed ∧
      ({ caller with curItem := none } : PersistentAsyncCaller).Pipeline completed rest
        (early ++ caller.curItem.toList.map fun item => item.serial).tail := by
  have htaken := h.takeCurItem
  cases hearly : early ++ caller.curItem.toList.map fun item => item.serial with
  | nil =>
    -- nothing was taken, so there is no worker and nothing went through it
    obtain ⟨-, hitem⟩ := append_eq_nil_iff.mp hearly
    have hnone : caller.process = none := by
      rcases hpolled with hsome | hnone
      · cases hcur : caller.curItem with
        | none => simp [hcur] at hsome
        | some item => simp [hcur] at hitem
      · exact hnone
    have horder := htaken.order
    simp [hearly, PersistentAsyncCaller.done, PersistentAsyncCaller.queued, hnone,
      (h.asleep hnone).2] at horder
  | cons first others =>
    rw [hearly] at htaken
    have horder := htaken.order
    simp only [cons_append, List.cons.injEq] at horder
    obtain ⟨rfl, horder⟩ := horder
    exact ⟨htaken.early _ mem_cons_self, horder,
      fun other hmem => htaken.early _ (mem_cons_of_mem _ hmem), htaken.done,
      htaken.asleep⟩

end Pipeline

end PersistentAsyncCaller

/-! ## The kind of queue -/

/-- What only `close` changes. -/
def AsyncCallsQueue.mode (queue : AsyncCallsQueue) : Bool × Bool × Bool :=
  (queue.persistent, queue.cpuShmMode, queue.drainCallback)

theorem scheduleAsyncRequest_mode (queue : AsyncCallsQueue) (request : AsyncRequest)
    (serial : Nat) :
    (queue.scheduleAsyncRequest request serial).1.mode = queue.mode := by
  unfold AsyncCallsQueue.scheduleAsyncRequest AsyncCallsQueue.getAsyncCaller
    AsyncCallsQueue.mode
  grind

theorem isAlive_mode {queue next : AsyncCallsQueue} {caller : AsyncCaller}
    {blocking alive : Bool} (h : queue.isAlive caller blocking = some (next, alive)) :
    next.mode = queue.mode := by
  unfold AsyncCallsQueue.isAlive at h
  split at h
  · cases h
    rfl
  · obtain ⟨⟨polled, found⟩, -, hresult⟩ := map_eq_some_iff.mp h
    cases hresult
    rfl
  · cases h
    rfl

theorem exitWriter_mode {queue next : AsyncCallsQueue} {i serial : Nat}
    (h : queue.exitWriter i = some (next, serial)) : next.mode = queue.mode := by
  unfold AsyncCallsQueue.exitWriter at h
  split at h
  · cases h
    rfl
  · cases h

theorem conclude_mode (queue : AsyncCallsQueue) (caller : AsyncCaller)
    (call : FinalizeCall) (isDone : Bool) :
    (QueueState.conclude queue caller call isDone).1.queue.mode = queue.mode := by
  unfold QueueState.conclude QueueState.ret AsyncCallsQueue.resetCurItem
  split <;> split <;> rfl

theorem mainStep_mode {queue : AsyncCallsQueue} {input : SyncInput} {control : Control}
    {state : QueueState} {output : Output}
    (h : QueueState.mainStep queue input control = some (state, output)) :
    state.queue.mode = queue.mode := by
  unfold QueueState.mainStep at h
  split at h
  · cases h
  · split at h
    · cases h
      rfl
    · obtain ⟨⟨next, alive⟩, hcheck, hresult⟩ := map_eq_some_iff.mp h
      rw [← isAlive_mode hcheck]
      simp only at hresult
      split at hresult
      · rw [← conclude_mode next _ _ (!alive), hresult]
      · cases hresult
        rfl
  · obtain ⟨head, -, hresult⟩ := map_eq_some_iff.mp h
    rw [← conclude_mode queue head.asyncCaller _ _, hresult]
  · split at h
    · split at h
      · cases h
      · cases h
        rfl
    · cases h
  · unfold QueueState.finalizeHead at h
    split at h
    · cases h
    · cases h
      rfl
  · split at h
    · cases h
      rfl
    · cases h
      rfl
  · split at h
    · cases h
    · cases h
      rfl

/-- Only `close` changes the kind of queue: it takes the drain callback away. -/
theorem RankState.step_mode {rank next : RankState} {event : QueueEvent}
    (h : rank.step event = some next) :
    next.state.queue.mode = rank.state.queue.mode ∨
      next.state.queue.mode = rank.state.queue.clearDrainCallback.mode := by
  obtain ⟨⟨state, output⟩, hqueue, rfl⟩ := map_eq_some_iff.mp h
  cases event with
  | schedule request =>
    simp only [QueueState.step] at hqueue
    split at hqueue
    · cases hqueue
      exact .inl (scheduleAsyncRequest_mode _ _ _)
    · cases hqueue
  | main input => exact .inl (mainStep_mode hqueue)
  | close abort =>
    simp only [QueueState.step, QueueState.close] at hqueue
    split at hqueue
    · split at hqueue
      · cases hqueue
        exact .inr rfl
      · split at hqueue
        · cases hqueue
          exact .inr rfl
        · cases hqueue
          exact .inr rfl
    · cases hqueue
  | finish =>
    obtain ⟨⟨caller, item⟩, -, hresult⟩ := map_eq_some_iff.mp hqueue
    cases hresult
    exact .inl rfl
  | finishWriter i | dieWriter i =>
    obtain ⟨⟨queue, serial⟩, hexit, hresult⟩ := map_eq_some_iff.mp hqueue
    cases hresult
    exact .inl (exitWriter_mode hexit)
  | maybeFinalize blocking noDist =>
    simp only [QueueState.step] at hqueue
    split at hqueue
    · cases hqueue
      exact .inl rfl
    · cases hqueue
  | prepareWriteData =>
    simp only [QueueState.step] at hqueue
    split at hqueue
    · split at hqueue
      · cases hqueue
        exact .inl rfl
      · cases hqueue
        exact .inl rfl
    · cases hqueue
  | warmup =>
    simp only [QueueState.step] at hqueue
    split at hqueue
    · cases hqueue
      exact .inl rfl
    · cases hqueue

/-- No step makes a persistent queue another one, or another one persistent. -/
theorem RankState.step_persistent {rank next : RankState} {event : QueueEvent}
    (h : rank.step event = some next) :
    next.state.queue.persistent = rank.state.queue.persistent := by
  rcases step_mode h with hmode | hmode
  · exact congrArg Prod.fst hmode
  · exact congrArg Prod.fst hmode

/-! ## The invariant -/

/-- The persistent caller, whether it was made or not. -/
def AsyncCallsQueue.worker (queue : AsyncCallsQueue) : PersistentAsyncCaller :=
  queue.persistentCaller.getD .new

/-- The calls the training process has not found done. -/
def AsyncCallsQueue.pending (queue : AsyncCallsQueue) : Control → List ActiveAsyncRequest
  | .finalizing _ => queue.asyncCalls.tail
  | _ => queue.asyncCalls

/-- What is known of an active call. -/
def ActiveAsyncRequest.Sound (queue : AsyncCallsQueue) (completed : List Nat)
    (call : ActiveAsyncRequest) : Prop :=
  match call.asyncCaller with
  | .temporal process => process = some .running ∨ call.serial ∈ completed
  | .persistent =>
    queue.persistentCaller.isSome = true ∧
      (call.asyncRequest.hasAsyncFn = false → call.serial ∈ completed)
  | .closed => False

/-- What is known of an active call that was found not alive. -/
def ActiveAsyncRequest.Done (queue : AsyncCallsQueue) (completed : List Nat)
    (call : ActiveAsyncRequest) : Prop :=
  match call.asyncCaller with
  | .temporal _ => call.serial ∈ completed
  | .persistent => queue.worker.Polled
  | .closed => False

namespace ActiveAsyncRequest

variable {queue next : AsyncCallsQueue} {completed more : List Nat}
  {call : ActiveAsyncRequest}

theorem Sound.mono (h : call.Sound queue completed)
    (hkept : queue.persistentCaller.isSome = true → next.persistentCaller.isSome = true)
    (hmore : ∀ serial ∈ completed, serial ∈ more) : call.Sound next more := by
  unfold ActiveAsyncRequest.Sound at h ⊢
  cases hkind : call.asyncCaller with
  | temporal process =>
    rw [hkind] at h
    exact h.imp_right (hmore _)
  | persistent =>
    rw [hkind] at h
    exact ⟨hkept h.1, fun hnone => hmore _ (h.2 hnone)⟩
  | closed =>
    rw [hkind] at h
    exact h

theorem Done.mono (h : call.Done queue completed)
    (hpolled : queue.worker.Polled → next.worker.Polled)
    (hmore : ∀ serial ∈ completed, serial ∈ more) : call.Done next more := by
  unfold ActiveAsyncRequest.Done at h ⊢
  cases hkind : call.asyncCaller with
  | temporal process =>
    rw [hkind] at h
    exact hmore _ h
  | persistent =>
    rw [hkind] at h
    exact hpolled h
  | closed =>
    rw [hkind] at h
    exact h

end ActiveAsyncRequest

/-- What is known where the training process stands. -/
def Control.Sound (queue : AsyncCallsQueue) (completed : List Nat) : Control → Prop
  | .idle | .looping _ | .validating _ _ => True
  | .syncing call alive => ∃ head, queue.asyncCalls.head? = some head ∧
      (alive = false → head.Done queue completed) ∧
      (call.blocking = true → head.asyncCaller = .persistent → alive = false)
  | .joining _ => ∃ head process, queue.asyncCalls.head? = some head ∧
      head.asyncCaller = .temporal process
  | .finalizing _ => ∃ head, queue.asyncCalls.head? = some head ∧ head.serial ∈ completed
  | .closing => False

/-- The invariant; `early` are the requests whose item was taken for another one. -/
structure Sound (early : List Nat) (queue : AsyncCallsQueue) (control : Control)
    (history : History) : Prop where
  finalized : history.finalized = List.range history.finalized.length
  serials : queue.asyncCalls.map (fun call => call.serial) =
    range' history.finalized.length queue.asyncCalls.length
  scheduled : history.finalized.length + queue.asyncCalls.length = history.scheduled
  completed : ∀ serial ∈ history.finalized, serial ∈ history.completed
  calls : ∀ call ∈ queue.asyncCalls, call.Sound queue history.completed
  pipeline : queue.worker.Pipeline history.completed (realSerials (queue.pending control)) early
  position : control.Sound queue history.completed
  opened : ∀ call ∈ control.call?, call.closing = false
  kind : ∀ call ∈ queue.asyncCalls, call.asyncCaller = .persistent ↔ queue.persistent = true

/-- The events of a queue that is not closed and whose writers do not die. -/
def QueueEvent.Ordinary : QueueEvent → Prop
  | .close _ | .dieWriter _ => False
  | _ => True

/-- The head of the queue has no `async_fn`, but a worker that could be asked. -/
def AsyncCallsQueue.Misled (queue : AsyncCallsQueue) : Prop :=
  ∃ head, queue.asyncCalls.head? = some head ∧ head.asyncCaller = .persistent ∧
    head.asyncRequest.hasAsyncFn = false ∧ queue.worker.process ≠ none

namespace Sound

variable {early : List Nat} {queue : AsyncCallsQueue} {control : Control} {history : History}

variable {head : ActiveAsyncRequest} {blocking alive : Bool} {state : QueueState}
    {output : Output}

/-- The serial number of the head is the number of requests finalized. -/
theorem head_serial (h : Sound early queue control history)
    (hhead : queue.asyncCalls.head? = some head) : head.serial = history.finalized.length := by
  have hserials := h.serials
  cases hcalls : queue.asyncCalls with
  | nil => simp [hcalls] at hhead
  | cons first rest =>
    obtain rfl : first = head := by simpa [hcalls] using hhead
    simp only [hcalls, map_cons, length_cons, range'_succ,
      List.cons.injEq] at hserials
    exact hserials.1

/-- Where the training process stands may change as long as the same calls are pending. -/
theorem goTo (h : Sound early queue control history) {next : Control}
    (hpending : queue.pending next = queue.pending control)
    (hnext : next.Sound queue history.completed)
    (hopened : ∀ call ∈ next.call?, call.closing = false) : Sound early queue next history :=
  ⟨h.finalized, h.serials, h.scheduled, h.completed, h.calls, by rw [hpending]; exact h.pipeline,
    hnext, hopened, h.kind⟩

theorem fresh (persistent cpuShmMode : Bool) :
    Sound [] (.fresh persistent cpuShmMode) .idle .empty where
  finalized := rfl
  serials := rfl
  scheduled := rfl
  completed := by simp [History.empty]
  calls := by simp [AsyncCallsQueue.fresh]
  pipeline := ⟨rfl, by simp, by simp [AsyncCallsQueue.worker, AsyncCallsQueue.fresh,
    PersistentAsyncCaller.done, PersistentAsyncCaller.new], fun _ => ⟨rfl, rfl⟩⟩
  position := trivial
  opened := by simp [Control.call?]
  kind := by simp [AsyncCallsQueue.fresh]

/-! ### Scheduling -/

/-- The caller a request is given to takes over from the one before. -/
theorem getAsyncCaller_pipeline {completed reals : List Nat}
    (h : queue.worker.Pipeline completed reals early) :
    queue.getAsyncCaller.2.Pipeline completed reals early := by
  unfold AsyncCallsQueue.worker at h
  unfold AsyncCallsQueue.getAsyncCaller
  cases hcaller : queue.persistentCaller with
  | some caller => simpa [hcaller] using h
  | none =>
    rw [hcaller] at h
    cases queue.warmup with
    | false => exact h
    | true => exact ⟨h.order, h.early, h.done, by simp⟩

theorem getAsyncCaller_asyncCalls (queue : AsyncCallsQueue) :
    queue.getAsyncCaller.1.asyncCalls = queue.asyncCalls := by
  unfold AsyncCallsQueue.getAsyncCaller
  split
  · rfl
  · split <;> rfl

theorem getAsyncCaller_persistent (queue : AsyncCallsQueue) :
    queue.getAsyncCaller.1.persistent = queue.persistent := by
  unfold AsyncCallsQueue.getAsyncCaller
  split
  · rfl
  · split <;> rfl

/-- One more call at the end. -/
theorem append (h : Sound early queue .idle history) {next : AsyncCallsQueue}
    (call : ActiveAsyncRequest) (idx : Int)
    (hcalls : next.asyncCalls = queue.asyncCalls ++ [call])
    (hserial : call.serial = history.scheduled)
    (hkept : queue.persistentCaller.isSome = true → next.persistentCaller.isSome = true)
    (hcall : call.asyncCaller = .temporal (some .running) ∨
      (∃ process, call.asyncCaller = .temporal process ∧ call.asyncRequest.hasAsyncFn = false) ∨
      (call.asyncCaller = .persistent ∧ next.persistentCaller.isSome = true))
    (hpipeline : next.worker.Pipeline history.completed
      (realSerials queue.asyncCalls ++ realSerials [call]) early)
    (hpersistent : next.persistent = queue.persistent)
    (hkind : call.asyncCaller = .persistent ↔ queue.persistent = true) :
    Sound early next .idle
      (history.record (.scheduled idx call.asyncRequest.hasAsyncFn)) := by
  have hmore : ∀ serial ∈ history.completed,
      serial ∈ (history.record (.scheduled idx call.asyncRequest.hasAsyncFn)).completed := by
    intro serial hmem
    simp only [History.record]
    split
    · exact hmem
    · exact mem_append_left _ hmem
  have hscheduled := h.scheduled
  refine ⟨h.finalized, ?_, ?_, fun serial hmem => hmore _ (h.completed _ hmem), ?_, ?_,
    trivial, h.opened, ?_⟩
  · simp only [hcalls, map_append, h.serials, length_append, map_cons,
      map_nil, length_singleton, hserial, ← hscheduled, History.record,
      range'_append_1.symm, range'_one]
  · simp only [hcalls, length_append, length_singleton, History.record]
    omega
  · intro other hmem
    rw [hcalls] at hmem
    rcases mem_append.mp hmem with hmem | hmem
    · exact (h.calls _ hmem).mono hkept hmore
    · obtain rfl := mem_singleton.mp hmem
      have hnoop : other.asyncRequest.hasAsyncFn = false → other.serial ∈
          (history.record (.scheduled idx other.asyncRequest.hasAsyncFn)).completed := by
        intro hnone
        simp [History.record, hnone, hserial]
      unfold ActiveAsyncRequest.Sound
      rcases hcall with hcall | ⟨process, hcall, hnone⟩ | ⟨hcall, hsome⟩
      · rw [hcall]
        exact .inl rfl
      · rw [hcall]
        exact .inr (hnoop hnone)
      · rw [hcall]
        exact ⟨hsome, hnoop⟩
  · simp only [AsyncCallsQueue.pending, hcalls, realSerials_append]
    exact hpipeline.mono hmore
  · intro other hmem
    rw [hpersistent]
    rw [hcalls] at hmem
    rcases mem_append.mp hmem with hmem | hmem
    · exact h.kind other hmem
    · rw [mem_singleton.mp hmem]
      exact hkind

theorem scheduleAsyncRequest (h : Sound early queue .idle history) (request : AsyncRequest) :
    Sound early (queue.scheduleAsyncRequest request history.scheduled).1 .idle
      (history.record (.scheduled (queue.scheduleAsyncRequest request history.scheduled).2
        request.hasAsyncFn)) := by
  have hpipeline := h.pipeline
  simp only [AsyncCallsQueue.pending] at hpipeline
  unfold AsyncCallsQueue.scheduleAsyncRequest
  cases hpersistent : queue.persistent with
  | true =>
    have hcaller := getAsyncCaller_pipeline hpipeline
    have hcalls := getAsyncCaller_asyncCalls queue
    have hscheduled := hcaller.scheduleAsyncCall { request with callIdx := queue.callIdx + 1 }
      history.scheduled
    refine h.append ⟨queue.callIdx + 1, .persistent, request, history.scheduled⟩
      (queue.callIdx + 1) (by rw [← hcalls]; rfl) rfl (fun _ => rfl)
      (.inr (.inr ⟨rfl, rfl⟩)) ?_ (getAsyncCaller_persistent queue) (by simp [hpersistent])
    have hreals : realSerials
        [⟨queue.callIdx + 1, .persistent, request, history.scheduled⟩] =
          if request.hasAsyncFn then [history.scheduled] else [] := by
      rw [realSerials_cons]
      simp [ActiveAsyncRequest.viaWorker]
    rw [hreals]
    exact hscheduled
  | false =>
    refine h.append ⟨queue.callIdx + 1, .temporal (if request.hasAsyncFn then
      some .running else none), request, history.scheduled⟩ (queue.callIdx + 1) rfl rfl id
      ?_ ?_ hpersistent.symm (by simp [hpersistent])
    · by_cases hfn : request.hasAsyncFn = true
      · exact .inl (by simp [hfn])
      · exact .inr (.inl ⟨_, rfl, by simpa using hfn⟩)
    · simpa [realSerials, ActiveAsyncRequest.viaWorker, AsyncCallsQueue.worker] using hpipeline

/-! ### The background -/

/-- The worker completes a request. -/
theorem finish (h : Sound early queue control history)
    {caller next : PersistentAsyncCaller} {item : WorkItem}
    (hcaller : queue.persistentCaller = some caller)
    (hfinish : caller.finish = some (next, item)) :
    Sound early { queue with persistentCaller := some next } control
      (history.record (.completed item.serial)) := by
  obtain ⟨rest, hworker, hnext⟩ := PersistentAsyncCaller.finish_cases hfinish
  have hpipeline := h.pipeline
  rw [AsyncCallsQueue.worker, hcaller] at hpipeline
  have hmore : ∀ serial ∈ history.completed, serial ∈ history.completed ++ [item.serial] :=
    fun serial hmem => mem_append_left _ hmem
  have hpolled : queue.worker.Polled → next.Polled := by
    intro hqueue
    simp only [AsyncCallsQueue.worker, hcaller, Option.getD_some,
      PersistentAsyncCaller.Polled, hworker, reduceCtorEq, or_false] at hqueue
    rw [hnext]
    exact .inl hqueue
  refine ⟨h.finalized, h.serials, h.scheduled, fun serial hmem => hmore _ (h.completed _ hmem),
    fun call hmem => (h.calls _ hmem).mono (fun _ => rfl) hmore, ?_, ?_, h.opened,
    h.kind⟩
  · exact hpipeline.finish hfinish
  · have hcontrol := h.position
    cases control with
    | syncing call alive =>
      obtain ⟨head, hhead, hdone, hblocking⟩ := hcontrol
      exact ⟨head, hhead, fun halive => (hdone halive).mono hpolled hmore, hblocking⟩
    | finalizing call =>
      obtain ⟨head, hhead, hdone⟩ := hcontrol
      exact ⟨head, hhead, hmore _ hdone⟩
    | _ => exact hcontrol

/-- The call whose writer exits, and the calls around it. -/
theorem exitWriter_cases {next : AsyncCallsQueue} {i serial : Nat}
    (hexit : queue.exitWriter i = some (next, serial)) :
    ∃ before idx request after,
      queue.asyncCalls =
        before ++ ⟨idx, .temporal (some .running), request, serial⟩ :: after ∧
      next = { queue with asyncCalls :=
        before ++ ⟨idx, .temporal (some .exited), request, serial⟩ :: after } := by
  unfold AsyncCallsQueue.exitWriter at hexit
  split at hexit
  · rename_i idx request found hcall
    simp only [some.injEq, Prod.mk.injEq] at hexit
    obtain ⟨rfl, rfl⟩ := hexit
    obtain ⟨hlength, hget⟩ := List.getElem?_eq_some_iff.mp hcall
    refine ⟨queue.asyncCalls.take i, idx, request, queue.asyncCalls.drop (i + 1), ?_, ?_⟩
    · rw [← hget, getElem_cons_drop, take_append_drop]
    · rw [set_eq_take_append_cons_drop, if_pos hlength]
  · cases hexit

/-- A writer completes its request. -/
theorem exitWriter (h : Sound early queue control history) {next : AsyncCallsQueue}
    {i serial : Nat} (hexit : queue.exitWriter i = some (next, serial)) :
    Sound early next control (history.record (.completed serial)) := by
  obtain ⟨before, idx, request, after, hcalls, rfl⟩ := exitWriter_cases hexit
  have hmore : ∀ done ∈ history.completed, done ∈ history.completed ++ [serial] :=
    fun done hmem => mem_append_left _ hmem
  have hserials := h.serials
  have hscheduled := h.scheduled
  have hpipeline := h.pipeline
  have hcontrol := h.position
  rw [hcalls] at hserials hscheduled
  refine ⟨h.finalized, ?_, ?_, fun done hmem => hmore _ (h.completed _ hmem), ?_, ?_, ?_,
    h.opened, ?_⟩
  · simpa [History.record] using hserials
  · simpa [History.record] using hscheduled
  · intro call hmem
    rcases mem_append.mp hmem with hmem | hmem
    · exact (h.calls call (by simp [hcalls, hmem])).mono id hmore
    · rcases mem_cons.mp hmem with rfl | hmem
      · exact .inr (mem_append_right _ (mem_singleton_self _))
      · exact (h.calls call (by simp [hcalls, hmem])).mono id hmore
  · have hreals : realSerials (AsyncCallsQueue.pending { queue with asyncCalls :=
        before ++ ⟨idx, .temporal (some .exited), request, serial⟩ :: after } control) =
          realSerials (queue.pending control) := by
      have htail : ∀ process, realSerials (before ++ ⟨idx, .temporal process, request,
          serial⟩ :: after) = realSerials before ++ realSerials after := by
        intro process
        rw [realSerials_append, realSerials_cons]
        simp [ActiveAsyncRequest.viaWorker]
      cases control with
      | finalizing call =>
        simp only [AsyncCallsQueue.pending, hcalls]
        cases before with
        | nil => rfl
        | cons first others =>
          simp only [cons_append, tail_cons]
          rw [realSerials_append, realSerials_append, realSerials_cons, realSerials_cons]
          rfl
      | _ => simp only [AsyncCallsQueue.pending, hcalls, htail]
    rw [hreals]
    exact hpipeline.mono hmore
  · cases control with
    | syncing call alive =>
      obtain ⟨head, hhead, hdone, hblocking⟩ := hcontrol
      cases before with
      | nil =>
        exact ⟨_, rfl, fun _ => mem_append_right _ (mem_singleton_self _),
          by simp⟩
      | cons first others =>
        obtain rfl : first = head := by simpa [hcalls] using hhead
        exact ⟨first, rfl, fun halive => (hdone halive).mono id hmore, hblocking⟩
    | joining call =>
      obtain ⟨head, process, hhead, hkind⟩ := hcontrol
      cases before with
      | nil => exact ⟨_, _, rfl, rfl⟩
      | cons first others =>
        obtain rfl : first = head := by simpa [hcalls] using hhead
        exact ⟨first, process, rfl, hkind⟩
    | finalizing call =>
      obtain ⟨head, hhead, hdone⟩ := hcontrol
      cases before with
      | nil =>
        exact ⟨_, rfl, mem_append_right _ (mem_singleton_self _)⟩
      | cons first others =>
        obtain rfl : first = head := by simpa [hcalls] using hhead
        exact ⟨first, rfl, hmore _ hdone⟩
    | _ => exact hcontrol
  · intro call hmem
    rcases mem_append.mp hmem with hmem | hmem
    · exact h.kind call (by simp [hcalls, hmem])
    · rcases mem_cons.mp hmem with rfl | hmem
      · have hrunning := h.kind ⟨idx, .temporal (some .running), request, serial⟩
          (by simp [hcalls])
        simpa using hrunning
      · exact h.kind call (by simp [hcalls, hmem])

/-! ### The training process -/

/-- What the poll of an active call can do. -/
theorem isAlive_cases {completed : List Nat} {next : AsyncCallsQueue}
    (hhead : head.Sound queue completed)
    (hcheck : queue.isAlive head.asyncCaller blocking = some (next, alive)) :
    (∃ process, head.asyncCaller = .temporal process ∧ next = queue ∧
        alive = decide (process = some Writer.running)) ∨
      (∃ caller polled, head.asyncCaller = .persistent ∧
        queue.persistentCaller = some caller ∧ caller.poll blocking = some (polled, alive) ∧
        next = { queue with persistentCaller := some polled }) := by
  unfold ActiveAsyncRequest.Sound at hhead
  cases hkind : head.asyncCaller with
  | temporal process =>
    rw [hkind] at hcheck
    simp only [AsyncCallsQueue.isAlive, some.injEq, Prod.mk.injEq] at hcheck
    exact .inl ⟨process, rfl, hcheck.1.symm, hcheck.2.symm⟩
  | persistent =>
    rw [hkind] at hhead hcheck
    obtain ⟨caller, hcaller⟩ := Option.isSome_iff_exists.mp hhead.1
    simp only [AsyncCallsQueue.isAlive, hcaller] at hcheck
    obtain ⟨⟨polled, found⟩, hpoll, hresult⟩ := map_eq_some_iff.mp hcheck
    simp only [Prod.mk.injEq] at hresult
    obtain ⟨rfl, rfl⟩ := hresult
    exact .inr ⟨caller, polled, rfl, hcaller, hpoll, rfl⟩
  | closed =>
    rw [hkind] at hhead
    exact hhead.elim

/-- A poll changes neither the calls nor the worker's process. -/
theorem isAlive_same {caller : AsyncCaller} {next : AsyncCallsQueue}
    (hcheck : queue.isAlive caller blocking = some (next, alive)) :
    next.asyncCalls = queue.asyncCalls ∧
      next.worker.process = queue.worker.process := by
  unfold AsyncCallsQueue.isAlive at hcheck
  split at hcheck
  · cases hcheck
    exact ⟨rfl, rfl⟩
  · rename_i worker hworker
    obtain ⟨⟨polled, found⟩, hpoll, hresult⟩ := map_eq_some_iff.mp hcheck
    cases hresult
    refine ⟨rfl, ?_⟩
    simp only [AsyncCallsQueue.worker, hworker, Option.getD_some]
    rcases PersistentAsyncCaller.poll_cases hpoll with ⟨rfl, -, -⟩ |
        ⟨item, rest, -, -, rfl, -, -⟩ | ⟨rfl, -, -⟩
    · rfl
    · rfl
    · rfl
  · cases hcheck
    exact ⟨rfl, rfl⟩

theorem isAlive_misled {caller : AsyncCaller} {next : AsyncCallsQueue}
    (hcheck : queue.isAlive caller blocking = some (next, alive)) :
    next.Misled → queue.Misled := by
  obtain ⟨hcalls, hprocess⟩ := isAlive_same hcheck
  rintro ⟨head, hhead, hkind, hnone, hrunning⟩
  exact ⟨head, hcalls ▸ hhead, hkind, hnone, hprocess ▸ hrunning⟩

/-- The poll of the head. -/
theorem check (h : Sound early queue control history) {call : FinalizeCall}
    (hcontrol : control = .looping call) {next : AsyncCallsQueue}
    (hhead : queue.asyncCalls.head? = some head)
    (hcheck : queue.isAlive head.asyncCaller call.blocking = some (next, alive)) :
    Sound early next (.syncing call alive) history ∧
      next.asyncCalls = queue.asyncCalls := by
  subst hcontrol
  have hsound := h.calls head (mem_of_mem_head? hhead)
  rcases isAlive_cases hsound hcheck with ⟨process, hkind, rfl, halive⟩ |
      ⟨caller, polled, hkind, hcaller, hpoll, rfl⟩
  · refine ⟨h.goTo rfl ⟨head, hhead, fun hdead => ?_, by simp [hkind]⟩ h.opened, rfl⟩
    unfold ActiveAsyncRequest.Sound at hsound
    unfold ActiveAsyncRequest.Done
    rw [hkind] at hsound ⊢
    rw [hdead] at halive
    exact hsound.resolve_left (of_decide_eq_false halive.symm)
  · have hpipeline := h.pipeline
    simp only [AsyncCallsQueue.worker, hcaller] at hpipeline
    refine ⟨⟨h.finalized, h.serials, h.scheduled, h.completed,
      fun call hmem => (h.calls call hmem).mono (fun _ => rfl) fun _ => id,
      hpipeline.poll hpoll, ⟨head, hhead, fun hdead => ?_, fun hblocking _ => ?_⟩, h.opened,
      h.kind⟩, rfl⟩
    · subst hdead
      unfold ActiveAsyncRequest.Done
      rw [hkind]
      exact PersistentAsyncCaller.polled_of_poll hpoll
    · rw [hblocking] at hpoll
      exact PersistentAsyncCaller.not_alive_of_poll_blocking hpoll

theorem resetCurItem_worker (queue : AsyncCallsQueue) :
    queue.resetCurItem.worker = { queue.worker with curItem := none } := by
  unfold AsyncCallsQueue.resetCurItem AsyncCallsQueue.worker
  cases queue.persistentCaller <;> rfl

section

variable (h : Sound early queue control history) {call : FinalizeCall}
include h

/-- The head of a persistent queue was found done on all ranks. -/
theorem settle (hcontrol : control = .syncing call false)
    (hhead : queue.asyncCalls.head? = some head) (hpersistent : head.asyncCaller = .persistent) :
    ∃ taken, Sound taken queue.resetCurItem (.finalizing call) history ∧
      (early = [] → ¬ queue.Misled → taken = []) := by
  subst hcontrol
  obtain ⟨first, hfirst, hdone, -⟩ := h.position
  obtain rfl : first = head := some.inj (hfirst.symm.trans hhead)
  have hpolled : queue.worker.Polled := by
    have hpolled := hdone rfl
    unfold ActiveAsyncRequest.Done at hpolled
    rwa [hpersistent] at hpolled
  have hsound := h.calls first (mem_of_mem_head? hhead)
  unfold ActiveAsyncRequest.Sound at hsound
  rw [hpersistent] at hsound
  have hcalls : ∀ call ∈ queue.resetCurItem.asyncCalls,
      call.Sound queue.resetCurItem history.completed := fun call hmem =>
    (h.calls call hmem).mono (by simp [AsyncCallsQueue.resetCurItem]) fun _ => id
  have hpipeline := h.pipeline
  obtain ⟨rest, hrest⟩ : ∃ rest, queue.asyncCalls = first :: rest :=
    head?_eq_some_iff.mp hhead
  simp only [AsyncCallsQueue.pending, hrest, realSerials_cons, ActiveAsyncRequest.viaWorker,
    hpersistent, decide_true, Bool.true_and] at hpipeline
  have hnext : ∀ taken, PersistentAsyncCaller.Pipeline { queue.worker with curItem := none }
      history.completed (realSerials rest) taken → first.serial ∈ history.completed →
      Sound taken queue.resetCurItem (.finalizing call) history := by
    intro taken htaken hmem
    refine ⟨h.finalized, h.serials, h.scheduled, h.completed, hcalls, ?_, ⟨first, hhead, hmem⟩,
      h.opened, h.kind⟩
    have hpending : queue.resetCurItem.pending (.finalizing call) = rest := by
      simp [AsyncCallsQueue.pending, AsyncCallsQueue.resetCurItem, hrest]
    rw [resetCurItem_worker, hpending]
    exact htaken
  by_cases hfn : first.asyncRequest.hasAsyncFn = true
  · rw [if_pos hfn] at hpipeline
    obtain ⟨hmem, htaken⟩ := hpipeline.resetCurItem hpolled
    refine ⟨_, hnext _ htaken hmem, fun hearly _ => ?_⟩
    subst hearly
    cases queue.worker.curItem <;> rfl
  · rw [if_neg hfn] at hpipeline
    have hnoop : first.asyncRequest.hasAsyncFn = false := by simpa using hfn
    refine ⟨_, hnext _ hpipeline.takeCurItem (hsound.2 hnoop), fun hearly hmisled => ?_⟩
    -- there is no worker, so no item was there to be taken
    have hasleep : queue.worker.process = none := by
      by_contra hworker
      exact hmisled ⟨first, hhead, hpersistent, hnoop, hworker⟩
    subst hearly
    simp [(hpipeline.asleep hasleep).1]

/-- The head is completed once it was found not alive. -/
theorem head_completed (hcontrol : control = .syncing call false)
    (hhead : queue.asyncCalls.head? = some head) : head.serial ∈ history.completed := by
  cases hkind : head.asyncCaller with
  | temporal process =>
    subst hcontrol
    obtain ⟨first, hfirst, hdone, -⟩ := h.position
    obtain rfl : first = head := some.inj (hfirst.symm.trans hhead)
    have hmem := hdone rfl
    unfold ActiveAsyncRequest.Done at hmem
    rwa [hkind] at hmem
  | persistent =>
    obtain ⟨taken, hsettled, -⟩ := h.settle hcontrol hhead hkind
    obtain ⟨first, hfirst, hmem⟩ := hsettled.position
    obtain rfl : first = head := some.inj (hfirst.symm.trans hhead)
    exact hmem
  | closed =>
    have hsound := h.calls head (mem_of_mem_head? hhead)
    unfold ActiveAsyncRequest.Sound at hsound
    rw [hkind] at hsound
    exact hsound.elim

/-- The end of `is_current_async_call_done`. -/
theorem conclude (hcontrol : control = .syncing call alive)
    (hhead : queue.asyncCalls.head? = some head) {isDone : Bool}
    (hdone : isDone = true → alive = false)
    (hstep : QueueState.conclude queue head.asyncCaller call isDone = (state, output)) :
    ∃ taken, Sound taken state.queue state.control (history.record output) ∧
      (early = [] → ¬ queue.Misled → taken = []) := by
  have hopened : call.closing = false := h.opened call (by rw [hcontrol]; rfl)
  have hret : (state, output) = QueueState.ret queue call →
      ∃ taken, Sound taken state.queue state.control (history.record output) ∧
        (early = [] → ¬ queue.Misled → taken = []) := by
    intro hret
    simp only [QueueState.ret, hopened, Bool.false_eq_true, if_false, Prod.mk.injEq] at hret
    obtain ⟨rfl, rfl⟩ := hret
    subst hcontrol
    exact ⟨early, ⟨h.finalized, h.serials, h.scheduled, h.completed, h.calls, h.pipeline,
      trivial, by simp [Control.call?], h.kind⟩, fun hearly _ => hearly⟩
  have hsound := h.calls head (mem_of_mem_head? hhead)
  unfold ActiveAsyncRequest.Sound at hsound
  cases hkind : head.asyncCaller with
  | temporal process =>
    simp only [QueueState.conclude, hkind] at hstep
    split at hstep
    · simp only [Prod.mk.injEq] at hstep
      obtain ⟨rfl, rfl⟩ := hstep
      subst hcontrol
      exact ⟨early, h.goTo rfl ⟨head, process, hhead, hkind⟩ h.opened,
        fun hearly _ => hearly⟩
    · exact hret hstep.symm
  | persistent =>
    simp only [QueueState.conclude, hkind] at hstep
    split at hstep
    · rename_i hisDone
      simp only [Prod.mk.injEq] at hstep
      obtain ⟨rfl, rfl⟩ := hstep
      obtain rfl := hdone hisDone
      exact h.settle hcontrol hhead hkind
    · exact hret hstep.symm
  | closed =>
    rw [hkind] at hsound
    exact hsound.elim

/-- The join of a temporal caller. -/
theorem join (hcontrol : control = .joining call) {input : SyncInput}
    (hstep : QueueState.mainStep queue input (.joining call) = some (state, output)) :
    Sound early state.queue state.control (history.record output) := by
  subst hcontrol
  obtain ⟨head, process, hhead, hkind⟩ := h.position
  obtain ⟨rest, hrest⟩ : ∃ rest, queue.asyncCalls = head :: rest :=
    head?_eq_some_iff.mp hhead
  obtain ⟨idx, caller, request, serial⟩ := head
  obtain rfl : caller = .temporal process := hkind
  simp only [QueueState.mainStep, hrest] at hstep
  split at hstep
  · cases hstep
  rename_i hexited
  simp only [some.injEq, Prod.mk.injEq] at hstep
  obtain ⟨rfl, rfl⟩ := hstep
  have hsound := h.calls _ (mem_of_mem_head? hhead)
  have hmem : serial ∈ history.completed := Or.resolve_left hsound hexited
  have hserials := h.serials
  have hscheduled := h.scheduled
  have hpipeline := h.pipeline
  rw [hrest] at hserials hscheduled
  refine ⟨h.finalized, hserials, hscheduled, h.completed, ?_, ?_, ⟨_, rfl, hmem⟩, h.opened, ?_⟩
  · intro other hother
    rcases mem_cons.mp hother with rfl | hother
    · exact .inr hmem
    · exact (h.calls other (by simp [hrest, hother])).mono id fun _ => id
  · simp only [AsyncCallsQueue.pending, hrest, realSerials_cons, ActiveAsyncRequest.viaWorker,
      reduceCtorEq, decide_false, Bool.false_and, Bool.false_eq_true, if_false] at hpipeline
    exact hpipeline
  · intro other hother
    rcases mem_cons.mp hother with rfl | hother
    · have hrunning := h.kind _ (mem_of_mem_head? hhead)
      simpa using hrunning
    · exact h.kind other (by simp [hrest, hother])

/-- The head is taken off the queue and its finalize functions are run. -/
theorem finalizeHead (hcontrol : control = .finalizing call)
    (hstep : QueueState.finalizeHead queue call = some (state, output)) :
    Sound early state.queue state.control (history.record output) := by
  subst hcontrol
  obtain ⟨head, hhead, hmem⟩ := h.position
  have hserial := h.head_serial hhead
  obtain ⟨rest, hrest⟩ : ∃ rest, queue.asyncCalls = head :: rest :=
    head?_eq_some_iff.mp hhead
  simp only [QueueState.finalizeHead, hrest, some.injEq, Prod.mk.injEq] at hstep
  obtain ⟨rfl, rfl⟩ := hstep
  have hserials := h.serials
  have hscheduled := h.scheduled
  have hfinalized := h.finalized
  have hpipeline := h.pipeline
  simp only [hrest, map_cons, length_cons, range'_succ, List.cons.injEq]
    at hserials hscheduled
  simp only [AsyncCallsQueue.pending, hrest, tail_cons] at hpipeline
  have hlength : (history.finalized ++ [head.serial]).length = history.finalized.length + 1 := by
    simp
  have hgoesOn : ∀ {next : Control}, (∀ other, next ≠ .finalizing other) →
      next.Sound { queue with asyncCalls := rest } history.completed →
      (∀ other ∈ next.call?, other.closing = false) →
      Sound early { queue with asyncCalls := rest } next
        (history.record (.finalized head.serial)) := by
    intro next hnot hnext hopened
    refine ⟨?_, ?_, ?_, ?_, ?_, ?_, hnext, hopened,
      fun other hother => h.kind other (by simp [hrest, hother])⟩
    · simp only [History.record]
      rw [hlength, range_succ, ← hfinalized, hserial]
    · simp only [History.record, hlength]
      exact hserials.2
    · simp only [History.record, hlength]
      omega
    · intro serial hserial
      rcases mem_append.mp hserial with hserial | hserial
      · exact h.completed _ hserial
      · exact (mem_singleton.mp hserial) ▸ hmem
    · intro other hother
      exact (h.calls other (by simp [hrest, hother])).mono id fun _ => id
    · have hpending : AsyncCallsQueue.pending { queue with asyncCalls := rest } next = rest := by
        cases next with
        | finalizing other => exact absurd rfl (hnot other)
        | _ => rfl
      rw [hpending]
      exact hpipeline
  have hopened := h.opened
  simp only
  split
  · exact hgoesOn (by simp) trivial (by simp [Control.call?])
  · split
    · refine hgoesOn (by simp) trivial ?_
      simpa [Control.call?] using hopened
    · exact hgoesOn (by simp) trivial hopened

end

/-- The training process goes on. -/
theorem mainStep (h : Sound early queue control history) {input : SyncInput}
    (hstep : QueueState.mainStep queue input control = some (state, output)) :
    ∃ taken, Sound taken state.queue state.control (history.record output) ∧
      (early = [] → (control.asks = true → ¬ queue.Misled) → taken = []) := by
  have hopened := h.opened
  cases hcontrol : control with
  | idle => simp [QueueState.mainStep, hcontrol] at hstep
  | closing =>
    have hposition := h.position
    rw [hcontrol] at hposition
    exact hposition.elim
  | looping call =>
    subst hcontrol
    cases hcalls : queue.asyncCalls with
    | nil =>
      simp only [QueueState.mainStep, hcalls, QueueState.ret, hopened call rfl,
        Bool.false_eq_true, if_false, some.injEq, Prod.mk.injEq] at hstep
      obtain ⟨rfl, rfl⟩ := hstep
      exact ⟨early, ⟨h.finalized, h.serials, h.scheduled, h.completed, h.calls, h.pipeline,
        trivial, by simp [Control.call?], h.kind⟩, fun hearly _ => hearly⟩
    | cons head rest =>
      have hhead : queue.asyncCalls.head? = some head := by rw [hcalls]; rfl
      simp only [QueueState.mainStep, hcalls] at hstep
      obtain ⟨⟨next, alive⟩, hcheck, hresult⟩ := map_eq_some_iff.mp hstep
      obtain ⟨hsound, hsame⟩ := h.check rfl hhead hcheck
      split at hresult
      · have hworker := isAlive_misled hcheck
        obtain ⟨taken, hnext, htaken⟩ :=
          hsound.conclude rfl (by rw [hsame]; exact hhead) (by simp) hresult
        exact ⟨taken, hnext, fun hearly hmisled =>
          htaken hearly fun hagain => hmisled rfl (hworker hagain)⟩
      · simp only [Prod.mk.injEq] at hresult
        obtain ⟨rfl, rfl⟩ := hresult
        exact ⟨early, hsound, fun hearly _ => hearly⟩
  | syncing call alive =>
    subst hcontrol
    obtain ⟨head, hhead, -⟩ := h.position
    simp only [QueueState.mainStep, hhead, Option.map_some, some.injEq] at hstep
    have hdead : (!alive && decide (input.others = 0)) = true → alive = false := by
      intro hdone
      simp only [Bool.and_eq_true, Bool.not_eq_true'] at hdone
      exact hdone.1
    obtain ⟨taken, hnext, htaken⟩ := h.conclude rfl hhead hdead hstep
    exact ⟨taken, hnext, fun hearly hmisled => htaken hearly (hmisled rfl)⟩
  | joining call =>
    subst hcontrol
    exact ⟨early, h.join rfl hstep, fun hearly _ => hearly⟩
  | finalizing call =>
    subst hcontrol
    exact ⟨early, h.finalizeHead rfl hstep, fun hearly _ => hearly⟩
  | validating call callIdx =>
    subst hcontrol
    simp only [QueueState.mainStep] at hstep
    split at hstep
    · simp only [some.injEq, Prod.mk.injEq] at hstep
      obtain ⟨rfl, rfl⟩ := hstep
      refine ⟨early, h.goTo rfl trivial ?_, fun hearly _ => hearly⟩
      simpa [Control.call?] using hopened
    · simp only [some.injEq, Prod.mk.injEq] at hstep
      obtain ⟨rfl, rfl⟩ := hstep
      exact ⟨early, h.goTo rfl trivial (by simp [Control.call?]), fun hearly _ => hearly⟩

/-- One step of a queue that is not closed and whose writers do not die. -/
theorem step {rank next : RankState}
    (h : Sound early rank.state.queue rank.state.control rank.history) {event : QueueEvent}
    (hordinary : event.Ordinary) (hstep : rank.step event = some next) :
    ∃ taken, Sound taken next.state.queue next.state.control next.history ∧
      (early = [] → (rank.state.control.asks = true → ¬ rank.state.queue.Misled) →
        taken = []) := by
  obtain ⟨⟨queue, control⟩, history⟩ := rank
  obtain ⟨⟨state, output⟩, hqueue, rfl⟩ := map_eq_some_iff.mp hstep
  dsimp only at h hqueue ⊢
  cases event with
  | schedule request =>
    simp only [QueueState.step] at hqueue
    split at hqueue
    · rename_i hidle
      subst hidle
      cases hqueue
      exact ⟨early, h.scheduleAsyncRequest request, fun hearly _ => hearly⟩
    · cases hqueue
  | maybeFinalize blocking noDist =>
    simp only [QueueState.step] at hqueue
    split at hqueue
    · rename_i hidle
      subst hidle
      cases hqueue
      exact ⟨early, h.goTo rfl trivial (by simp [Control.call?]), fun hearly _ => hearly⟩
    · cases hqueue
  | prepareWriteData =>
    simp only [QueueState.step] at hqueue
    split at hqueue
    · rename_i hidle
      subst hidle
      split at hqueue
      · cases hqueue
        exact ⟨early, h.goTo rfl trivial (by simp [Control.call?]), fun hearly _ => hearly⟩
      · cases hqueue
        exact ⟨early, h, fun hearly _ => hearly⟩
    · cases hqueue
  | warmup =>
    simp only [QueueState.step] at hqueue
    split at hqueue
    · rename_i hidle
      subst hidle
      cases hqueue
      exact ⟨early, ⟨h.finalized, h.serials, h.scheduled, h.completed,
        fun call hmem => (h.calls call hmem).mono id fun _ => id, h.pipeline, trivial,
        h.opened, h.kind⟩, fun hearly _ => hearly⟩
    · cases hqueue
  | close abort => exact hordinary.elim
  | main input => exact h.mainStep hqueue
  | finish =>
    obtain ⟨⟨caller, item⟩, hfinish, hresult⟩ := map_eq_some_iff.mp hqueue
    obtain ⟨before, hcaller, hfinish⟩ := Option.bind_eq_some_iff.mp hfinish
    simp only [Prod.mk.injEq] at hresult
    obtain ⟨rfl, rfl⟩ := hresult
    exact ⟨early, h.finish hcaller hfinish, fun hearly _ => hearly⟩
  | finishWriter i =>
    obtain ⟨⟨next, serial⟩, hexit, hresult⟩ := map_eq_some_iff.mp hqueue
    simp only [Prod.mk.injEq] at hresult
    obtain ⟨rfl, rfl⟩ := hresult
    exact ⟨early, h.exitWriter hexit, fun hearly _ => hearly⟩
  | dieWriter i => exact hordinary.elim

end Sound

end ResiliencyExt.Checkpointing.AsyncCkpt
