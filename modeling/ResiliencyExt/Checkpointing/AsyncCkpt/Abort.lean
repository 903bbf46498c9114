import ResiliencyExt.Checkpointing.AsyncCkpt.FinalizedIndices

set_option autoImplicit false

/-!
# The queue after an abort

`close(abort=True)` kills the worker and resets the counter and the caller.  It leaves
the active calls in the queue, and it takes away the drain callback that only the
constructor registers.  Without active calls and without shared memory the queue is
as new, and what it does from there on is what a new queue does, with later serial
numbers.
-/

namespace ResiliencyExt.Checkpointing.AsyncCkpt

open Foundation
open Option (map_map map_some)

/-! ## Later serial numbers -/

def WorkItem.shift (k : Nat) (item : WorkItem) : WorkItem :=
  { item with serial := item.serial + k }

def PersistentAsyncCaller.shift (k : Nat) (caller : PersistentAsyncCaller) :
    PersistentAsyncCaller where
  process := caller.process.map fun items => items.map (WorkItem.shift k)
  compQ := caller.compQ.map (WorkItem.shift k)
  curItem := caller.curItem.map (WorkItem.shift k)

def ActiveAsyncRequest.shift (k : Nat) (call : ActiveAsyncRequest) : ActiveAsyncRequest :=
  { call with serial := call.serial + k }

def AsyncCallsQueue.shift (k : Nat) (queue : AsyncCallsQueue) : AsyncCallsQueue :=
  { queue with
    asyncCalls := queue.asyncCalls.map (ActiveAsyncRequest.shift k)
    persistentCaller := queue.persistentCaller.map (PersistentAsyncCaller.shift k) }

def QueueState.shift (k : Nat) (state : QueueState) : QueueState :=
  ⟨state.queue.shift k, state.control⟩

def Output.shift (k : Nat) : Output → Output
  | .completed serial => .completed (serial + k)
  | .finalized serial => .finalized (serial + k)
  | output => output

section

variable (k : Nat)

variable (caller : PersistentAsyncCaller)

theorem PersistentAsyncCaller.scheduleAsyncCall_shift (request : AsyncRequest) (serial : Nat) :
    (caller.shift k).scheduleAsyncCall request (serial + k) =
      (caller.scheduleAsyncCall request serial).shift k := by
  unfold PersistentAsyncCaller.scheduleAsyncCall
  split
  · cases hprocess : caller.process <;>
      simp [PersistentAsyncCaller.shift, WorkItem.shift, hprocess]
  · rfl

theorem PersistentAsyncCaller.poll_shift (blocking : Bool) :
    (caller.shift k).poll blocking =
      (caller.poll blocking).map fun (next, alive) => (next.shift k, alive) := by
  obtain ⟨process, compQ, curItem⟩ := caller
  cases process with
  | none => rfl
  | some items =>
    cases curItem with
    | some item => rfl
    | none =>
      cases compQ with
      | cons item rest => rfl
      | nil => cases blocking <;> rfl

theorem PersistentAsyncCaller.finish_shift :
    (caller.shift k).finish =
      caller.finish.map fun (next, item) => (next.shift k, item.shift k) := by
  obtain ⟨process, compQ, curItem⟩ := caller
  cases process with
  | none => rfl
  | some items =>
    cases items with
    | nil => rfl
    | cons item rest =>
      simp [PersistentAsyncCaller.shift, PersistentAsyncCaller.finish]

namespace AsyncCallsQueue

variable (queue : AsyncCallsQueue)

theorem getAsyncCaller_shift :
    (queue.shift k).getAsyncCaller =
      (queue.getAsyncCaller.1.shift k, queue.getAsyncCaller.2.shift k) := by
  obtain ⟨persistent, cpuShmMode, asyncCalls, callIdx, persistentCaller, warmup,
    drainCallback⟩ := queue
  cases persistentCaller with
  | some caller => rfl
  | none => cases warmup <;> rfl

theorem scheduleAsyncRequest_shift (request : AsyncRequest) (serial : Nat) :
    (queue.shift k).scheduleAsyncRequest request (serial + k) =
      ((queue.scheduleAsyncRequest request serial).1.shift k,
        (queue.scheduleAsyncRequest request serial).2) := by
  unfold AsyncCallsQueue.scheduleAsyncRequest
  rw [getAsyncCaller_shift]
  cases hpersistent : queue.persistent with
  | true =>
    simp [AsyncCallsQueue.shift, ActiveAsyncRequest.shift, hpersistent,
      PersistentAsyncCaller.scheduleAsyncCall_shift]
  | false => simp [AsyncCallsQueue.shift, ActiveAsyncRequest.shift, hpersistent]

theorem isAlive_shift (caller : AsyncCaller) (blocking : Bool) :
    (queue.shift k).isAlive caller blocking =
      (queue.isAlive caller blocking).map fun (next, alive) => (next.shift k, alive) := by
  obtain ⟨persistent, cpuShmMode, asyncCalls, callIdx, persistentCaller, warmup,
    drainCallback⟩ := queue
  cases caller with
  | temporal process => cases persistentCaller <;> rfl
  | closed => cases persistentCaller <;> rfl
  | persistent =>
    cases persistentCaller with
    | none => rfl
    | some worker =>
      simp only [AsyncCallsQueue.isAlive, AsyncCallsQueue.shift, map_some,
        PersistentAsyncCaller.poll_shift, map_map]
      rfl

theorem resetCurItem_shift : (queue.shift k).resetCurItem = queue.resetCurItem.shift k := by
  unfold AsyncCallsQueue.resetCurItem AsyncCallsQueue.shift
  cases queue.persistentCaller <;> rfl

theorem reset_shift : (queue.shift k).reset = queue.reset.shift k := by
  simp [AsyncCallsQueue.reset, AsyncCallsQueue.shift, ActiveAsyncRequest.shift]

theorem exitWriter_shift (i : Nat) :
    (queue.shift k).exitWriter i =
      (queue.exitWriter i).map fun (next, serial) => (next.shift k, serial + k) := by
  unfold AsyncCallsQueue.exitWriter
  cases hcall : queue.asyncCalls[i]? with
  | none => simp [AsyncCallsQueue.shift, hcall]
  | some call =>
    obtain ⟨idx, caller, request, serial⟩ := call
    cases caller with
    | temporal process =>
      cases process with
      | none => simp [AsyncCallsQueue.shift, ActiveAsyncRequest.shift, hcall]
      | some writer =>
        cases writer <;>
          simp [AsyncCallsQueue.shift, ActiveAsyncRequest.shift, hcall, List.map_set]
    | persistent => simp [AsyncCallsQueue.shift, ActiveAsyncRequest.shift, hcall]
    | closed => simp [AsyncCallsQueue.shift, ActiveAsyncRequest.shift, hcall]

end AsyncCallsQueue

namespace QueueState

/-- A result with later serial numbers. -/
def shiftResult (result : QueueState × Output) : QueueState × Output :=
  (result.1.shift k, result.2.shift k)

theorem conclude_shift (queue : AsyncCallsQueue) (caller : AsyncCaller) (call : FinalizeCall)
    (isDone : Bool) :
    conclude (queue.shift k) caller call isDone =
      shiftResult k (conclude queue caller call isDone) := by
  unfold conclude ret
  cases caller with
  | temporal process =>
    cases isDone || call.blocking <;> rfl
  | persistent =>
    cases isDone with
    | true =>
      simp only [if_true, AsyncCallsQueue.resetCurItem_shift]
      rfl
    | false => rfl
  | closed => cases isDone <;> rfl

theorem finalizeHead_shift (queue : AsyncCallsQueue) (call : FinalizeCall) :
    finalizeHead (queue.shift k) call = (finalizeHead queue call).map (shiftResult k) := by
  unfold finalizeHead
  cases hcalls : queue.asyncCalls <;>
    simp [AsyncCallsQueue.shift, ActiveAsyncRequest.shift, hcalls, shiftResult, shift,
      Output.shift]

theorem mainStep_shift (queue : AsyncCallsQueue) (input : SyncInput) (control : Control) :
    mainStep (queue.shift k) input control =
      (mainStep queue input control).map (shiftResult k) := by
  cases control with
  | idle => rfl
  | looping call =>
    cases hcalls : queue.asyncCalls with
    | nil =>
      have hshift : (queue.shift k).asyncCalls = [] := by
        simp [AsyncCallsQueue.shift, hcalls]
      simp only [mainStep, hcalls, hshift]
      rfl
    | cons head rest =>
      have hshift : (queue.shift k).asyncCalls =
          head.shift k :: rest.map (ActiveAsyncRequest.shift k) := by
        simp [AsyncCallsQueue.shift, hcalls]
      simp only [mainStep, hcalls, hshift, ActiveAsyncRequest.shift,
        AsyncCallsQueue.isAlive_shift, map_map]
      congr 1
      funext result
      obtain ⟨next, alive⟩ := result
      simp only [Function.comp_apply, conclude_shift]
      split <;> rfl
  | syncing call alive =>
    cases hcalls : queue.asyncCalls with
    | nil => simp [mainStep, AsyncCallsQueue.shift, hcalls]
    | cons head rest =>
      have hshift : (queue.shift k).asyncCalls =
          head.shift k :: rest.map (ActiveAsyncRequest.shift k) := by
        simp [AsyncCallsQueue.shift, hcalls]
      simp only [mainStep, hcalls, hshift, ActiveAsyncRequest.shift, List.head?_cons,
        map_some, conclude_shift]
  | joining call =>
    cases hcalls : queue.asyncCalls with
    | nil => simp [mainStep, AsyncCallsQueue.shift, hcalls]
    | cons head rest =>
      obtain ⟨idx, caller, request, serial⟩ := head
      cases caller with
      | temporal process =>
        simp only [mainStep, AsyncCallsQueue.shift, hcalls, List.map_cons,
          ActiveAsyncRequest.shift]
        split <;> rfl
      | persistent =>
        simp [mainStep, AsyncCallsQueue.shift, hcalls, ActiveAsyncRequest.shift]
      | closed =>
        simp [mainStep, AsyncCallsQueue.shift, hcalls, ActiveAsyncRequest.shift]
  | finalizing call => exact finalizeHead_shift k queue call
  | validating call callIdx =>
    simp only [mainStep]
    split <;> rfl
  | closing =>
    obtain ⟨persistent, cpuShmMode, asyncCalls, callIdx, persistentCaller, warmup,
      drainCallback⟩ := queue
    have hreset := AsyncCallsQueue.reset_shift k
      ⟨persistent, cpuShmMode, asyncCalls, callIdx, persistentCaller, warmup, drainCallback⟩
    cases persistentCaller with
    | none =>
      simp only [mainStep, AsyncCallsQueue.shift, Option.map_none] at hreset ⊢
      rw [hreset]
      rfl
    | some caller =>
      obtain ⟨process, compQ, curItem⟩ := caller
      cases process with
      | none =>
        simp only [mainStep, AsyncCallsQueue.shift, map_some,
          PersistentAsyncCaller.shift, Option.map_none] at hreset ⊢
        rw [hreset]
        rfl
      | some items =>
        cases items with
        | nil =>
          simp only [mainStep, AsyncCallsQueue.shift, map_some,
            PersistentAsyncCaller.shift, List.map_nil] at hreset ⊢
          rw [hreset]
          rfl
        | cons item rest => rfl

theorem close_shift (queue : AsyncCallsQueue) (abort : Bool) :
    close (queue.shift k) abort = shiftResult k (close queue abort) := by
  have hreset : (queue.shift k).clearDrainCallback.reset =
      queue.clearDrainCallback.reset.shift k :=
    AsyncCallsQueue.reset_shift k queue.clearDrainCallback
  cases abort with
  | true =>
    simp only [close, if_true, hreset]
    rfl
  | false =>
    have hcaller : (queue.shift k).persistentCaller.isSome = queue.persistentCaller.isSome := by
      simp [AsyncCallsQueue.shift]
    have hpersistent : (queue.shift k).persistent = queue.persistent := rfl
    simp only [close, Bool.false_eq_true, if_false, hcaller, hpersistent, hreset]
    split <;> rfl

/-- A queue with later serial numbers does the same. -/
theorem step_shift (serial : Nat) (state : QueueState) (event : QueueEvent) :
    (state.shift k).step (serial + k) event = (state.step serial event).map (shiftResult k) := by
  obtain ⟨queue, control⟩ := state
  change step (serial + k) ⟨queue.shift k, control⟩ event = _
  cases event with
  | schedule request =>
    simp only [step, AsyncCallsQueue.scheduleAsyncRequest_shift]
    split <;> rfl
  | maybeFinalize blocking noDist =>
    simp only [step]
    split <;> rfl
  | prepareWriteData =>
    have hdrain : (queue.shift k).drainCallback = queue.drainCallback := rfl
    simp only [step, hdrain]
    split
    · split <;> rfl
    · rfl
  | warmup =>
    simp only [step]
    split <;> rfl
  | close abort =>
    simp only [step, close_shift]
    split <;> rfl
  | main input => exact mainStep_shift k queue input control
  | finish =>
    obtain ⟨persistent, cpuShmMode, asyncCalls, callIdx, persistentCaller, warmup,
      drainCallback⟩ := queue
    cases persistentCaller with
    | none => rfl
    | some caller =>
      simp only [step, AsyncCallsQueue.shift, map_some, Option.bind_some,
        PersistentAsyncCaller.finish_shift, map_map]
      rfl
  | finishWriter i | dieWriter i =>
    simp only [step, AsyncCallsQueue.exitWriter_shift, map_map]
    rfl

end QueueState

end

/-! ## What is seen of a run -/

namespace RankState

/-- What a run tells the outside; `none` when one of its steps is not enabled. -/
def outputs (rank : RankState) : List QueueEvent → Option (List Output)
  | [] => some []
  | event :: events =>
    (rank.state.step rank.history.scheduled event).bind fun (state, output) =>
      (outputs ⟨state, rank.history.record output⟩ events).map (output :: ·)

theorem scheduled_shift {history later : History} {k : Nat} (output : Output)
    (h : later.scheduled = history.scheduled + k) :
    (later.record (output.shift k)).scheduled = (history.record output).scheduled + k := by
  cases output with
  | scheduled idx hasAsyncFn =>
    simp only [Output.shift, History.record, h]
    omega
  | _ => exact h

/-- With later serial numbers the same is seen. -/
theorem outputs_shift {k : Nat} (events : List QueueEvent) :
    ∀ {rank later : RankState}, later.state = rank.state.shift k →
      later.history.scheduled = rank.history.scheduled + k →
      later.outputs events = (rank.outputs events).map fun seen => seen.map (Output.shift k) := by
  induction events with
  | nil =>
    intro rank later _ _
    rfl
  | cons event events ih =>
    intro rank later hstate hscheduled
    simp only [outputs, hstate, hscheduled, QueueState.step_shift]
    cases hstep : rank.state.step rank.history.scheduled event with
    | none => rfl
    | some result =>
      obtain ⟨state, output⟩ := result
      have hrest := @ih ⟨state, rank.history.record output⟩
        ⟨state.shift k, later.history.record (output.shift k)⟩ rfl
        (scheduled_shift output hscheduled)
      simp only [map_some, QueueState.shiftResult, Option.bind_some, hrest,
        map_map]
      rfl

/-- No finalize function of a request that was not completed before the abort is run after
it. -/
def NeverFinalizes (before after : RankState) : Prop :=
  ∀ events seen, after.outputs events = some seen → ∀ serial, .finalized serial ∈ seen →
    serial < before.history.scheduled → serial ∈ before.history.completed

/-- After the abort the same is seen as of a new queue. -/
def AsFresh (before after : RankState) : Prop :=
  ∀ events, after.outputs events =
    ((fresh before.state.queue.persistent before.state.queue.cpuShmMode).outputs events).map
      fun seen => seen.map (Output.shift before.history.scheduled)

/-- Nothing the abort leaves behind: no call is active and there is no drain callback. -/
def Clean (rank : RankState) : Prop :=
  rank.state.queue.asyncCalls = [] ∧ rank.state.queue.cpuShmMode = false

instance (rank : RankState) : Decidable rank.Clean :=
  inferInstanceAs (Decidable (_ ∧ _))

/-- The drain callback is that of a queue with shared memory. -/
theorem drainCallback_of_reachable {rank : RankState}
    (h : openQueueSystem.Reachable (fun _ _ => True) rank) :
    rank.state.queue.drainCallback = true → rank.state.queue.cpuShmMode = true := by
  refine System.Reachable.invariant (P := fun rank : RankState =>
    rank.state.queue.drainCallback = true → rank.state.queue.cpuShmMode = true) ?_
    (fun rank event next hdrain _ hstep => ?_) h
  · rintro rank ⟨persistent, cpuShmMode, rfl⟩
    exact id
  · rcases step_mode hstep with hmode | hmode
    · simp only [AsyncCallsQueue.mode, Prod.mk.injEq] at hmode
      rw [hmode.2.1, hmode.2.2]
      exact hdrain
    · simp only [AsyncCallsQueue.mode, AsyncCallsQueue.clearDrainCallback, Prod.mk.injEq]
        at hmode
      rw [hmode.2.1, hmode.2.2]
      intro hcleared
      exact hdrain (Bool.and_eq_true_iff.mp hcleared).1

variable {rank after : RankState}

/-- The state an abort leaves. -/
theorem state_of_abort (hstep : rank.step (.close true) = some after) :
    after.state = ⟨rank.state.queue.clearDrainCallback.reset, .idle⟩ ∧
      after.history.scheduled = rank.history.scheduled := by
  obtain ⟨⟨state, output⟩, hqueue, rfl⟩ := Option.map_eq_some_iff.mp hstep
  simp only [QueueState.step] at hqueue
  split at hqueue
  · cases hqueue
    exact ⟨rfl, rfl⟩
  · cases hqueue

/-- A clean queue is as new after the abort. -/
theorem asFresh_of_clean (h : openQueueSystem.Reachable (fun _ _ => True) rank)
    (hclean : rank.Clean) (hstep : rank.step (.close true) = some after) :
    AsFresh rank after := by
  obtain ⟨hstate, hscheduled⟩ := state_of_abort hstep
  have hdrain := drainCallback_of_reachable h
  obtain ⟨hcalls, hshm⟩ := hclean
  intro events
  refine outputs_shift events ?_ ?_
  · rw [hstate]
    have hnone : rank.state.queue.drainCallback = false := by
      cases hcallback : rank.state.queue.drainCallback with
      | false => rfl
      | true =>
        have hcontra := hdrain hcallback
        rw [hshm] at hcontra
        cases hcontra
    simp [QueueState.shift, AsyncCallsQueue.shift, AsyncCallsQueue.reset,
      AsyncCallsQueue.clearDrainCallback, RankState.fresh, AsyncCallsQueue.fresh, hcalls, hshm,
      hnone]
  · rw [hscheduled]
    exact (Nat.zero_add _).symm

/-- What a new queue finalizes later was scheduled later. -/
theorem neverFinalizes_of_asFresh (h : AsFresh rank after) : NeverFinalizes rank after := by
  intro events seen hseen serial hmem hless
  rw [h events] at hseen
  obtain ⟨fresh, -, rfl⟩ := Option.map_eq_some_iff.mp hseen
  obtain ⟨output, -, hshift⟩ := List.mem_map.mp hmem
  cases output with
  | finalized early =>
    simp only [Output.shift, Output.finalized.injEq] at hshift
    omega
  | _ => simp [Output.shift] at hshift

/-- With a drain callback a new queue is drained before its shared memory is used again; the
aborted one is not. -/
theorem cpuShmMode_of_asFresh (hstep : rank.step (.close true) = some after)
    (h : AsFresh rank after) : rank.state.queue.cpuShmMode = false := by
  obtain ⟨hstate, -⟩ := state_of_abort hstep
  cases hshm : rank.state.queue.cpuShmMode with
  | false => rfl
  | true =>
    have hseen := h [.prepareWriteData, .main ⟨0, 0⟩]
    have hnew : (fresh rank.state.queue.persistent true).outputs
        [.prepareWriteData, .main ⟨0, 0⟩] = some [.silent, .returned []] := rfl
    have hold : after.outputs [.prepareWriteData, .main ⟨0, 0⟩] = none := by
      simp [outputs, hstate, QueueState.step, AsyncCallsQueue.reset,
        AsyncCallsQueue.clearDrainCallback, hshm, QueueState.mainStep]
    rw [hold, hshm, hnew] at hseen
    cases hseen

/-- A new queue has nothing to finalize; the aborted one goes on with the calls it kept. -/
theorem asyncCalls_of_asFresh (hstep : rank.step (.close true) = some after)
    (h : AsFresh rank after) : rank.state.queue.asyncCalls = [] := by
  obtain ⟨hstate, -⟩ := state_of_abort hstep
  cases hcalls : rank.state.queue.asyncCalls with
  | nil => rfl
  | cons head rest =>
    have hseen := h [.maybeFinalize true true, .main ⟨0, 0⟩]
    have hnew : ∀ persistent cpuShmMode, (fresh persistent cpuShmMode).outputs
        [.maybeFinalize true true, .main ⟨0, 0⟩] = some [.silent, .returned []] :=
      fun _ _ => rfl
    have hold : after.outputs [.maybeFinalize true true, .main ⟨0, 0⟩] =
        some [.silent, .silent] := by
      obtain ⟨idx, caller, request, serial⟩ := head
      cases caller <;>
        simp [outputs, hstate, QueueState.step, AsyncCallsQueue.reset,
          AsyncCallsQueue.clearDrainCallback, hcalls, QueueState.mainStep,
          AsyncCaller.close, AsyncCallsQueue.isAlive, QueueState.conclude]
    rw [hold, hnew] at hseen
    simp [Output.shift] at hseen

end RankState

/-- An abort never leads to the finalization of a request that was not completed, and the
queue goes on as a new one does, exactly when no call is active at the abort and the queue does
not use shared memory. -/
theorem aborted_never_finalized {rank after : RankState}
    (h : openQueueSystem.Reachable (fun _ _ => True) rank)
    (hstep : rank.step (.close true) = some after) :
    (rank.NeverFinalizes after ∧ rank.AsFresh after) ↔ rank.Clean := by
  constructor
  · rintro ⟨-, hfresh⟩
    exact ⟨RankState.asyncCalls_of_asFresh hstep hfresh,
      RankState.cpuShmMode_of_asFresh hstep hfresh⟩
  · intro hclean
    have hfresh := RankState.asFresh_of_clean h hclean hstep
    exact ⟨RankState.neverFinalizes_of_asFresh hfresh, hfresh⟩

/-- A queue is aborted when its only request has been finalized. -/
theorem aborted_never_finalized_clean :
    ∃ rank after : RankState, rank.step (.close true) = some after ∧
      rank.history.finalized = [0] ∧ rank.NeverFinalizes after ∧ rank.AsFresh after := by
  have hinit : openQueueSystem.init (.fresh true false) := ⟨true, false, rfl⟩
  have hrun : (openQueueSystem.execute (fun _ _ => True) (.fresh true false)
      [.schedule ⟨true, 0, false⟩, .finish, .maybeFinalize true true, .main ⟨0, 0⟩,
        .main ⟨0, 0⟩, .main ⟨0, 0⟩]).any (fun rank => rank.history.finalized = [0] ∧
          rank.Clean ∧ (rank.step (.close true)).isSome = true) = true := by
    decide +kernel
  obtain ⟨rank, hrank, htest⟩ := System.exists_reachable_of_execute hinit hrun
  obtain ⟨hfinalized, hclean, hsome⟩ := of_decide_eq_true htest
  obtain ⟨after, hstep⟩ := Option.isSome_iff_exists.mp hsome
  exact ⟨rank, after, hstep, hfinalized, (aborted_never_finalized hrank hstep).mpr hclean⟩

/-- A request whose `async_fn` the abort has killed is finalized afterwards. -/
theorem killed_request_finalized :
    ∃ rank after : RankState, openQueueSystem.Reachable (fun _ _ => True) rank ∧
      rank.step (.close true) = some after ∧ ¬ rank.NeverFinalizes after := by
  have hinit : openQueueSystem.init (.fresh true false) := ⟨true, false, rfl⟩
  have hrun : (openQueueSystem.execute (fun _ _ => True) (.fresh true false)
      [.schedule ⟨true, 0, false⟩]).any (fun rank => rank.history.scheduled = 1 ∧
        rank.history.completed = [] ∧ ((rank.step (.close true)).bind fun after =>
          after.outputs [.maybeFinalize false true, .main ⟨0, 0⟩, .main ⟨0, 0⟩]) =
            some [.silent, .silent, .finalized 0]) = true := by
    decide +kernel
  obtain ⟨rank, hrank, htest⟩ := System.exists_reachable_of_execute hinit hrun
  obtain ⟨hscheduled, hcompleted, hseen⟩ := of_decide_eq_true htest
  obtain ⟨after, hstep, hseen⟩ := Option.bind_eq_some_iff.mp hseen
  refine ⟨rank, after, hrank, hstep, fun hnever => ?_⟩
  have hmem := hnever _ _ hseen 0 (by simp) (by rw [hscheduled]; decide)
  rw [hcompleted] at hmem
  cases hmem

end ResiliencyExt.Checkpointing.AsyncCkpt
