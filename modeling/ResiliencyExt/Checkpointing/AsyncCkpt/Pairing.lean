import ResiliencyExt.Foundation.System
import ResiliencyExt.Checkpointing.AsyncCkpt.QueueInvariant

set_option autoImplicit false

/-!
# Completions are paired with requests

One persistent queue that is not closed.  The other ranks make the same calls, so in
a blocking call none of them reports its request alive.

The item taken off `comp_q` is the one of the request at the head, as long as no
request without `async_fn` is asked for while there is a worker: `poll` looks at the
worker only, and takes the item of a later request for it, or waits for one.
-/

namespace ResiliencyExt.Checkpointing.AsyncCkpt

open Foundation List
open Control (call? inSync)
open PersistentAsyncCaller (done finish_cases poll queued)
open Option (map_eq_some_iff map_some some)

/-- A persistent queue of one rank. -/
def queueSystem : System RankState QueueEvent where
  init rank := ∃ cpuShmMode, rank = .fresh true cpuShmMode
  step := RankState.step

/-- The queue is not closed, and in a blocking call the other ranks block as well. -/
def SameCalls (rank : RankState) : QueueEvent → Prop
  | .close _ => False
  | .main input => rank.state.control.blocksInSync = true → input.others = 0
  | _ => True

instance (rank : RankState) (event : QueueEvent) : Decidable (SameCalls rank event) :=
  match event with
  | .close _ => .isFalse id
  | .main input =>
    inferInstanceAs (Decidable (rank.state.control.blocksInSync = true → input.others = 0))
  | .schedule _ | .maybeFinalize _ _ | .prepareWriteData | .warmup | .finish
  | .finishWriter _ | .dieWriter _ => .isTrue trivial

/-- The head is about to be asked for, and it has no `async_fn` although there is a
worker. -/
def RankState.asksAmiss (rank : RankState) : Bool :=
  match rank.state.control, rank.state.queue.asyncCalls with
  | .looping _, ⟨_, .persistent, request, _⟩ :: _ =>
    !request.hasAsyncFn && rank.state.queue.worker.process.isSome
  | _, _ => false

/-- No request without `async_fn` is asked for while there is a worker. -/
def AsksRightly (rank : RankState) (event : QueueEvent) : Prop :=
  SameCalls rank event ∧ rank.asksAmiss = false

instance (rank : RankState) (event : QueueEvent) : Decidable (AsksRightly rank event) :=
  inferInstanceAs (Decidable (_ ∧ _))

/-! ## The invariant -/

structure Straight (rank : RankState) : Prop where
  sound : Sound [] rank.state.queue rank.state.control rank.history
  persistent : rank.state.queue.persistent = true
  asked : rank.state.control.inSync = true → ¬ rank.state.queue.Misled

/-- `sync_all_async_calls` is entered from the loop, with what the poll of the head brought. -/
theorem mainStep_inSync {queue : AsyncCallsQueue} {input : SyncInput} {control : Control}
    {state : QueueState} {output : Output}
    (h : QueueState.mainStep queue input control = some (state, output))
    (hsync : state.control.inSync = true) :
    ∃ call head alive, control = .looping call ∧ queue.asyncCalls.head? = some head ∧
      queue.isAlive head.asyncCaller call.blocking = some (state.queue, alive) := by
  have hconclude : ∀ (queue : AsyncCallsQueue) caller call isDone,
      (QueueState.conclude queue caller call isDone).1.control.inSync = false := by
    intro queue caller call isDone
    unfold QueueState.conclude QueueState.ret
    cases call.closing <;> split <;> split <;> rfl
  cases control with
  | idle => cases h
  | looping call =>
    cases hcalls : queue.asyncCalls with
    | nil =>
      simp only [QueueState.mainStep, hcalls, QueueState.ret, some.injEq,
        Prod.mk.injEq] at h
      obtain ⟨rfl, -⟩ := h
      cases hclosing : call.closing <;> simp [hclosing, inSync] at hsync
    | cons head rest =>
      simp only [QueueState.mainStep, hcalls] at h
      obtain ⟨⟨polled, alive⟩, hcheck, hresult⟩ := map_eq_some_iff.mp h
      split at hresult
      · have hout := hconclude polled head.asyncCaller call (!alive)
        rw [hresult] at hout
        rw [hsync] at hout
        cases hout
      · cases hresult
        exact ⟨call, head, alive, rfl, rfl, hcheck⟩
  | syncing call alive =>
    obtain ⟨head, -, hresult⟩ := map_eq_some_iff.mp h
    have hout := hconclude queue head.asyncCaller call (!alive && decide (input.others = 0))
    rw [hresult, hsync] at hout
    cases hout
  | joining call =>
    simp only [QueueState.mainStep] at h
    split at h
    · split at h
      · cases h
      · cases h
        cases hsync
    · cases h
  | finalizing call =>
    simp only [QueueState.mainStep, QueueState.finalizeHead] at h
    split at h
    · cases h
    · cases h
      split at hsync
      · cases hsync
      · split at hsync
        · cases hsync
        · cases hsync
  | validating call callIdx =>
    simp only [QueueState.mainStep] at h
    split at h
    · cases h
      cases hsync
    · cases h
      cases hsync
  | closing =>
    simp only [QueueState.mainStep] at h
    split at h
    · cases h
    · cases h
      cases hsync

namespace Straight

variable {rank next : RankState}

theorem fresh (cpuShmMode : Bool) : Straight (.fresh true cpuShmMode) :=
  ⟨.fresh true cpuShmMode, rfl, by simp [RankState.fresh, inSync]⟩

/-- Every active call uses the persistent caller. -/
theorem kind (h : Straight rank) {call : ActiveAsyncRequest}
    (hmem : call ∈ rank.state.queue.asyncCalls) : call.asyncCaller = .persistent :=
  (h.sound.kind call hmem).mpr h.persistent

/-- A persistent queue has no writer that could exit. -/
theorem no_writer (h : Straight rank) (i : Nat) : rank.state.queue.exitWriter i = none := by
  cases hexit : rank.state.queue.exitWriter i with
  | none => rfl
  | some result =>
    obtain ⟨before, idx, request, after, hcalls, -⟩ := Sound.exitWriter_cases hexit
    have hmem : ⟨idx, .temporal (some .running), request, result.2⟩ ∈
        rank.state.queue.asyncCalls := by
      simp [hcalls]
    cases h.kind hmem

/-- A head that may be asked for was given to the worker if there is one. -/
theorem not_misled (h : Straight rank) (hasks : rank.asksAmiss = false)
    (hcontrol : rank.state.control.asks = true) : ¬ rank.state.queue.Misled := by
  cases hat : rank.state.control with
  | syncing call alive => exact h.asked (by rw [hat]; rfl)
  | looping call =>
    rintro ⟨⟨idx, caller, request, serial⟩, hhead, hkind, hnone, hworker⟩
    obtain rfl : caller = .persistent := hkind
    obtain ⟨rest, hrest⟩ := head?_eq_some_iff.mp hhead
    simp only [RankState.asksAmiss, hat, hrest, Bool.and_eq_false_iff, Bool.not_eq_false',
      Option.isSome_eq_false_iff, Option.isNone_iff_eq_none] at hasks
    rcases hasks with hfn | hasleep
    · rw [hnone] at hfn
      cases hfn
    · exact hworker hasleep
  | _ => simp [hat, Control.asks] at hcontrol

theorem step (h : Straight rank) {event : QueueEvent} (hcond : AsksRightly rank event)
    (hstep : rank.step event = some next) : Straight next := by
  have hnoWriter := h.no_writer
  have hmisled := h.not_misled hcond.2
  have hpersistent : next.state.queue.persistent = true :=
    (RankState.step_persistent hstep).trans h.persistent
  have hordinary : event.Ordinary := by
    cases event with
    | close abort => exact hcond.1.elim
    | dieWriter i =>
      obtain ⟨result, hqueue, -⟩ := map_eq_some_iff.mp hstep
      simp [QueueState.step, hnoWriter i] at hqueue
    | _ => trivial
  obtain ⟨taken, hsound, htaken⟩ := h.sound.step hordinary hstep
  obtain rfl : taken = [] := htaken rfl hmisled
  refine ⟨hsound, hpersistent, fun hsync => ?_⟩
  obtain ⟨⟨state, output⟩, hqueue, rfl⟩ := map_eq_some_iff.mp hstep
  cases event with
  | main input =>
    obtain ⟨call, head, alive, hlooping, hhead, hcheck⟩ := mainStep_inSync hqueue hsync
    exact fun hnext => hmisled (by rw [hlooping]; rfl) (Sound.isAlive_misled hcheck hnext)
  | finish =>
    obtain ⟨⟨caller, item⟩, hfinish, hresult⟩ := map_eq_some_iff.mp hqueue
    obtain ⟨before, hcaller, hfinish⟩ := Option.bind_eq_some_iff.mp hfinish
    cases hresult
    obtain ⟨rest, hworker, -⟩ := finish_cases hfinish
    rintro ⟨head, hhead, hkind, hnone, -⟩
    exact h.asked hsync ⟨head, hhead, hkind, hnone,
      by simp [AsyncCallsQueue.worker, hcaller, hworker]⟩
  | finishWriter i => simp [QueueState.step, hnoWriter i] at hqueue
  | dieWriter i => exact hordinary.elim
  | close abort => exact hordinary.elim
  | schedule request | maybeFinalize blocking noDist =>
    simp only [QueueState.step] at hqueue
    split at hqueue
    · cases hqueue
      cases hsync
    · cases hqueue
  | prepareWriteData =>
    simp only [QueueState.step] at hqueue
    split at hqueue
    · rename_i hidle
      split at hqueue
      · cases hqueue
        cases hsync
      · cases hqueue
        simp only [hidle, inSync, Bool.false_eq_true] at hsync
    · cases hqueue
  | warmup =>
    simp only [QueueState.step] at hqueue
    split at hqueue
    · cases hqueue
      cases hsync
    · cases hqueue

theorem of_reachable (h : queueSystem.Reachable AsksRightly rank) : Straight rank := by
  refine System.Reachable.invariant ?_ (fun _ _ _ hstraight hcond hstep =>
    hstraight.step hcond hstep) h
  rintro rank ⟨cpuShmMode, rfl⟩
  exact fresh cpuShmMode

/-- The item a check finds for the head is the one the worker put for the head. -/
theorem item_of_check (h : Straight rank) (hasks : rank.asksAmiss = false)
    {call : FinalizeCall} (hcontrol : rank.state.control = .looping call)
    {head : ActiveAsyncRequest} (hhead : rank.state.queue.asyncCalls.head? = some head)
    {queue : AsyncCallsQueue} {alive : Bool}
    (hcheck : rank.state.queue.isAlive head.asyncCaller call.blocking = some (queue, alive))
    {item : WorkItem} (hitem : queue.worker.curItem = some item) :
    head.asyncRequest.hasAsyncFn = true ∧ item.serial = head.serial := by
  have hkind := h.kind (mem_of_mem_head? hhead)
  have hmisled := h.not_misled hasks (by rw [hcontrol]; rfl)
  obtain ⟨hsound, hcalls⟩ := h.sound.check hcontrol hhead hcheck
  obtain ⟨rest, hrest⟩ : ∃ rest, queue.asyncCalls = head :: rest := by
    rw [hcalls]
    exact head?_eq_some_iff.mp hhead
  have horder := hsound.pipeline.order
  simp only [AsyncCallsQueue.pending, hrest, realSerials_cons, ActiveAsyncRequest.viaWorker,
    hkind, decide_true, Bool.true_and, nil_append, done, hitem,
    Option.toList_some, cons_append, map_cons] at horder
  by_cases hfn : head.asyncRequest.hasAsyncFn = true
  · rw [if_pos hfn, List.cons.injEq] at horder
    exact ⟨hfn, horder.1.symm⟩
  · have hasleep : queue.worker.process = none := by
      by_contra hworker
      exact hmisled (Sound.isAlive_misled hcheck
        ⟨head, by rw [hrest]; rfl, hkind, by simpa using hfn, hworker⟩)
    rw [(hsound.pipeline.asleep hasleep).1] at hitem
    cases hitem

/-- A request found done leads on to its finalization. -/
theorem conclude_done (queue : AsyncCallsQueue) (call : FinalizeCall) :
    QueueState.conclude queue .persistent call true =
      (⟨queue.resetCurItem, .finalizing call⟩, .silent) := rfl

/-- A blocking check that comes to an end has found the head done. -/
theorem check_blocking (h : Straight rank) {head : ActiveAsyncRequest}
    (hhead : rank.state.queue.asyncCalls.head? = some head)
    {queue : AsyncCallsQueue} {alive : Bool}
    (hcheck : rank.state.queue.isAlive head.asyncCaller true = some (queue, alive)) :
    alive = false := by
  have hmem := mem_of_mem_head? hhead
  rcases Sound.isAlive_cases (h.sound.calls head hmem) hcheck with
      ⟨process, hkind, -, -⟩ | ⟨caller, polled, -, -, hpoll, -⟩
  · rw [h.kind hmem] at hkind
    cases hkind
  · exact PersistentAsyncCaller.not_alive_of_poll_blocking hpoll

/-- A blocking call returns with the queue empty. -/
theorem asyncCalls_of_returned (h : Straight rank) {event : QueueEvent}
    (hcond : AsksRightly rank event) {call : FinalizeCall}
    (hcall : rank.state.control.call? = some call) (hblocking : call.blocking = true)
    {serial : Nat} {state : QueueState} {indices : List Int}
    (hstep : rank.state.step serial event = some (state, .returned indices)) :
    state.queue.asyncCalls = [] := by
  have hsame := hcond.1
  cases event with
  | main input =>
    simp only [QueueState.step] at hstep
    cases hcontrol : rank.state.control with
    | idle => simp [hcontrol, call?] at hcall
    | closing => simp [hcontrol, call?] at hcall
    | looping other =>
      obtain rfl : other = call := by simpa [hcontrol, call?] using hcall
      rw [hcontrol] at hstep
      cases hcalls : rank.state.queue.asyncCalls with
      | nil =>
        simp only [QueueState.mainStep, hcalls, QueueState.ret, some.injEq,
          Prod.mk.injEq] at hstep
        rw [← hstep.1]
        exact hcalls
      | cons head rest =>
        have hhead : rank.state.queue.asyncCalls.head? = some head := by rw [hcalls]; rfl
        simp only [QueueState.mainStep, hcalls, hblocking] at hstep
        obtain ⟨⟨queue, alive⟩, hcheck, hresult⟩ := map_eq_some_iff.mp hstep
        obtain rfl := h.check_blocking hhead hcheck
        simp only [h.kind (mem_of_mem_head? hhead), Bool.not_false,
          conclude_done] at hresult
        split at hresult
        · cases hresult
        · cases hresult
    | syncing other alive =>
      obtain rfl : other = call := by simpa [hcontrol, call?] using hcall
      have hposition := h.sound.position
      rw [hcontrol] at hstep hposition
      obtain ⟨head, hhead, -, hdead⟩ := hposition
      have hkind := h.kind (mem_of_mem_head? hhead)
      obtain rfl := hdead hblocking hkind
      have hothers : input.others = 0 :=
        hsame (by rw [hcontrol]; exact hblocking)
      simp only [QueueState.mainStep, hhead, map_some, hkind, hothers, decide_true,
        Bool.not_false, Bool.and_self, conclude_done] at hstep
      cases hstep
    | joining other =>
      rw [hcontrol] at hstep
      simp only [QueueState.mainStep] at hstep
      split at hstep
      · split at hstep
        · cases hstep
        · cases hstep
      · cases hstep
    | finalizing other =>
      rw [hcontrol] at hstep
      simp only [QueueState.mainStep, QueueState.finalizeHead] at hstep
      split at hstep
      · cases hstep
      · cases hstep
    | validating other callIdx =>
      rw [hcontrol] at hstep
      simp only [QueueState.mainStep] at hstep
      split at hstep
      · cases hstep
      · cases hstep
  | close abort => exact hsame.elim
  | schedule request | maybeFinalize blocking noDist =>
    simp only [QueueState.step] at hstep
    split at hstep
    · cases hstep
    · cases hstep
  | prepareWriteData =>
    simp only [QueueState.step] at hstep
    split at hstep
    · split at hstep
      · cases hstep
      · cases hstep
    · cases hstep
  | warmup =>
    simp only [QueueState.step] at hstep
    split at hstep
    · cases hstep
    · cases hstep
  | finish =>
    obtain ⟨result, -, hresult⟩ := map_eq_some_iff.mp hstep
    cases hresult
  | finishWriter i => simp [QueueState.step, h.no_writer i] at hstep
  | dieWriter i => simp [QueueState.step, h.no_writer i] at hstep

end Straight

/-! ## A blocking call comes to an end -/

/-- The worker has worked off everything that was put on its queue, the active calls
without `async_fn` were made when there was no worker, and no finalize function raises. -/
structure AsyncCallsQueue.Quiet (queue : AsyncCallsQueue) : Prop where
  workedOff : queue.worker.queued = []
  noop : ∀ call ∈ queue.asyncCalls, call.asyncRequest.hasAsyncFn = false →
    queue.worker.process = none
  raises : ∀ call ∈ queue.asyncCalls, call.asyncRequest.raises = false

theorem AsyncCallsQueue.Quiet.mono {queue next : AsyncCallsQueue} (h : queue.Quiet)
    (hprocess : next.worker.process = queue.worker.process)
    (hcalls : ∀ call ∈ next.asyncCalls, call ∈ queue.asyncCalls) : next.Quiet where
  workedOff := by
    have hworkedOff := h.workedOff
    unfold queued at hworkedOff ⊢
    rw [hprocess]
    exact hworkedOff
  noop call hmem hnone := by
    rw [hprocess]
    exact h.noop call (hcalls call hmem) hnone
  raises call hmem := h.raises call (hcalls call hmem)

/-- The other ranks make the same calls and finalize the same indices. -/
def SameIndices (rank : RankState) (event : QueueEvent) : Prop :=
  SameCalls rank event ∧
    match event, rank.state.control with
    | .main input, .validating _ callIdx => input.maxCallIdx = callIdx
    | _, _ => True

/-- In a blocking call of a quiet queue. -/
structure Draining (rank : RankState) : Prop where
  straight : Straight rank
  call : ∃ call, rank.state.control.call? = some call ∧ call.blocking = true
  quiet : rank.state.queue.Quiet

namespace Draining

variable {rank next : RankState}

/-- How far the call is from its end. -/
def distance (rank : RankState) : Nat :=
  4 * rank.state.queue.asyncCalls.length +
    match rank.state.control with
    | .validating _ _ => 4
    | .looping _ => 3
    | .syncing _ _ => 2
    | _ => 1

theorem asksAmiss (h : Draining rank) : rank.asksAmiss = false := by
  unfold RankState.asksAmiss
  split
  · rename_i call idx request serial rest _ hcalls
    rw [Bool.and_eq_false_iff]
    by_cases hfn : request.hasAsyncFn = true
    · exact .inl (by simp [hfn])
    · have hasleep := h.quiet.noop ⟨idx, .persistent, request, serial⟩ (by simp [hcalls])
        (by simpa using hfn)
      exact .inr (by simp [hasleep])
  · rfl

/-- The poll of the head finds what it waits for. -/
theorem isAlive_some (h : Draining rank) {head : ActiveAsyncRequest}
    (hhead : rank.state.queue.asyncCalls.head? = some head) {call : FinalizeCall}
    (hcontrol : rank.state.control = .looping call) (blocking : Bool) :
    ∃ result, rank.state.queue.isAlive head.asyncCaller blocking = some result := by
  have hmem := mem_of_mem_head? hhead
  have hkind := h.straight.kind hmem
  have hsound := h.straight.sound.calls head hmem
  unfold ActiveAsyncRequest.Sound at hsound
  rw [hkind] at hsound
  obtain ⟨caller, hcaller⟩ := Option.isSome_iff_exists.mp hsound.1
  have hworker : rank.state.queue.worker = caller := by
    simp [AsyncCallsQueue.worker, hcaller]
  suffices hpoll : ∃ result, caller.poll blocking = some result by
    obtain ⟨⟨polled, alive⟩, hpoll⟩ := hpoll
    rw [hkind]
    refine ⟨({ rank.state.queue with persistentCaller := some polled }, alive), ?_⟩
    simp only [AsyncCallsQueue.isAlive, hcaller, hpoll, map_some]
  cases hprocess : caller.process with
  | none => exact ⟨(caller, false), by simp only [poll, hprocess]⟩
  | some queued =>
    -- the head went through the worker, which has nothing left, so its item is there
    have hfn : head.asyncRequest.hasAsyncFn = true := by
      by_contra hnone
      have hasleep := h.quiet.noop head hmem (by simpa using hnone)
      rw [hworker, hprocess] at hasleep
      cases hasleep
    have horder := h.straight.sound.pipeline.order
    have hworkedOff := h.quiet.workedOff
    obtain ⟨rest, hrest⟩ := head?_eq_some_iff.mp hhead
    rw [hworker] at horder hworkedOff
    simp only [hcontrol, AsyncCallsQueue.pending, hrest, realSerials_cons,
      ActiveAsyncRequest.viaWorker, hkind, decide_true, Bool.true_and, hfn, if_true,
      nil_append, hworkedOff, append_nil] at horder
    cases hitem : caller.curItem with
    | some item =>
      exact ⟨(caller, false), by simp only [poll, hprocess, hitem]⟩
    | none =>
      cases hcompQ : caller.compQ with
      | nil =>
        unfold done at horder
        simp [hitem, hcompQ] at horder
      | cons item others =>
        refine ⟨({ caller with curItem := some item, compQ := others }, false), ?_⟩
        simp only [poll, hprocess, hitem, hcompQ]

/-- The call can go on. -/
theorem goes (h : Draining rank) :
    ∃ event next, SameIndices rank event ∧ rank.step event = some next := by
  obtain ⟨call, hcall, hblocking⟩ := h.call
  have hposition := h.straight.sound.position
  have hstep : ∀ (input : SyncInput) {result : QueueState × Output},
      SameIndices rank (.main input) →
      QueueState.mainStep rank.state.queue input rank.state.control = some result →
      ∃ event next, SameIndices rank event ∧ rank.step event = some next := by
    intro input result hcond hmain
    refine ⟨.main input, ⟨result.1, rank.history.record result.2⟩, hcond, ?_⟩
    simp only [RankState.step, QueueState.step, hmain, map_some]
  cases hcontrol : rank.state.control with
  | idle => simp [hcontrol, call?] at hcall
  | closing => simp [hcontrol, call?] at hcall
  | looping other =>
    rw [hcontrol] at hstep
    have hcond : SameIndices rank (.main ⟨0, 0⟩) := ⟨fun _ => rfl, by simp [hcontrol]⟩
    cases hcalls : rank.state.queue.asyncCalls with
    | nil => exact hstep ⟨0, 0⟩ hcond (by simp only [QueueState.mainStep, hcalls]; rfl)
    | cons head rest =>
      obtain ⟨result, hcheck⟩ := h.isAlive_some (by rw [hcalls]; rfl) hcontrol other.blocking
      exact hstep ⟨0, 0⟩ hcond
        (by simp only [QueueState.mainStep, hcalls, hcheck, map_some]; rfl)
  | syncing other alive =>
    rw [hcontrol] at hposition hstep
    obtain ⟨head, hhead, -⟩ := hposition
    exact hstep ⟨0, 0⟩ ⟨fun _ => rfl, by simp [hcontrol]⟩
      (by simp only [QueueState.mainStep, hhead, map_some]; rfl)
  | joining other =>
    rw [hcontrol] at hposition
    obtain ⟨head, process, hhead, hkind⟩ := hposition
    rw [h.straight.kind (mem_of_mem_head? hhead)] at hkind
    cases hkind
  | finalizing other =>
    rw [hcontrol] at hposition hstep
    obtain ⟨head, hhead, -⟩ := hposition
    obtain ⟨rest, hrest⟩ := head?_eq_some_iff.mp hhead
    exact hstep ⟨0, 0⟩ ⟨fun _ => rfl, by simp [hcontrol]⟩
      (by simp only [QueueState.mainStep, QueueState.finalizeHead, hrest]; rfl)
  | validating other callIdx =>
    rw [hcontrol] at hstep
    exact hstep ⟨0, callIdx⟩ ⟨fun _ => rfl, by simp [hcontrol]⟩
      (by simp only [QueueState.mainStep, if_true]; rfl)

/-- A step of the training process in a blocking call of a quiet queue. -/
theorem main (h : Draining rank) {input : SyncInput}
    (hcond : SameIndices rank (.main input)) (hstep : rank.step (.main input) = some next) :
    (next.state.control = .idle ∧ next.state.queue.asyncCalls = []) ∨
      ((∃ call, next.state.control.call? = some call ∧ call.blocking = true) ∧
        next.state.queue.Quiet ∧ distance next < distance rank) := by
  obtain ⟨call, hcall, hblocking⟩ := h.call
  have hposition := h.straight.sound.position
  have hopened := h.straight.sound.opened
  obtain ⟨⟨state, output⟩, hqueue, rfl⟩ := map_eq_some_iff.mp hstep
  simp only [QueueState.step] at hqueue
  have hquiet : ∀ queue : AsyncCallsQueue,
      queue.worker.process = rank.state.queue.worker.process →
      (∀ call ∈ queue.asyncCalls, call ∈ rank.state.queue.asyncCalls) → queue.Quiet :=
    fun queue => h.quiet.mono
  have hreset : ∀ queue : AsyncCallsQueue,
      queue.resetCurItem.worker.process = queue.worker.process := fun queue => by
    rw [Sound.resetCurItem_worker]
  cases hcontrol : rank.state.control with
  | idle => simp [hcontrol, call?] at hcall
  | closing => simp [hcontrol, call?] at hcall
  | looping other =>
    obtain rfl : other = call := by simpa [hcontrol, call?] using hcall
    rw [hcontrol] at hqueue
    cases hcalls : rank.state.queue.asyncCalls with
    | nil =>
      simp only [QueueState.mainStep, hcalls, QueueState.ret,
        hopened other (by rw [hcontrol]; rfl), Bool.false_eq_true, if_false] at hqueue
      cases hqueue
      exact .inl ⟨rfl, hcalls⟩
    | cons head rest =>
      have hhead : rank.state.queue.asyncCalls.head? = some head := by rw [hcalls]; rfl
      simp only [QueueState.mainStep, hcalls, hblocking] at hqueue
      obtain ⟨⟨polled, alive⟩, hcheck, hresult⟩ := map_eq_some_iff.mp hqueue
      obtain rfl := h.straight.check_blocking hhead hcheck
      obtain ⟨hsame, hprocess⟩ := Sound.isAlive_same hcheck
      simp only [h.straight.kind (mem_of_mem_head? hhead), Bool.not_false,
        Straight.conclude_done] at hresult
      split at hresult
      · cases hresult
        refine .inr ⟨⟨other, rfl, hblocking⟩,
          hquiet _ ((hreset polled).trans hprocess) fun call hmem => hsame ▸ hmem, ?_⟩
        simp [distance, AsyncCallsQueue.resetCurItem, hsame, hcontrol]
      · cases hresult
        refine .inr ⟨⟨other, rfl, hblocking⟩, hquiet _ hprocess fun call hmem => hsame ▸ hmem,
          ?_⟩
        simp [distance, hsame, hcontrol]
  | syncing other alive =>
    obtain rfl : other = call := by simpa [hcontrol, call?] using hcall
    rw [hcontrol] at hqueue hposition
    obtain ⟨head, hhead, -, hdead⟩ := hposition
    have hkind := h.straight.kind (mem_of_mem_head? hhead)
    obtain rfl := hdead hblocking hkind
    have hothers : input.others = 0 := hcond.1 (by rw [hcontrol]; exact hblocking)
    simp only [QueueState.mainStep, hhead, map_some, hkind, hothers, decide_true,
      Bool.not_false, Bool.and_self, Straight.conclude_done] at hqueue
    cases hqueue
    refine .inr ⟨⟨other, rfl, hblocking⟩, hquiet _ (hreset _) fun call hmem => hmem, ?_⟩
    simp [distance, AsyncCallsQueue.resetCurItem, hcontrol]
  | joining other =>
    rw [hcontrol] at hposition
    obtain ⟨head, process, hhead, hkind⟩ := hposition
    rw [h.straight.kind (mem_of_mem_head? hhead)] at hkind
    cases hkind
  | finalizing other =>
    obtain rfl : other = call := by simpa [hcontrol, call?] using hcall
    rw [hcontrol] at hqueue hposition
    obtain ⟨head, hhead, -⟩ := hposition
    obtain ⟨rest, hrest⟩ := head?_eq_some_iff.mp hhead
    have hraises := h.quiet.raises head (mem_of_mem_head? hhead)
    simp only [QueueState.mainStep, QueueState.finalizeHead, hrest, hraises,
      Bool.false_eq_true, if_false] at hqueue
    have hsub : ∀ call ∈ rest, call ∈ rank.state.queue.asyncCalls := fun call hmem => by
      rw [hrest]
      exact mem_cons_of_mem _ hmem
    split at hqueue
    · cases hqueue
      refine .inr ⟨⟨_, rfl, hblocking⟩, hquiet _ rfl hsub, ?_⟩
      simp only [distance, hrest, hcontrol, length_cons]
      omega
    · cases hqueue
      refine .inr ⟨⟨other, rfl, hblocking⟩, hquiet _ rfl hsub, ?_⟩
      simp only [distance, hrest, hcontrol, length_cons]
      omega
  | validating other callIdx =>
    obtain rfl : other = call := by simpa [hcontrol, call?] using hcall
    rw [hcontrol] at hqueue
    have hmatches := hcond.2
    simp only [hcontrol] at hmatches
    simp only [QueueState.mainStep, hmatches, if_true] at hqueue
    cases hqueue
    refine .inr ⟨⟨_, rfl, hblocking⟩, h.quiet, ?_⟩
    simp [distance, hcontrol]

/-- Only the training process can move, and it comes nearer to the end of the call. -/
theorem step (h : Draining rank) {event : QueueEvent} (hcond : SameIndices rank event)
    (hstep : rank.step event = some next) :
    (next.state.control = .idle ∧ next.state.queue.asyncCalls = []) ∨
      (Draining next ∧ distance next < distance rank) := by
  have hstraight : Straight next := h.straight.step ⟨hcond.1, h.asksAmiss⟩ hstep
  obtain ⟨call, hcall, -⟩ := h.call
  have hbusy : rank.state.control ≠ .idle := by
    intro hidle
    rw [hidle] at hcall
    cases hcall
  cases event with
  | main input =>
    refine (h.main hcond hstep).imp_right fun ⟨hcall, hquiet, hless⟩ => ?_
    exact ⟨⟨hstraight, hcall, hquiet⟩, hless⟩
  | finish =>
    obtain ⟨result, hqueue, -⟩ := map_eq_some_iff.mp hstep
    obtain ⟨result, hfinish, -⟩ := map_eq_some_iff.mp hqueue
    obtain ⟨caller, hcaller, hfinish⟩ := Option.bind_eq_some_iff.mp hfinish
    obtain ⟨rest, hworker, -⟩ := finish_cases hfinish
    have hworkedOff := h.quiet.workedOff
    simp [AsyncCallsQueue.worker, hcaller, queued, hworker]
      at hworkedOff
  | finishWriter i | dieWriter i =>
    simp [RankState.step, QueueState.step, h.straight.no_writer i] at hstep
  | schedule _ | maybeFinalize _ _ | prepareWriteData | warmup | close _ =>
    simp [RankState.step, QueueState.step, hbusy] at hstep

end Draining

/-! ## Completions and requests -/

/-- What is claimed of a queue at any time. -/
structure Paired (rank : RankState) : Prop where
  /-- Requests are finalized once each, in the order in which they were scheduled. -/
  order : rank.history.finalized = List.range rank.history.finalized.length
  scheduled : rank.history.finalized.length ≤ rank.history.scheduled
  /-- A finalized request was completed before. -/
  completed : ∀ serial ∈ rank.history.finalized, serial ∈ rank.history.completed
  /-- A check that has an item has the item of the head. -/
  item : ∀ call head queue alive item, rank.state.control = .looping call →
    rank.asksAmiss = false → rank.state.queue.asyncCalls.head? = some head →
    rank.state.queue.isAlive head.asyncCaller call.blocking = some (queue, alive) →
    queue.worker.curItem = some item →
    head.asyncRequest.hasAsyncFn = true ∧ item.serial = head.serial
  /-- A blocking call returns with the queue empty. -/
  returned : ∀ event call serial state indices, AsksRightly rank event →
    rank.state.control.call? = some call → call.blocking = true →
    rank.state.step serial event = some (state, .returned indices) →
    state.queue.asyncCalls = []
  /-- Once the worker has worked off its queue, a blocking call comes to its end. -/
  ends : ∀ call, rank.state.control.call? = some call → call.blocking = true →
    rank.state.queue.Quiet → queueSystem.Inevitable SameIndices
      (fun final => final.state.control = .idle ∧ final.state.queue.asyncCalls = []) rank

/-- In every run in which no request without `async_fn` is asked for while there is a worker,
completions are paired with requests. -/
theorem completions_paired {rank : RankState}
    (h : queueSystem.Reachable AsksRightly rank) : Paired rank := by
  have hstraight := Straight.of_reachable h
  have hscheduled := hstraight.sound.scheduled
  refine ⟨hstraight.sound.finalized, by omega, hstraight.sound.completed, ?_, ?_, ?_⟩
  · intro call head queue alive item hcontrol hasks hhead hcheck hitem
    exact hstraight.item_of_check hasks hcontrol hhead hcheck hitem
  · intro event call serial state indices hcond hcall hblocking hstep
    exact hstraight.asyncCalls_of_returned hcond hcall hblocking hstep
  · intro call hcall hblocking hquiet
    refine System.Inevitable.of_measure Draining.distance (fun _ hdraining => hdraining.goes)
      (fun _ _ _ hdraining hcond hstep => hdraining.step hcond hstep)
      (⟨hstraight, ⟨call, hcall, hblocking⟩, hquiet⟩ : Draining rank)

/-- A request without `async_fn` before the worker is started, two with one, and a blocking
call that finalizes all three. -/
theorem completions_paired_three :
    ∃ rank, rank.history.finalized = [0, 1, 2] ∧ Paired rank := by
  have hrun : (queueSystem.execute AsksRightly (.fresh true false)
      [.schedule ⟨false, 0, false⟩, .maybeFinalize false true, .main ⟨0, 0⟩, .main ⟨0, 0⟩,
        .main ⟨0, 0⟩, .schedule ⟨true, 1, false⟩, .schedule ⟨true, 2, false⟩, .finish,
        .maybeFinalize true true, .main ⟨0, 0⟩, .main ⟨0, 0⟩, .finish, .main ⟨0, 0⟩,
        .main ⟨0, 0⟩, .main ⟨0, 0⟩]).any
      (fun rank => rank.history.finalized = [0, 1, 2]) = true := by
    decide +kernel
  have hinit : queueSystem.init (.fresh true false) := ⟨false, rfl⟩
  obtain ⟨rank, hrank, htest⟩ := System.exists_reachable_of_execute hinit hrun
  exact ⟨rank, of_decide_eq_true htest, completions_paired hrank⟩

/-- The blocking call of a rank whose worker is done and whose item was taken before. -/
def waitingForTaken : QueueState :=
  ⟨⟨true, false, [⟨2, .persistent, ⟨true, 0, false⟩, 2⟩], 2, some ⟨some [], [], none⟩, false,
    false⟩, .looping ⟨true, false, false, [0, 0]⟩⟩

theorem waitingForTaken_stuck (history : History) (event : QueueEvent) :
    RankState.step ⟨waitingForTaken, history⟩ event = none := by
  cases event with
  | main input => rfl
  | finishWriter i => cases i <;> rfl
  | dieWriter i => cases i <;> rfl
  | _ => rfl

/-- Request 1 has no `async_fn` and is asked for when the worker is done with requests 0 and
2: the check takes the item of request 2 for it, and the blocking call then waits for an item
of request 2 for ever. -/
theorem noop_takes_next_item :
    (∃ rank, queueSystem.Reachable SameCalls rank ∧ rank.state.control.inSync = true ∧
      rank.state.queue.asyncCalls.head?.map (fun head => head.serial) = some 1 ∧
      rank.state.queue.worker.curItem.map (fun item => item.serial) = some 2) ∧
    ∃ rank, queueSystem.Reachable SameCalls rank ∧ rank.state.queue.worker.queued = [] ∧
      rank.state.control.call?.map (fun call => call.blocking) = some true ∧
      rank.state.queue.asyncCalls ≠ [] ∧ ∀ event, rank.step event = none := by
  have hinit : queueSystem.init (.fresh true false) := ⟨false, rfl⟩
  have htaken : (queueSystem.execute SameCalls (.fresh true false)
      [.schedule ⟨true, 0, false⟩, .schedule ⟨false, 0, false⟩, .schedule ⟨true, 0, false⟩,
        .finish, .finish, .maybeFinalize true false, .main ⟨0, 0⟩, .main ⟨0, 0⟩, .main ⟨0, 0⟩,
        .main ⟨0, 0⟩, .main ⟨0, 0⟩]).any
      (fun rank => rank.state.control.inSync = true ∧
        rank.state.queue.asyncCalls.head?.map (fun head => head.serial) = some 1 ∧
        rank.state.queue.worker.curItem.map (fun item => item.serial) = some 2) = true := by
    decide +kernel
  have hwaiting : (queueSystem.execute SameCalls (.fresh true false)
      [.schedule ⟨true, 0, false⟩, .schedule ⟨false, 0, false⟩, .schedule ⟨true, 0, false⟩,
        .finish, .finish, .maybeFinalize true false, .main ⟨0, 0⟩, .main ⟨0, 0⟩, .main ⟨0, 0⟩,
        .main ⟨0, 0⟩, .main ⟨0, 0⟩, .main ⟨0, 0⟩, .main ⟨0, 0⟩, .main ⟨0, 0⟩]).any
      (fun rank => rank.state = waitingForTaken) = true := by
    decide +kernel
  obtain ⟨taken, hreach, htest⟩ := System.exists_reachable_of_execute hinit htaken
  obtain ⟨⟨state, history⟩, hreach', htest'⟩ := System.exists_reachable_of_execute hinit hwaiting
  obtain rfl : state = waitingForTaken := of_decide_eq_true htest'
  exact ⟨⟨taken, hreach, of_decide_eq_true htest⟩, _, hreach', rfl, rfl, by simp [waitingForTaken],
    waitingForTaken_stuck history⟩

end ResiliencyExt.Checkpointing.AsyncCkpt
