import Mathlib.Data.List.Infix
import ResiliencyExt.Foundation.System
import ResiliencyExt.Checkpointing.AsyncCkpt.QueueInvariant

set_option autoImplicit false

/-!
# Finalized indices are the scheduled indices

`schedule_async_request` counts the requests and gives the count to the copy the
worker gets, but the request kept for the finalization is the caller's: its
`call_idx` is what `execute_finalize_fns` compares between the ranks and returns.  The
two agree when the caller had put the index into the request.
-/

namespace ResiliencyExt.Checkpointing.AsyncCkpt

open Foundation List

/-- Any queue of one rank, to which anything may be done. -/
def openQueueSystem : System RankState QueueEvent where
  init rank := ∃ persistent cpuShmMode, rank = .fresh persistent cpuShmMode
  step := RankState.step

/-- In a blocking call of a persistent queue the other ranks block as well. -/
def BlocksTogether (rank : RankState) : QueueEvent → Prop
  | .main input => rank.state.control.blocksInSync = true →
      rank.state.queue.persistent = true → input.others = 0
  | _ => True

instance (rank : RankState) (event : QueueEvent) : Decidable (BlocksTogether rank event) :=
  match event with
  | .main input => inferInstanceAs (Decidable (rank.state.control.blocksInSync = true →
      rank.state.queue.persistent = true → input.others = 0))
  | .schedule _ | .maybeFinalize _ _ | .prepareWriteData | .warmup | .close _ | .finish
  | .finishWriter _ | .dieWriter _ => .isTrue trivial

/-- The request carries the index it will be given, no finalize function raises, the index
check passes, and the queue is aborted only when no call is active. -/
def CarriesIndex (rank : RankState) : QueueEvent → Prop
  | .schedule request => request.callIdx = rank.state.queue.callIdx + 1 ∧ request.raises = false
  | .close abort => abort = true → rank.state.queue.asyncCalls = []
  | .main input => rank.state.control.inValidation = true →
      input.maxCallIdx = rank.state.control.callIdx
  | _ => True

instance (rank : RankState) (event : QueueEvent) : Decidable (CarriesIndex rank event) :=
  match event with
  | .schedule request => inferInstanceAs (Decidable
      (request.callIdx = rank.state.queue.callIdx + 1 ∧ request.raises = false))
  | .close abort =>
    inferInstanceAs (Decidable (abort = true → rank.state.queue.asyncCalls = []))
  | .main input => inferInstanceAs (Decidable (rank.state.control.inValidation = true →
      input.maxCallIdx = rank.state.control.callIdx))
  | .maybeFinalize _ _ | .prepareWriteData | .warmup | .finish | .finishWriter _
  | .dieWriter _ => .isTrue trivial

/-- The condition on a step. -/
def Indexes (rank : RankState) (event : QueueEvent) : Prop :=
  BlocksTogether rank event ∧ CarriesIndex rank event

instance (rank : RankState) (event : QueueEvent) : Decidable (Indexes rank event) :=
  inferInstanceAs (Decidable (_ ∧ _))

/-! ## The invariant -/

/-- The indices the running call has finalized, the one being checked included. -/
def Control.inFlight : Control → List Int
  | .looping call | .syncing call _ | .joining call | .finalizing call => call.callIdxFinalized
  | .validating call callIdx => call.callIdxFinalized ++ [callIdx]
  | .idle | .closing => []

/-- The call is one of the queue's and its request carries its index. -/
def ActiveAsyncRequest.Indexed (queue : AsyncCallsQueue) (call : ActiveAsyncRequest) : Prop :=
  call.asyncRequest.callIdx = call.idx ∧ call.asyncRequest.raises = false ∧
    match call.asyncCaller with
    | .temporal _ => queue.persistent = false
    | .persistent => queue.persistent = true ∧ queue.persistentCaller.isSome = true
    | .closed => False

/-- What is known where the training process stands. -/
def Control.Indexed (queue : AsyncCallsQueue) : Control → Prop
  | .syncing call alive =>
    call.blocking = true → queue.persistent = true → alive = false
  | .closing => queue.asyncCalls = []
  | _ => True

/-- The indices returned so far, those of the running call and those of the active calls are
the scheduled ones. -/
structure Indexed (queue : AsyncCallsQueue) (control : Control) (history : History) : Prop where
  calls : ∀ call ∈ queue.asyncCalls, call.Indexed queue
  listed : history.returned ++ control.inFlight ++
    queue.asyncCalls.map (fun call => call.idx) = history.indices
  counted : history.indices = (List.range history.indices.length).map Int.ofNat
  next : queue.callIdx = history.indices.length - 1
  position : control.Indexed queue
  blocks : ∀ call ∈ control.call?, call.closing = true → call.blocking = true

theorem ActiveAsyncRequest.Indexed.mono {queue next : AsyncCallsQueue}
    {call : ActiveAsyncRequest} (h : call.Indexed queue)
    (hpersistent : next.persistent = queue.persistent)
    (hkept : queue.persistentCaller.isSome = true → next.persistentCaller.isSome = true) :
    call.Indexed next := by
  obtain ⟨hidx, hraises, hkind⟩ := h
  refine ⟨hidx, hraises, ?_⟩
  cases hcaller : call.asyncCaller with
  | temporal process =>
    rw [hcaller] at hkind
    exact hpersistent.trans hkind
  | persistent =>
    rw [hcaller] at hkind
    exact ⟨hpersistent.trans hkind.1, hkept hkind.2⟩
  | closed =>
    rw [hcaller] at hkind
    exact hkind

namespace Indexed

variable {queue next : AsyncCallsQueue} {control : Control} {history : History}

variable {call : FinalizeCall} {state : QueueState} {output : Output}

theorem fresh (persistent cpuShmMode : Bool) :
    Indexed (.fresh persistent cpuShmMode) .idle .empty :=
  ⟨by simp [AsyncCallsQueue.fresh], rfl, rfl, rfl, trivial, by simp [Control.call?]⟩

/-- The queue may change where the invariant does not look. -/
theorem goTo (h : Indexed queue control history) {goal : Control}
    (hcalls : next.asyncCalls = queue.asyncCalls) (hidx : next.callIdx = queue.callIdx)
    (hpersistent : next.persistent = queue.persistent)
    (hkept : queue.persistentCaller.isSome = true → next.persistentCaller.isSome = true)
    (hflight : goal.inFlight = control.inFlight) (hgoal : goal.Indexed next)
    (hblocks : ∀ call ∈ goal.call?, call.closing = true → call.blocking = true) :
    Indexed next goal history := by
  refine ⟨fun call hmem => ?_, ?_, h.counted, hidx.trans h.next, hgoal, hblocks⟩
  · rw [hcalls] at hmem
    exact (h.calls call hmem).mono hpersistent hkept
  · rw [hflight, hcalls]
    exact h.listed

/-! ### Scheduling -/

theorem scheduleAsyncRequest (h : Indexed queue .idle history) {request : AsyncRequest}
    (hcarries : request.callIdx = queue.callIdx + 1) (hraises : request.raises = false)
    (serial : Nat) :
    Indexed (queue.scheduleAsyncRequest request serial).1 .idle
      (history.record (.scheduled (queue.scheduleAsyncRequest request serial).2
        request.hasAsyncFn)) := by
  have hcallIdx : queue.callIdx + 1 = history.indices.length := by
    rw [h.next]
    omega
  have hrange : history.indices ++ [queue.callIdx + 1] =
      (List.range (history.indices ++ [queue.callIdx + 1]).length).map Int.ofNat := by
    rw [length_append, length_singleton, range_succ, map_append,
      ← h.counted, hcallIdx]
    rfl
  suffices hnext : ∀ (next : AsyncCallsQueue) (call : ActiveAsyncRequest),
      next.asyncCalls = queue.asyncCalls ++ [call] → next.callIdx = queue.callIdx + 1 →
      next.persistent = queue.persistent →
      (queue.persistentCaller.isSome = true → next.persistentCaller.isSome = true) →
      call.idx = queue.callIdx + 1 → call.Indexed next →
      Indexed next .idle
        (history.record (.scheduled (queue.callIdx + 1) request.hasAsyncFn)) by
    unfold AsyncCallsQueue.scheduleAsyncRequest
    cases hpersistent : queue.persistent with
    | true =>
      refine hnext _ ⟨queue.callIdx + 1, .persistent, request, serial⟩ ?_ rfl ?_
        (fun _ => rfl) rfl ⟨hcarries, hraises, ?_, rfl⟩
      · exact congrArg (· ++ _) (Sound.getAsyncCaller_asyncCalls queue)
      · exact Sound.getAsyncCaller_persistent queue
      · exact (Sound.getAsyncCaller_persistent queue).trans hpersistent
    | false =>
      exact hnext _ ⟨queue.callIdx + 1, .temporal _, request, serial⟩ rfl rfl hpersistent.symm
        id rfl ⟨hcarries, hraises, rfl⟩
  intro next call hcalls hidx hpersistent hkept hcallIdx' hcall
  refine ⟨fun other hmem => ?_, ?_, hrange, ?_, trivial, by simp [Control.call?]⟩
  · rw [hcalls] at hmem
    rcases mem_append.mp hmem with hmem | hmem
    · exact (h.calls other hmem).mono hpersistent hkept
    · rw [mem_singleton.mp hmem]
      exact hcall
  · have hlisted := h.listed
    simp only [Control.inFlight, append_nil] at hlisted
    simp only [hcalls, map_append, map_cons, map_nil, History.record,
      Control.inFlight, append_nil, ← append_assoc, hlisted, hcallIdx']
  · simp only [History.record, length_append, length_singleton, hidx, hcallIdx]
    omega

/-! ### The background -/

section

variable (h : Indexed queue control history)
include h

/-- A writer exits, however it does. -/
theorem exitWriter {i serial : Nat} (hexit : queue.exitWriter i = some (next, serial)) :
    Indexed next control history := by
  obtain ⟨before, idx, request, after, hcalls, rfl⟩ := Sound.exitWriter_cases hexit
  have hlisted := h.listed
  have hposition := h.position
  refine ⟨fun call hmem => ?_, ?_, h.counted, h.next, ?_, h.blocks⟩
  · rcases mem_append.mp hmem with hmem | hmem
    · exact h.calls call (by simp [hcalls, hmem])
    · rcases mem_cons.mp hmem with rfl | hmem
      · exact h.calls ⟨idx, .temporal (some .running), request, serial⟩ (by simp [hcalls])
      · exact h.calls call (by simp [hcalls, hmem])
  · simpa [hcalls] using hlisted
  · cases control with
    | closing => simp [Control.Indexed, hcalls] at hposition
    | _ => exact hposition

/-! ### The training process -/

/-- What the poll of the head of the queue leaves. -/
theorem check (hcontrol : control = .looping call) {head : ActiveAsyncRequest} {alive : Bool}
    (hhead : queue.asyncCalls.head? = some head)
    (hcheck : queue.isAlive head.asyncCaller call.blocking = some (next, alive)) :
    Indexed next (.syncing call alive) history ∧ next.asyncCalls = queue.asyncCalls := by
  subst hcontrol
  have hhead' := h.calls head (mem_of_mem_head? hhead)
  obtain ⟨-, -, hkind⟩ := hhead'
  cases hcaller : head.asyncCaller with
  | temporal process =>
    rw [hcaller] at hcheck hkind
    cases hcheck
    refine ⟨h.goTo rfl rfl rfl id rfl (fun _ hpersistent => ?_) h.blocks, rfl⟩
    rw [hkind] at hpersistent
    cases hpersistent
  | persistent =>
    rw [hcaller] at hcheck hkind
    obtain ⟨caller, hsome⟩ := Option.isSome_iff_exists.mp hkind.2
    simp only [AsyncCallsQueue.isAlive, hsome] at hcheck
    obtain ⟨⟨polled, found⟩, hpoll, hresult⟩ := Option.map_eq_some_iff.mp hcheck
    cases hresult
    refine ⟨h.goTo rfl rfl rfl (fun _ => rfl) rfl (fun hblocking _ => ?_) h.blocks, rfl⟩
    rw [hblocking] at hpoll
    exact PersistentAsyncCaller.not_alive_of_poll_blocking hpoll
  | closed =>
    rw [hcaller] at hkind
    exact hkind.elim

/-- The end of `is_current_async_call_done`; a call from `close` goes on. -/
theorem conclude {alive : Bool} (hcontrol : control = .syncing call alive)
    {head : ActiveAsyncRequest} (hhead : queue.asyncCalls.head? = some head) {isDone : Bool}
    (hdone : call.blocking = true → queue.persistent = true → isDone = true)
    (hstep : QueueState.conclude queue head.asyncCaller call isDone = (state, output)) :
    Indexed state.queue state.control (history.record output) := by
  subst hcontrol
  obtain ⟨-, -, hkind⟩ := h.calls head (mem_of_mem_head? hhead)
  have hblocks : call.closing = true → call.blocking = true := h.blocks call rfl
  have hlisted := h.listed
  have hret : call.blocking = false → (state, output) = QueueState.ret queue call →
      Indexed state.queue state.control (history.record output) := by
    intro hblocking hret
    have hclosing : call.closing = false := by
      cases hclosing : call.closing with
      | false => rfl
      | true => rw [hblocks hclosing] at hblocking; cases hblocking
    simp only [QueueState.ret, hclosing, Bool.false_eq_true, if_false, Prod.mk.injEq] at hret
    obtain ⟨rfl, rfl⟩ := hret
    refine ⟨h.calls, ?_, h.counted, h.next, trivial, by simp [Control.call?]⟩
    simpa [History.record, Control.inFlight] using hlisted
  cases hcaller : head.asyncCaller with
  | temporal process =>
    simp only [QueueState.conclude, hcaller] at hstep
    split at hstep
    · cases hstep
      exact h.goTo rfl rfl rfl id rfl trivial h.blocks
    · rename_i hnot
      refine hret ?_ hstep.symm
      cases hblocking : call.blocking with
      | false => rfl
      | true => simp [hblocking] at hnot
  | persistent =>
    rw [hcaller] at hkind
    simp only [QueueState.conclude, hcaller] at hstep
    split at hstep
    · cases hstep
      refine h.goTo rfl rfl rfl ?_ rfl trivial h.blocks
      simp [AsyncCallsQueue.resetCurItem]
    · rename_i hnot
      refine hret ?_ hstep.symm
      cases hblocking : call.blocking with
      | false => rfl
      | true => exact absurd (hdone hblocking hkind.1) hnot
  | closed =>
    rw [hcaller] at hkind
    exact hkind.elim

/-- The index that is compared and returned is that of the head. -/
theorem finalizeHead (hcontrol : control = .finalizing call)
    (hstep : QueueState.finalizeHead queue call = some (state, output)) :
    Indexed state.queue state.control (history.record output) := by
  subst hcontrol
  unfold QueueState.finalizeHead at hstep
  split at hstep
  · cases hstep
  rename_i head rest hcalls
  obtain ⟨hidx, hraises, -⟩ := h.calls head (by simp [hcalls])
  have hlisted := h.listed
  have hblocks := h.blocks
  have hrest : ∀ other ∈ rest, other.Indexed { queue with asyncCalls := rest } :=
    fun other hmem => (h.calls other (by simp [hcalls, hmem])).mono rfl id
  simp only [hraises, Bool.false_eq_true, if_false, hidx] at hstep
  split at hstep
  · cases hstep
    refine ⟨hrest, ?_, h.counted, h.next, trivial, ?_⟩
    · simpa [hcalls, Control.inFlight, History.record] using hlisted
    · simpa [Control.call?] using hblocks
  · cases hstep
    refine ⟨hrest, ?_, h.counted, h.next, trivial, hblocks⟩
    simpa [hcalls, Control.inFlight, History.record] using hlisted

omit h in
/-- The queue starts anew once no call is active. -/
theorem reset (hempty : queue.asyncCalls = []) :
    Indexed queue.reset .idle (history.record .closed) := by
  refine ⟨?_, ?_, rfl, rfl, trivial, by simp [Control.call?]⟩
  · simp [AsyncCallsQueue.reset, hempty]
  · simp [AsyncCallsQueue.reset, hempty, History.record, Control.inFlight]

theorem mainStep {input : SyncInput}
    (hblocks : control.blocksInSync = true → queue.persistent = true → input.others = 0)
    (hmatches : control.inValidation = true → input.maxCallIdx = control.callIdx)
    (hstep : QueueState.mainStep queue input control = some (state, output)) :
    Indexed state.queue state.control (history.record output) := by
  have hposition := h.position
  have hcalls := h.blocks
  have hlisted := h.listed
  cases hcontrol : control with
  | idle => simp [QueueState.mainStep, hcontrol] at hstep
  | looping call =>
    subst hcontrol
    cases hasyncCalls : queue.asyncCalls with
    | nil =>
      simp only [QueueState.mainStep, hasyncCalls, QueueState.ret] at hstep
      cases hstep
      refine ⟨h.calls, ?_, h.counted, h.next, ?_, ?_⟩
      · cases call.closing <;>
          simpa [History.record, Control.inFlight, hasyncCalls] using hlisted
      · cases call.closing
        · trivial
        · exact hasyncCalls
      · cases call.closing <;> simp [Control.call?]
    | cons head rest =>
      have hhead : queue.asyncCalls.head? = some head := by rw [hasyncCalls]; rfl
      simp only [QueueState.mainStep, hasyncCalls] at hstep
      obtain ⟨⟨polled, alive⟩, hcheck, hresult⟩ := Option.map_eq_some_iff.mp hstep
      obtain ⟨hnext, hsame⟩ := h.check rfl hhead hcheck
      split at hresult
      · refine hnext.conclude rfl (by rw [hsame]; exact hhead) ?_ hresult
        intro hblocking hpersistent
        rw [hnext.position hblocking hpersistent]
        rfl
      · cases hresult
        exact hnext
  | syncing call alive =>
    subst hcontrol
    obtain ⟨head, hhead, hresult⟩ := Option.map_eq_some_iff.mp hstep
    refine h.conclude rfl hhead ?_ hresult
    intro hblocking hpersistent
    rw [hposition hblocking hpersistent, hblocks hblocking hpersistent]
    rfl
  | joining call =>
    subst hcontrol
    simp only [QueueState.mainStep] at hstep
    split at hstep
    · rename_i idx process request serial rest hasyncCalls
      split at hstep
      · cases hstep
      · cases hstep
        refine ⟨fun other hmem => ?_, ?_, h.counted, h.next, trivial, hcalls⟩
        · rcases mem_cons.mp hmem with rfl | hmem
          · exact h.calls ⟨idx, .temporal process, request, serial⟩ (by simp [hasyncCalls])
          · exact h.calls other (by simp [hasyncCalls, hmem])
        · simpa [hasyncCalls, Control.inFlight, History.record] using hlisted
    · cases hstep
  | finalizing call =>
    subst hcontrol
    exact h.finalizeHead rfl hstep
  | validating call callIdx =>
    subst hcontrol
    simp only [QueueState.mainStep, hmatches rfl, Control.callIdx, if_true] at hstep
    cases hstep
    refine ⟨h.calls, ?_, h.counted, h.next, trivial, ?_⟩
    · simpa [Control.inFlight, History.record] using hlisted
    · simpa [Control.call?] using hcalls
  | closing =>
    subst hcontrol
    simp only [QueueState.mainStep] at hstep
    split at hstep
    · cases hstep
    · cases hstep
      exact reset hposition

/-- A queue without a caller has no active call. -/
theorem asyncCalls_eq_nil (hpersistent : queue.persistent = true)
    (hnone : queue.persistentCaller.isSome = false) : queue.asyncCalls = [] := by
  refine eq_nil_iff_forall_not_mem.mpr fun call hmem => ?_
  obtain ⟨-, -, hkind⟩ := h.calls call hmem
  cases hcaller : call.asyncCaller with
  | temporal process =>
    rw [hcaller, hpersistent] at hkind
    cases hkind
  | persistent =>
    rw [hcaller, hnone] at hkind
    cases hkind.2
  | closed =>
    rw [hcaller] at hkind
    exact hkind

end

theorem close (h : Indexed queue .idle history) {abort : Bool}
    (habort : abort = true → queue.asyncCalls = []) :
    Indexed (QueueState.close queue abort).1.queue (QueueState.close queue abort).1.control
      (history.record (QueueState.close queue abort).2) := by
  have hcleared : Indexed queue.clearDrainCallback .idle history :=
    h.goTo rfl rfl rfl id rfl trivial (by simp [Control.call?])
  unfold QueueState.close
  cases abort with
  | true => exact reset (habort rfl)
  | false =>
    simp only [Bool.false_eq_true, if_false]
    split
    · exact hcleared.goTo rfl rfl rfl id rfl trivial (by simp [Control.call?])
    · rename_i hnone
      rw [not_or, Bool.not_eq_false, Bool.not_eq_true] at hnone
      exact reset (h.asyncCalls_eq_nil hnone.1 hnone.2)

theorem step {rank after : RankState}
    (h : Indexed rank.state.queue rank.state.control rank.history) {event : QueueEvent}
    (hcond : Indexes rank event) (hstep : rank.step event = some after) :
    Indexed after.state.queue after.state.control after.history := by
  obtain ⟨hblocks, hcarries⟩ := hcond
  obtain ⟨⟨queue, control⟩, history⟩ := rank
  obtain ⟨⟨state, output⟩, hqueue, rfl⟩ := Option.map_eq_some_iff.mp hstep
  dsimp only at h hqueue ⊢
  cases event with
  | schedule request =>
    simp only [QueueState.step] at hqueue
    split at hqueue
    · rename_i hidle
      subst hidle
      cases hqueue
      exact h.scheduleAsyncRequest hcarries.1 hcarries.2 _
    · cases hqueue
  | maybeFinalize blocking noDist =>
    simp only [QueueState.step] at hqueue
    split at hqueue
    · rename_i hidle
      subst hidle
      cases hqueue
      exact h.goTo rfl rfl rfl id rfl trivial (by simp [Control.call?])
    · cases hqueue
  | prepareWriteData =>
    simp only [QueueState.step] at hqueue
    split at hqueue
    · rename_i hidle
      subst hidle
      split at hqueue
      · cases hqueue
        exact h.goTo rfl rfl rfl id rfl trivial (by simp [Control.call?])
      · cases hqueue
        exact h
    · cases hqueue
  | warmup =>
    simp only [QueueState.step] at hqueue
    split at hqueue
    · rename_i hidle
      subst hidle
      cases hqueue
      exact h.goTo rfl rfl rfl id rfl trivial h.blocks
    · cases hqueue
  | close abort =>
    simp only [QueueState.step] at hqueue
    split at hqueue
    · rename_i hidle
      subst hidle
      have hclose := h.close hcarries
      rw [Option.some.inj hqueue] at hclose
      exact hclose
    · cases hqueue
  | main input => exact h.mainStep hblocks hcarries hqueue
  | finish =>
    obtain ⟨⟨caller, item⟩, hfinish, hresult⟩ := Option.map_eq_some_iff.mp hqueue
    cases hresult
    have hposition := h.position
    refine ⟨fun call hmem => (h.calls call hmem).mono rfl fun _ => rfl, h.listed, h.counted,
      h.next, ?_, h.blocks⟩
    cases control with
    | syncing call alive => exact hposition
    | closing => exact hposition
    | _ => trivial
  | finishWriter i =>
    obtain ⟨⟨after, serial⟩, hexit, hresult⟩ := Option.map_eq_some_iff.mp hqueue
    cases hresult
    have hnext := h.exitWriter hexit
    exact ⟨hnext.calls, hnext.listed, hnext.counted, hnext.next, hnext.position, hnext.blocks⟩
  | dieWriter i =>
    obtain ⟨⟨after, serial⟩, hexit, hresult⟩ := Option.map_eq_some_iff.mp hqueue
    cases hresult
    exact h.exitWriter hexit

theorem of_reachable {rank : RankState} (h : openQueueSystem.Reachable Indexes rank) :
    Indexed rank.state.queue rank.state.control rank.history := by
  refine System.Reachable.invariant (P := fun rank =>
    Indexed rank.state.queue rank.state.control rank.history) ?_
    (fun _ _ _ hindexed hcond hstep => hindexed.step hcond hstep) h
  rintro rank ⟨persistent, cpuShmMode, rfl⟩
  exact fresh persistent cpuShmMode

end Indexed

/-! ## The indices returned and compared -/

/-- The check of the call index raises. -/
def RankState.Unmatched (rank : RankState) (input : SyncInput) : Prop :=
  ∀ next, rank.step (.main input) = some next →
    next.state.control = .idle ∧ next.history = rank.history

theorem RankState.unmatched_of_ne {rank : RankState} {call : FinalizeCall} {callIdx : Int}
    (hcontrol : rank.state.control = .validating call callIdx) {input : SyncInput}
    (hne : input.maxCallIdx ≠ callIdx) : rank.Unmatched input := by
  intro next hstep
  obtain ⟨⟨state, output⟩, hqueue, rfl⟩ := Option.map_eq_some_iff.mp hstep
  simp only [QueueState.step, hcontrol, QueueState.mainStep, if_neg hne] at hqueue
  cases hqueue
  exact ⟨rfl, rfl⟩

/-- In runs whose requests carry the index they are given, the indices returned since the last
close are the first ones scheduled, each once and in order; what is compared between the ranks
is the index of the request being finalized, the next one scheduled; and two ranks that
compare different indices do not both pass. -/
theorem finalized_indices_scheduled {rank : RankState}
    (h : openQueueSystem.Reachable Indexes rank) :
    (rank.history.indices = (List.range rank.history.indices.length).map Int.ofNat ∧
      rank.history.returned <+: rank.history.indices) ∧
    ∀ call callIdx, rank.state.control = .validating call callIdx →
      rank.history.returned ++ call.callIdxFinalized ++ [callIdx] <+: rank.history.indices ∧
      ∀ other, openQueueSystem.Reachable Indexes other → ∀ otherCall otherIdx,
        other.state.control = .validating otherCall otherIdx → callIdx ≠ otherIdx →
        ∀ input otherInput : SyncInput, input.maxCallIdx = otherInput.maxCallIdx →
          rank.Unmatched input ∨ other.Unmatched otherInput := by
  have hindexed := Indexed.of_reachable h
  have hlisted := hindexed.listed
  refine ⟨⟨hindexed.counted, ?_⟩, fun call callIdx hcontrol => ⟨?_, ?_⟩⟩
  · rw [append_assoc] at hlisted
    exact ⟨_, hlisted⟩
  · rw [hcontrol, Control.inFlight, ← append_assoc] at hlisted
    exact ⟨_, hlisted⟩
  · intro other _ otherCall otherIdx hother hne input otherInput hmax
    by_cases hmatch : input.maxCallIdx = callIdx
    · refine .inr (RankState.unmatched_of_ne hother ?_)
      rw [← hmax, hmatch]
      exact hne
    · exact .inl (RankState.unmatched_of_ne hcontrol hmatch)

/-- A rank that is at the check of its second request, and one that is at its first. -/
theorem finalized_indices_scheduled_second :
    ∃ rank other : RankState,
      (rank.history.returned <+: rank.history.indices ∧ [0] ++ [1] <+: rank.history.indices) ∧
        (rank.Unmatched ⟨0, 1⟩ ∨ other.Unmatched ⟨0, 1⟩) := by
  have hinit : openQueueSystem.init (.fresh false false) := ⟨false, false, rfl⟩
  have hsecond : (openQueueSystem.execute Indexes (.fresh false false)
      [.schedule ⟨true, 0, false⟩, .schedule ⟨true, 1, false⟩, .finishWriter 0,
        .finishWriter 1, .maybeFinalize true false, .main ⟨0, 0⟩, .main ⟨0, 0⟩, .main ⟨0, 0⟩,
        .main ⟨0, 0⟩, .main ⟨0, 0⟩, .main ⟨0, 0⟩, .main ⟨0, 0⟩, .main ⟨0, 0⟩,
        .main ⟨0, 0⟩]).any (fun rank => rank.history.returned = [] ∧
          rank.state.control = .validating ⟨true, false, false, [0]⟩ 1) = true := by
    decide +kernel
  have hfirst : (openQueueSystem.execute Indexes (.fresh false false)
      [.schedule ⟨true, 0, false⟩, .finishWriter 0, .maybeFinalize true false, .main ⟨0, 0⟩,
        .main ⟨0, 0⟩, .main ⟨0, 0⟩, .main ⟨0, 0⟩]).any
      (fun rank => rank.state.control = .validating ⟨true, false, false, []⟩ 0) = true := by
    decide +kernel
  obtain ⟨rank, hrank, htest⟩ := System.exists_reachable_of_execute hinit hsecond
  obtain ⟨other, hother, hcontrol'⟩ := System.exists_reachable_of_execute hinit hfirst
  obtain ⟨hreturned, hcontrol⟩ := of_decide_eq_true htest
  obtain ⟨⟨-, hreturnedFirst⟩, hchecked⟩ := finalized_indices_scheduled hrank
  obtain ⟨hnext, hpair⟩ := hchecked _ _ hcontrol
  rw [hreturned] at hnext
  exact ⟨rank, other, ⟨hreturnedFirst, hnext⟩,
    hpair other hother _ _ (of_decide_eq_true hcontrol') (by decide) _ _ rfl⟩

/-- Two requests with the default `call_idx` are given the indices 0 and 1, and the index that
is compared and returned is 0 for both. -/
theorem default_index_returned_twice :
    ∃ rank, openQueueSystem.Reachable BlocksTogether rank ∧
      rank.history.indices = [0, 1] ∧ rank.history.returned = [0, 0] ∧
      ¬ rank.history.returned <+: rank.history.indices := by
  have hinit : openQueueSystem.init (.fresh false false) := ⟨false, false, rfl⟩
  have hrun : (openQueueSystem.execute BlocksTogether (.fresh false false)
      [.schedule ⟨true, 0, false⟩, .schedule ⟨true, 0, false⟩, .finishWriter 0,
        .finishWriter 1, .maybeFinalize true false, .main ⟨0, 0⟩, .main ⟨0, 0⟩, .main ⟨0, 0⟩,
        .main ⟨0, 0⟩, .main ⟨0, 0⟩, .main ⟨0, 0⟩, .main ⟨0, 0⟩, .main ⟨0, 0⟩, .main ⟨0, 0⟩,
        .main ⟨0, 0⟩, .main ⟨0, 0⟩]).any (fun rank =>
          rank.history.indices = [0, 1] ∧ rank.history.returned = [0, 0]) = true := by
    decide +kernel
  obtain ⟨rank, hrank, htest⟩ := System.exists_reachable_of_execute hinit hrun
  obtain ⟨hindices, hreturned⟩ := of_decide_eq_true htest
  refine ⟨rank, hrank, hindices, hreturned, ?_⟩
  rw [hindices, hreturned]
  decide

end ResiliencyExt.Checkpointing.AsyncCkpt
