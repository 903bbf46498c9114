set_option autoImplicit false

/-!
# Rank monitor: the state machine of the server

`RankMonitorStateMachine` follows the life of a rank: messages, lost
connections and signals move it between the states below.  A move that the
table does not allow raises `InvalidStateTransitionException`, and an event that
a state does not expect raises `AssertionError`.
-/

namespace ResiliencyExt.FaultTolerance.RankMonitor

inductive RankMonitorState where
  | uninitialized
  /-- `INITIALIZE` -/
  | initialized
  | handlingStart
  | handlingProcessing
  | handlingCompleted
  | finalized
  | aborted
  deriving DecidableEq, Repr

inductive StateMachineError where
  | invalidStateTransition (source target : RankMonitorState)
  | assertionError (state : RankMonitorState)
  deriving DecidableEq, Repr

namespace RankMonitorState

/-- `allowed_transitions` -/
def allowedTransitions : RankMonitorState → List RankMonitorState
  | uninitialized => [initialized, finalized]
  | initialized => [handlingStart, finalized]
  | handlingStart => [handlingCompleted, handlingProcessing, aborted]
  | handlingProcessing => [handlingCompleted, handlingProcessing, aborted]
  | handlingCompleted => [handlingStart, finalized]
  | aborted => [finalized]
  | finalized => [finalized]

/-- `transition_to` -/
def transitionTo (state target : RankMonitorState) :
    Except StateMachineError RankMonitorState :=
  if target ∈ state.allowedTransitions then .ok target
  else .error (.invalidStateTransition state target)

/-- `_handle_msg` -/
def handleMsg : RankMonitorState → Except StateMachineError RankMonitorState
  | uninitialized => transitionTo uninitialized initialized
  | handlingStart => transitionTo handlingStart handlingCompleted
  | handlingProcessing => transitionTo handlingProcessing handlingCompleted
  | initialized => .ok initialized
  | handlingCompleted => .ok handlingCompleted
  | state => .error (.assertionError state)

/-- `handle_ipc_connection_lost` -/
def handleIpcConnectionLost : RankMonitorState → Except StateMachineError RankMonitorState
  | initialized => transitionTo initialized handlingStart
  | handlingCompleted => transitionTo handlingCompleted handlingStart
  | handlingStart => transitionTo handlingStart aborted
  | handlingProcessing => transitionTo handlingProcessing aborted
  | state => .ok state

/-- `handle_signal` -/
def handleSignal : RankMonitorState → Except StateMachineError RankMonitorState
  | handlingStart => transitionTo handlingStart aborted
  | handlingProcessing => transitionTo handlingProcessing aborted
  | uninitialized => .ok uninitialized
  | state => transitionTo state finalized

/-- The machine has given up on its rank. -/
def isTerminal (state : RankMonitorState) : Bool :=
  state = aborted || state = finalized

/-- Messages are accepted in every state but the terminal ones, and lead to a
state that accepts messages. -/
theorem handleMsg_of_not_terminal {state : RankMonitorState} (h : state.isTerminal = false) :
    ∃ next, state.handleMsg = .ok next ∧ next.isTerminal = false := by
  cases state with
  | uninitialized => exact ⟨initialized, rfl, rfl⟩
  | initialized => exact ⟨initialized, rfl, rfl⟩
  | handlingStart => exact ⟨handlingCompleted, rfl, rfl⟩
  | handlingProcessing => exact ⟨handlingCompleted, rfl, rfl⟩
  | handlingCompleted => exact ⟨handlingCompleted, rfl, rfl⟩
  | finalized => simp [isTerminal] at h
  | aborted => simp [isTerminal] at h

end RankMonitorState

end ResiliencyExt.FaultTolerance.RankMonitor
