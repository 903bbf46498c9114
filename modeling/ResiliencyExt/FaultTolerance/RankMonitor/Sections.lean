import Mathlib
import ResiliencyExt.FaultTolerance.RankMonitor.StateMachine
import ResiliencyExt.FaultTolerance.RankMonitor.TimeoutsCalc

set_option autoImplicit false

/-!
# Rank monitor: section messages

What `RankMonitorServer` does with a section message, and the abstract meaning
of such a message: how the list of open sections changes.  The server and the
client's calculator both implement that meaning, the server in every case and
the calculator for the sections it knows.
-/

namespace ResiliencyExt.FaultTolerance.RankMonitor

open Foundation

/-- The configuration fields that the section paths read: the keys of
`rank_section_timeouts` and `skip_section_response`. -/
structure SectionConfig where
  sectionNames : List String
  nodup : sectionNames.Nodup
  skipSectionResponse : Bool

/-- `SectionMsg`, without the rank that the server does not read. -/
structure SectionMsg where
  sectionName : SectionName
  action : SectionAction
  iteration : Option Int
  deriving DecidableEq, Repr

/-- `OkMsg`, or `ErrorMsg` with its cause. -/
inductive Reply where
  | ok
  | error (cause : String)
  deriving DecidableEq, Repr

/-- How a message changes the list of open sections. -/
def openAfter (names : List SectionName) (msg : SectionMsg) : List SectionName :=
  match msg.action with
  | .open => if msg.sectionName ∈ names then names else names ++ [msg.sectionName]
  | .close => names.filter fun name => name ≠ msg.sectionName
  | .closeAll => []

/-! ## The server -/

/-- The fields of `RankMonitorServer` that section messages read and write. -/
structure RankMonitorServer where
  stateMachine : RankMonitorState
  openSections : Dict SectionName Int
  outOfSectionTime : Option Int
  initialIteration : Option Int
  currentIteration : Option Int
  stepSectionSeenThisCycle : Bool

namespace RankMonitorServer

/-- The iteration is tracked on messages of the step section only. -/
def trackIteration (server : RankMonitorServer) (msg : SectionMsg) : RankMonitorServer :=
  if msg.sectionName = some "step" ∧ msg.iteration ≠ none then
    { server with
      initialIteration :=
        if server.initialIteration = none then msg.iteration else server.initialIteration
      currentIteration := msg.iteration }
  else server

/-- A section name as an f-string shows it. -/
def showSection : SectionName → String
  | some name => name
  | none => "None"

/-- The three branches of `_handle_section_msg`, and the reply they prepare. -/
def applySectionMsg (server : RankMonitorServer) (msg : SectionMsg) (currentTime : Int) :
    RankMonitorServer × Reply :=
  match msg.action with
  | .open =>
    if msg.sectionName ∉ server.openSections.keys then
      ({ server with
          openSections := server.openSections.set msg.sectionName currentTime
          outOfSectionTime := none
          stepSectionSeenThisCycle :=
            msg.sectionName = some "step" || server.stepSectionSeenThisCycle }, .ok)
    else
      (server, .error ("Section '" ++ showSection msg.sectionName ++ "' is already open."))
  | .close =>
    if msg.sectionName ∈ server.openSections.keys then
      let openSections := server.openSections.erase msg.sectionName
      ({ server with
          openSections := openSections
          outOfSectionTime :=
            if openSections.keys = [] then some currentTime
            else server.outOfSectionTime }, .ok)
    else
      (server, .error ("Section '" ++ showSection msg.sectionName ++ "' is not open."))
  | .closeAll =>
    ({ server with openSections := .empty, outOfSectionTime := some currentTime }, .ok)

/-- `_handle_section_msg`: the state machine first, which may raise; the reply
is sent only when `skip_section_response` is off. -/
def handleSectionMsg (cfg : SectionConfig) (server : RankMonitorServer) (msg : SectionMsg)
    (currentTime : Int) : Except StateMachineError (RankMonitorServer × Option Reply) :=
  match server.stateMachine.handleMsg with
  | .error error => .error error
  | .ok stateMachine =>
    let server := { server with stateMachine := stateMachine }
    let applied := (server.trackIteration msg).applySectionMsg msg currentTime
    .ok (applied.1, if cfg.skipSectionResponse then none else some applied.2)

/-- `_handle_ipc_connection_lost` -/
def handleIpcConnectionLost (server : RankMonitorServer) : RankMonitorServer where
  stateMachine :=
    match server.stateMachine.handleIpcConnectionLost with
    | .ok stateMachine => stateMachine
    | .error _ => server.stateMachine
  openSections := .empty
  outOfSectionTime := none
  initialIteration := none
  currentIteration := none
  stepSectionSeenThisCycle := false

/-- The out-of-section clock runs exactly while no section is open. -/
def ClockMatches (server : RankMonitorServer) : Prop :=
  server.outOfSectionTime.isSome ↔ server.openSections.keys = []

variable (server : RankMonitorServer) (msg : SectionMsg) (currentTime : Int)

theorem trackIteration_sections :
    (server.trackIteration msg).openSections = server.openSections ∧
      (server.trackIteration msg).outOfSectionTime = server.outOfSectionTime := by
  unfold trackIteration
  split
  · exact ⟨rfl, rfl⟩
  · exact ⟨rfl, rfl⟩

/-- The server's keys follow the meaning of the message. -/
theorem keys_applySectionMsg :
    (server.applySectionMsg msg currentTime).1.openSections.keys =
      openAfter server.openSections.keys msg := by
  unfold applySectionMsg openAfter
  cases msg.action with
  | «open» =>
    by_cases hmem : msg.sectionName ∈ server.openSections.keys
    · simp [hmem]
    · simp [hmem, Dict.keys_set_of_not_mem currentTime hmem]
  | close =>
    by_cases hmem : msg.sectionName ∈ server.openSections.keys
    · simp only [hmem, if_true]
      exact Dict.keys_erase _ _
    · simp only [hmem, if_false]
      exact (Dict.filter_ne_eq_self hmem).symm
  | closeAll => rfl

/-- An error reply means that the list of open sections did not change. -/
theorem openAfter_of_error {cause : String}
    (h : (server.applySectionMsg msg currentTime).2 = .error cause) :
    openAfter server.openSections.keys msg = server.openSections.keys := by
  have hkeys := server.keys_applySectionMsg msg currentTime
  rw [← hkeys]
  unfold applySectionMsg at h ⊢
  cases haction : msg.action with
  | «open» =>
    simp only [haction] at h ⊢
    split at h
    · simp at h
    · rename_i hmem
      rw [if_neg hmem]
  | close =>
    simp only [haction] at h ⊢
    split at h
    · simp at h
    · rename_i hmem
      rw [if_neg hmem]
  | closeAll => simp [haction] at h

theorem clockMatches_applySectionMsg {server : RankMonitorServer} (h : server.ClockMatches)
    (msg : SectionMsg) (currentTime : Int) :
    (server.applySectionMsg msg currentTime).1.ClockMatches := by
  unfold ClockMatches at *
  rw [keys_applySectionMsg]
  unfold applySectionMsg openAfter
  cases msg.action with
  | «open» =>
    by_cases hmem : msg.sectionName ∈ server.openSections.keys
    · simpa [hmem] using h
    · simp [hmem]
  | close =>
    by_cases hmem : msg.sectionName ∈ server.openSections.keys
    · have hne : server.openSections.keys ≠ [] := List.ne_nil_of_mem hmem
      have hclock : server.outOfSectionTime.isSome = false := by
        rw [Bool.eq_false_iff]
        exact fun hsome => hne (h.mp hsome)
      simp only [hmem, if_true, Dict.keys_erase]
      split
      · rename_i hempty
        exact ⟨fun _ => hempty, fun _ => rfl⟩
      · rename_i hempty
        rw [hclock]
        exact ⟨fun hfalse => absurd hfalse (by simp), fun hnil => absurd hnil hempty⟩
    · simp only [hmem, if_false]
      rw [Dict.filter_ne_eq_self hmem]
      exact h
  | closeAll => simp

/-- What a handled message does, in one place. -/
theorem handleSectionMsg_ok {cfg : SectionConfig} {server next : RankMonitorServer}
    {msg : SectionMsg} {currentTime : Int} {reply : Option Reply}
    (h : server.handleSectionMsg cfg msg currentTime = .ok (next, reply)) :
    next.openSections.keys = openAfter server.openSections.keys msg ∧
      (server.ClockMatches → next.ClockMatches) ∧
      (reply = none ↔ cfg.skipSectionResponse = true) ∧
      (∀ cause, reply = some (.error cause) →
        openAfter server.openSections.keys msg = server.openSections.keys) := by
  unfold handleSectionMsg at h
  split at h
  · simp at h
  · rename_i stateMachine _
    simp only [Except.ok.injEq, Prod.mk.injEq] at h
    obtain ⟨hnext, hreply⟩ := h
    obtain ⟨hsections, hclock⟩ :=
      trackIteration_sections { server with stateMachine := stateMachine } msg
    subst hnext
    refine ⟨?_, ?_, ?_, ?_⟩
    · rw [keys_applySectionMsg, hsections]
    · intro hmatches
      refine clockMatches_applySectionMsg ?_ msg currentTime
      unfold ClockMatches at *
      rw [hsections, hclock]
      exact hmatches
    · rw [← hreply]
      cases cfg.skipSectionResponse <;> simp
    · intro cause hcause
      rw [← hreply] at hcause
      have happlied : ((trackIteration { server with stateMachine := stateMachine }
          msg).applySectionMsg msg currentTime).2 = .error cause := by
        cases hskip : cfg.skipSectionResponse with
        | true => simp [hskip] at hcause
        | false => simpa [hskip] using hcause
      have herror := openAfter_of_error _ msg currentTime happlied
      rwa [hsections] at herror

/-- A message is handled unless the state machine has given up. -/
theorem handleSectionMsg_of_not_terminal (cfg : SectionConfig) {server : RankMonitorServer}
    (msg : SectionMsg) (currentTime : Int)
    (h : server.stateMachine.isTerminal = false) :
    ∃ next reply, server.handleSectionMsg cfg msg currentTime = .ok (next, reply) := by
  obtain ⟨stateMachine, hstate, _⟩ := RankMonitorState.handleMsg_of_not_terminal h
  simp [handleSectionMsg, hstate]

end RankMonitorServer

/-! ## The client's calculator -/

namespace TimeoutsCalc

/-- For a single section that it knows, the calculator follows the meaning of
the message, or refuses a message that changes nothing. -/
theorem keys_updateOnSectionEvent {timeouts : TimeoutsCalc} {msg : SectionMsg}
    (eventTime : Int) (hknown : msg.sectionName ∈ timeouts.sectionToMaxTime.keys)
    (haction : msg.action ≠ .closeAll) :
    (∃ next, timeouts.updateOnSectionEvent msg.sectionName msg.action eventTime = .ok next ∧
      next.openSections.keys = openAfter timeouts.openSections.keys msg ∧
      next.sectionToMaxTime.keys = timeouts.sectionToMaxTime.keys) ∨
    (∃ error,
      timeouts.updateOnSectionEvent msg.sectionName msg.action eventTime = .error error ∧
      openAfter timeouts.openSections.keys msg = timeouts.openSections.keys) := by
  unfold updateOnSectionEvent openAfter
  rw [if_neg fun h => h.2 hknown]
  cases haction' : msg.action with
  | «open» =>
    by_cases hmem : msg.sectionName ∈ timeouts.openSections.keys
    · right
      exact ⟨.alreadyOpen msg.sectionName, by simp [openSection, hmem], by simp [hmem]⟩
    · left
      obtain ⟨next, hnext⟩ :
          ∃ next, timeouts.openSection msg.sectionName eventTime = .ok next := by
        simp [openSection, hmem]
      obtain ⟨_, hkeys, hmax⟩ := keys_openSection hnext
      exact ⟨next, hnext, by simp [hmem, hkeys], hmax⟩
  | close =>
    by_cases hmem : msg.sectionName ∈ timeouts.openSections.keys
    · left
      obtain ⟨next, hnext⟩ := closeSection_ok eventTime hmem hknown
      obtain ⟨hkeys, hmax⟩ := keys_closeSection hnext
      exact ⟨next, hnext, hkeys, hmax⟩
    · right
      have hget : timeouts.openSections.get? msg.sectionName = none := by
        rw [← Option.not_isSome_iff_eq_none, Dict.get?_isSome_iff]
        exact hmem
      exact ⟨.notOpen msg.sectionName, by simp [closeSection, hget],
        Dict.filter_ne_eq_self hmem⟩
  | closeAll => exact absurd haction' haction

end TimeoutsCalc

end ResiliencyExt.FaultTolerance.RankMonitor
