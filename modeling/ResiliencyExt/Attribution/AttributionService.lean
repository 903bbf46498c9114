import Mathlib.Data.List.Nodup
import ResiliencyExt.Foundation.System

set_option autoImplicit false

/-!
# The attribution service of a launcher

`AttributionService` with its two threads: the submitter, which submits logs and requests
terminal analyses, and the poller, which gets the verdict for the log in the pending slot.
The requests are made outside the lock.  The submitter alone fills the slot and the poller
alone clears it, so that the slot is free from the check of a request until it is filled,
and keeps its path from the time the poller reads it until the verdict is applied.
-/

namespace ResiliencyExt.Attribution

open Foundation

namespace AttributionService

structure Config where
  endpoint : String
  enforceStop : Bool

/-- `_http_base_url`, without its warning. -/
def Config.httpBaseUrl (cfg : Config) : Option String :=
  if "http://".toList <+: cfg.endpoint.toList ∨ "https://".toList <+: cfg.endpoint.toList then
    some cfg.endpoint
  else none

/-- How a POST ends; a response may have a status that is no integer. -/
inductive PostOutcome where
  | raised
  | response (status : Option Int)
  deriving DecidableEq, Repr

/-- `_do_submit_log` -/
def PostOutcome.accepted : PostOutcome → Bool
  | .raised => false
  | .response none => true
  | .response (some status) => decide (200 ≤ status ∧ status < 300)

/-- How a GET ends; a response comes with the status and the stop decision that
`parse_attrsvc_response` reads from it. -/
inductive GetOutcome where
  | raised
  | response (statusCode : Nat) (status : String) (shouldStop : Bool)
  deriving DecidableEq, Repr

/-- `_get_results` -/
def GetOutcome.results : GetOutcome → Option Bool
  | .raised => none
  | .response statusCode status shouldStop =>
    if statusCode = 200 then if status.toLower ≠ "completed" then none else some shouldStop
    else none

/-- A terminal analysis that was accepted. -/
structure Terminal where
  /-- The number of its POST among the accepted ones.  The code does not keep it. -/
  post : Nat
  logPath : String
  deriving DecidableEq, Repr

/-- Where the submitter is. -/
inductive SubmitterPhase where
  | idle
  /-- In the POST of a terminal analysis. -/
  | posting (logPath : String)
  /-- Before the slot is filled. -/
  | installing (terminal : Terminal)
  deriving DecidableEq, Repr

/-- Where the poller is. -/
inductive PollerPhase where
  | notStarted
  /-- At the head of the loop. -/
  | looping
  /-- Before the pending path is read. -/
  | reading
  /-- In `_start_get_profiling`. -/
  | profiling (terminal : Terminal)
  /-- In the GET. -/
  | getting (terminal : Terminal)
  /-- Before the event of the completed GET is recorded. -/
  | completing (terminal : Terminal) (stop : Bool)
  /-- Before the verdict is applied. -/
  | applying (terminal : Terminal) (stop : Bool)
  /-- After `_poll_once`. -/
  | checking
  /-- In the wait between two iterations. -/
  | waiting
  | exited
  deriving DecidableEq, Repr

structure State where
  lastSubmitted : Option String
  terminalPending : Option Terminal
  stopLatched : Bool
  stopVerdictCount : Nat
  getStartedRecorded : Bool
  pollStopEvent : Bool
  /-- `_poll_thread is not None` -/
  pollThread : Bool
  submitter : SubmitterPhase
  poller : PollerPhase
  /-- The paths of the terminal analyses that were accepted. -/
  accepted : List String
  /-- The analyses for which a GET was made. -/
  polled : List Terminal
  /-- The verdicts that were applied. -/
  verdicts : List (Terminal × Bool)
  deriving DecidableEq, Repr

def State.start : State where
  lastSubmitted := none
  terminalPending := none
  stopLatched := false
  stopVerdictCount := 0
  getStartedRecorded := false
  pollStopEvent := false
  pollThread := false
  submitter := .idle
  poller := .notStarted
  accepted := []
  polled := []
  verdicts := []

inductive Action where
  /-- `_submit_log`; the outcome of its POST is not looked at. -/
  | submitLog (logPath : String)
  /-- `request_terminal_analysis`, up to its POST. -/
  | requestTerminalAnalysis
  | postReturns (outcome : PostOutcome)
  | install
  | startPoller
  | stopPoller
  /-- The next step of the poller; where it records a profiling event, this may raise. -/
  | poll (raises : Bool)
  | getReturns (outcome : GetOutcome)
  deriving DecidableEq, Repr

namespace State

/-- `stop_requested` -/
def stopRequested (cfg : Config) (s : State) : Bool :=
  s.stopLatched && cfg.enforceStop

/-! ## The submitter -/

def submitLog (s : State) (logPath : String) : Option State :=
  match s.submitter with
  | .idle => some { s with lastSubmitted := some logPath }
  | _ => none

/-- An analysis is not requested while another one is pending. -/
def requestTerminalAnalysis (s : State) : Option State :=
  match s.submitter with
  | .idle =>
    match s.lastSubmitted with
    | none => some s
    | some logPath =>
      if logPath = "" then some s
      else if s.terminalPending.isSome then some s
      else some { s with submitter := .posting logPath }
  | _ => none

/-- Without an HTTP endpoint there is no POST, and nothing is accepted. -/
def postReturns (cfg : Config) (s : State) (outcome : PostOutcome) : Option State :=
  match s.submitter with
  | .posting logPath =>
    if cfg.httpBaseUrl.isSome && outcome.accepted then
      some { s with
        submitter := .installing ⟨s.accepted.length, logPath⟩
        accepted := s.accepted ++ [logPath] }
    else some { s with submitter := .idle }
  | _ => none

def install (s : State) : Option State :=
  match s.submitter with
  | .installing terminal =>
    some { s with
      terminalPending := some terminal
      getStartedRecorded := false
      submitter := .idle }
  | _ => none

/-! ## The poller -/

/-- `start_poller`; a thread that is started after the stop event leaves at once. -/
def startPoller (cfg : Config) (s : State) : State :=
  if s.pollThread then s
  else if cfg.httpBaseUrl.isNone then s
  else { s with pollThread := true, poller := if s.pollStopEvent then s.poller else .looping }

/-- `stop_poller`; its join may time out while the thread is in a request. -/
def stopPoller (s : State) : State :=
  { s with pollStopEvent := true, pollThread := false }

/-- Free the slot if it holds the path. -/
def clear (s : State) (logPath : String) : State :=
  if s.terminalPending.map Terminal.logPath = some logPath then
    { s with terminalPending := none, getStartedRecorded := false }
  else s

/-- The end of `_poll_once`, under the lock. -/
def applyVerdict (cfg : Config) (s : State) (terminal : Terminal) (stop : Bool) : State :=
  let s := { s with verdicts := s.verdicts ++ [(terminal, stop)], poller := .checking }
  if stop then
    let s := { s with stopLatched := true, stopVerdictCount := s.stopVerdictCount + 1 }
    if cfg.enforceStop then s else s.clear terminal.logPath
  else s.clear terminal.logPath

/-- The next step of `_poll_loop` outside the GET. -/
def poll (cfg : Config) (s : State) (raises : Bool) : Option State :=
  match s.poller with
  | .looping => some { s with poller := if s.pollStopEvent then .exited else .reading }
  | .reading =>
    match s.terminalPending with
    | none => some { s with poller := .checking }
    | some terminal =>
      some { s with
        poller := if terminal.logPath = "" then .checking else .profiling terminal }
  | .profiling terminal =>
    if s.getStartedRecorded then
      some { s with poller := .getting terminal, polled := s.polled ++ [terminal] }
    else if raises then some { s with getStartedRecorded := true, poller := .checking }
    else
      some { s with
        getStartedRecorded := true
        poller := .getting terminal
        polled := s.polled ++ [terminal] }
  | .completing terminal stop =>
    some { s with poller := if raises then .checking else .applying terminal stop }
  | .applying terminal stop => some (s.applyVerdict cfg terminal stop)
  | .checking =>
    some { s with poller := if cfg.enforceStop && s.stopLatched then .exited else .waiting }
  | .waiting => some { s with poller := .looping }
  | .notStarted => none
  | .getting _ => none
  | .exited => none

def getReturns (s : State) (outcome : GetOutcome) : Option State :=
  match s.poller with
  | .getting terminal =>
    match outcome.results with
    | none => some { s with poller := .checking }
    | some stop => some { s with poller := .completing terminal stop }
  | _ => none

def step (cfg : Config) (s : State) : Action → Option State
  | .submitLog logPath => s.submitLog logPath
  | .requestTerminalAnalysis => s.requestTerminalAnalysis
  | .postReturns outcome => s.postReturns cfg outcome
  | .install => s.install
  | .startPoller => some (s.startPoller cfg)
  | .stopPoller => some s.stopPoller
  | .poll raises => s.poll cfg raises
  | .getReturns outcome => s.getReturns outcome

end State

def system (cfg : Config) : System State Action where
  init s := s = .start
  step := State.step cfg

end AttributionService

end ResiliencyExt.Attribution
