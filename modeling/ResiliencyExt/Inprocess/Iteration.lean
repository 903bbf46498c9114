import ResiliencyExt.Foundation.System
import ResiliencyExt.Inprocess.Store

set_option autoImplicit false

/-!
# Inprocess: one restart iteration

For every rank three agents work on the store of the iteration: the main process
in `CallWrapper.__call__`, its monitor process, and the sibling monitor that the
monitor process runs as a thread.  Each of them may record ranks as terminated
and enter the iteration barrier, for its own rank or on behalf of others.

A step is one store operation of one agent.  Timeouts, crashes, missing
heartbeats and exceptions are events that may come at any time.  Two things are
coarser than the code: `record_interrupted`, whose keys no agent here reads, is
one step with the record that follows it, and appending nothing is no step.
-/

namespace ResiliencyExt.Inprocess

open Foundation

/-- What the agents of an iteration agree on beforehand. -/
structure IterationConfig where
  iteration : Nat
  worldSize : Nat

/-- The iteration's `PrefixStore`. -/
abbrev IterationConfig.scope (cfg : IterationConfig) : StoreScope :=
  .iteration cfg.iteration

/-! ## Store operations -/

/-- The operations that change the keys of this iteration. -/
inductive StoreOp where
  /-- A read, or nothing at all. -/
  | read
  /-- `record_interrupted` and `record_terminated_ranks` of the same ranks. -/
  | record (interruption : Interruption) (ranks : List Nat)
  /-- The append of `reentrant_barrier`. -/
  | arrive (ranks : List Nat)
  /-- `set(last_worker_arrived_key, '1')` -/
  | complete
  deriving DecidableEq, Repr

def StoreOp.perform (scope : StoreScope) (store : Store) : StoreOp → Store
  | .read => store
  | .record interruption ranks =>
    recordTerminatedRanks
      (recordInterrupted store scope (ranks.map fun rank => ⟨rank, interruption⟩)) scope
      (ranks.map .int)
  | .arrive ranks => Inprocess.arrive store scope (ranks.map .int) .iterationBarrier
  | .complete => store.set scope (.lastWorkerArrived .iterationBarrier) ['1']

/-- Where a call of `iteration_barrier` is. -/
inductive BarrierPhase where
  | arriving
  | counting
  | completing
  | waiting
  deriving DecidableEq, Repr

/-- The next operation of `iteration_barrier(ranks)`; `none` where it raises or
waits. -/
def barrierStep (cfg : IterationConfig) (ranks : List Nat) (store : Store) :
    BarrierPhase → Option (StoreOp × BarrierPhase)
  | .arriving => some (.arrive ranks, .counting)
  | .counting =>
    match arrivedRanks store cfg.scope .iterationBarrier with
    | .error _ => none
    | .ok arrived =>
      if arrived.length > cfg.worldSize then none
      else if arrived.length = cfg.worldSize then some (.read, .completing)
      else some (.read, .waiting)
  | .completing => some (.complete, .waiting)
  | .waiting => none

/-- `wait([last_worker_arrived_key])` returns. -/
def barrierCompleted (cfg : IterationConfig) (store : Store) : Bool :=
  (store cfg.scope (.lastWorkerArrived .iterationBarrier)).isSome

/-! ## The main process -/

inductive MainPhase where
  /-- The wrapped function, its abort and the health checks. -/
  | running
  /-- `except BaseException`, before its records. -/
  | interrupted
  /-- `iteration_barrier`, on the way to a restart or out of the wrapper. -/
  | barrier (exiting : Bool) (phase : BarrierPhase)
  /-- Before `get_terminated_ranks`. -/
  | reading
  /-- Before `rank_assignment`. -/
  | assigning
  /-- On the way to the next iteration. -/
  | survived
  | completed
  | exited
  | dead
  deriving DecidableEq, Repr

structure MainProcess where
  phase : MainPhase
  /-- It has appended its own rank at the iteration barrier. -/
  arrived : Bool
  /-- What `get_terminated_ranks` returned. -/
  terminatedRanks : Option (List Int)
  /-- Rank assignment let it go on. -/
  survivor : Bool
  deriving DecidableEq, Repr

inductive MainEvent where
  /-- `HealthCheckPassed` -/
  | restart
  /-- Any other exception. -/
  | raise
  /-- The wrapped function returned and the completion barrier let it go. -/
  | complete
  /-- The process is killed from outside. -/
  | kill
  /-- The next operation of the phase. -/
  | step
  deriving DecidableEq, Repr

/-- Where an exception takes the main process. -/
def MainPhase.raise : MainPhase → Option MainPhase
  | .running | .barrier false _ | .reading | .assigning | .survived => some .interrupted
  | .interrupted | .barrier true _ => some .exited
  | .completed | .exited | .dead => none

/-- The main process after the next operation of its phase. -/
def mainNext (cfg : IterationConfig) (rank : Nat) (store : Store) (main : MainProcess) :
    Option (StoreOp × MainProcess) :=
  match main.phase with
  | .interrupted =>
    some (.record .baseException [rank], { main with phase := .barrier true .arriving })
  | .barrier exiting .waiting =>
    if barrierCompleted cfg store then
      some (.read, { main with phase := if exiting then .exited else .reading })
    else none
  | .barrier exiting phase =>
    (barrierStep cfg [rank] store phase).map fun next =>
      (next.1, { main with phase := .barrier exiting next.2, arrived := true })
  | .reading =>
    match getTerminatedRanks store cfg.scope with
    | .error _ => none
    | .ok ranks =>
      some (.read, { main with phase := .assigning, terminatedRanks := some ranks })
  | .assigning =>
    match main.terminatedRanks with
    | none => none
    | some ranks =>
      -- `RankDiscarded` is one of the exceptions that leave the wrapper
      if (rank : Int) ∈ ranks then some (.read, { main with phase := .interrupted })
      else some (.read, { main with phase := .survived, survivor := true })
  | _ => none

def mainStep (cfg : IterationConfig) (rank : Nat) (store : Store) (main : MainProcess) :
    MainEvent → Option (StoreOp × MainProcess)
  | .restart =>
    if main.phase = .running then
      some (.read, { main with phase := .barrier false .arriving })
    else none
  | .raise => main.phase.raise.map fun phase => (.read, { main with phase := phase })
  | .complete =>
    if main.phase = .running then some (.read, { main with phase := .completed }) else none
  | .kill => some (.read, { main with phase := .dead })
  | .step => mainNext cfg rank store main

/-! ## The monitor process -/

inductive MonitorPhase where
  /-- The loop of `MonitorProcess.run`; `extended` when the hard timeout is the
  barrier timeout already. -/
  | polling (extended : Bool)
  /-- The hard timeout expired and the rank was not at the barrier. -/
  | timedOut (extended : Bool)
  /-- Before `terminate_process`. -/
  | terminating (extended : Bool)
  /-- Before the record for a terminated target, or for an exception of the
  monitor process itself. -/
  | reporting (handling : Bool)
  | barrier (handling : Bool) (phase : BarrierPhase)
  | stopped
  deriving DecidableEq, Repr

inductive MonitorEvent where
  /-- `timestamp.is_timed_out(hard_timeout)` -/
  | hardTimeout
  /-- `not is_process_active(target_process)` -/
  | targetTerminated
  | fail
  | step
  deriving DecidableEq, Repr

/-- Where an exception takes the monitor process. -/
def MonitorPhase.fail : MonitorPhase → Option MonitorPhase
  | .polling _ | .timedOut _ | .terminating _ | .reporting false | .barrier false _ =>
    some (.reporting true)
  | .reporting true | .barrier true _ => some .stopped
  | .stopped => none

/-- The next operation of the phase, with the main process after it. -/
def monitorNext (cfg : IterationConfig) (rank : Nat) (store : Store) (target : MainProcess) :
    MonitorPhase → Option (StoreOp × MonitorPhase × MainProcess)
  | .timedOut extended => some (.record .hardTimeout [rank], .terminating extended, target)
  | .terminating extended => some (.read, .polling extended, { target with phase := .dead })
  | .reporting handling =>
    let interruption := if handling then .monitorProcessException else .terminated
    some (.record interruption [rank], .barrier handling .arriving, target)
  | .barrier _ .waiting =>
    if barrierCompleted cfg store then some (.read, .stopped, target) else none
  | .barrier handling phase =>
    (barrierStep cfg [rank] store phase).map fun next =>
      (next.1, .barrier handling next.2, target)
  | _ => none

def monitorStep (cfg : IterationConfig) (rank : Nat) (store : Store) (target : MainProcess)
    (phase : MonitorPhase) : MonitorEvent → Option (StoreOp × MonitorPhase × MainProcess)
  | .hardTimeout =>
    match phase with
    | .polling extended =>
      match (isRankAtReentrantBarrier store cfg.scope rank .iterationBarrier).2 with
      | .error _ => none
      | .ok alreadyArrived =>
        if alreadyArrived && !extended then some (.read, .polling true, target)
        else some (.read, .timedOut extended, target)
    | _ => none
  | .targetTerminated =>
    match phase with
    | .polling _ =>
      if target.phase = .dead then some (.read, .reporting false, target) else none
    | _ => none
  | .fail => phase.fail.map fun phase => (.read, phase, target)
  | .step => monitorNext cfg rank store target phase

/-! ## The sibling monitor -/

inductive SiblingPhase where
  | watching
  /-- Before the records of `terminate_unresponsive_ranks`. -/
  | found (ranks : List Nat)
  | barrier (ranks : List Nat) (phase : BarrierPhase)
  deriving DecidableEq, Repr

inductive SiblingEvent where
  /-- `check_heartbeats` finds new unresponsive ranks. -/
  | unresponsive (ranks : List Nat)
  | step
  deriving DecidableEq, Repr

/-- The zero timeout of its barrier means that it does not wait there. -/
def siblingNext (cfg : IterationConfig) (store : Store) :
    SiblingPhase → Option (StoreOp × SiblingPhase)
  | .watching => none
  | .found ranks => some (.record .unresponsive ranks, .barrier ranks .arriving)
  | .barrier _ .waiting => some (.read, .watching)
  | .barrier ranks phase =>
    (barrierStep cfg ranks store phase).map fun next => (next.1, .barrier ranks next.2)

def siblingStep (cfg : IterationConfig) (store : Store) (phase : SiblingPhase) :
    SiblingEvent → Option (StoreOp × SiblingPhase)
  | .unresponsive ranks =>
    if phase = .watching ∧ ranks ≠ [] ∧ ∀ rank ∈ ranks, rank < cfg.worldSize then
      some (.read, .found ranks)
    else none
  | .step => siblingNext cfg store phase

/-! ## The iteration -/

/-- The store and the agents of all ranks. -/
structure Iteration where
  store : Store
  main : Nat → MainProcess
  monitor : Nat → MonitorPhase
  sibling : Nat → SiblingPhase

inductive IterationAction where
  | main (rank : Nat) (event : MainEvent)
  | monitor (rank : Nat) (event : MonitorEvent)
  | sibling (rank : Nat) (event : SiblingEvent)
  deriving DecidableEq, Repr

/-- The rank whose agent acts. -/
def IterationAction.rank : IterationAction → Nat
  | .main rank _ | .monitor rank _ | .sibling rank _ => rank

/-- The iteration as it starts. -/
def startIteration : Iteration where
  store := fun _ _ => none
  main := fun _ =>
    { phase := .running, arrived := false, terminatedRanks := none, survivor := false }
  monitor := fun _ => .polling false
  sibling := fun _ => .watching

/-- One step of one agent. -/
def iterationStep (cfg : IterationConfig) (s : Iteration) (action : IterationAction) :
    Option Iteration :=
  if action.rank < cfg.worldSize then
    match action with
    | .main rank event =>
      (mainStep cfg rank s.store (s.main rank) event).map fun next =>
        { s with
          store := next.1.perform cfg.scope s.store
          main := Function.update s.main rank next.2 }
    | .monitor rank event =>
      (monitorStep cfg rank s.store (s.main rank) (s.monitor rank) event).map fun next =>
        { s with
          store := next.1.perform cfg.scope s.store
          monitor := Function.update s.monitor rank next.2.1
          main := Function.update s.main rank next.2.2 }
    | .sibling rank event =>
      (siblingStep cfg s.store (s.sibling rank) event).map fun next =>
        { s with
          store := next.1.perform cfg.scope s.store
          sibling := Function.update s.sibling rank next.2 }
  else none

/-- All interleavings of the agents in one iteration. -/
def iterationSystem (cfg : IterationConfig) : System Iteration IterationAction where
  init s := s = startIteration
  step := iterationStep cfg

end ResiliencyExt.Inprocess
