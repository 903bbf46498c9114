import ResiliencyExt.Foundation.Agents
import ResiliencyExt.FaultTolerance.Rendezvous.Job

set_option autoImplicit false

/-!
# Rendezvous: the steps of the job

One step is at most one store operation of one process.  An event says which
process moves next and settles what the store does not: clocks, health checks,
what the workers do, and whether the attribution poller has latched a stop.
-/

namespace ResiliencyExt.FaultTolerance.Rendezvous

open Foundation Function

/-- `WorkerState` as `_monitor_workers` reports it. -/
inductive WorkerState where
  | healthy
  | unhealthy
  | failed
  | succeeded
  | unknown
  deriving DecidableEq, Repr

/-- What `pre_join_hook` finds. -/
inductive HookResult where
  | healthy
  /-- `UnhealthyNodeException` -/
  | unhealthy
  /-- `WorkloadAction.ShutdownWorkload` from a local rank. -/
  | shutdownWorkload
  deriving DecidableEq, Repr

inductive Event where
  /-- The next store operation. -/
  | next
  /-- A rate-limited `_sync_from_per_round_state` is due. -/
  | scan
  /-- A rate-limited snapshot is not due yet. -/
  | later
  /-- The join timeout has elapsed. -/
  | timeout
  /-- `attribution_stop_requested()` -/
  | attributionStop
  | hook (result : HookResult)
  /-- The slots whose keys were absent at their `check`. -/
  | snapshot (missed : List Nat)
  /-- The last-call deadline has passed, or not. -/
  | evaluate (expired : Bool)
  | workers (state : WorkerState)
  /-- `should_terminate_early()` -/
  | decide (terminateEarly : Bool)
  /-- An exception that comes from neither the store nor the rendezvous. -/
  | fault
  /-- A signal, or the process is killed. -/
  | signal
  deriving DecidableEq, Repr

def AfterOpen.phase : AfterOpen → Phase
  | .restart | .wait => .wait .shutdown
  | .noRestart reason => .leaving (.noRestart reason)
  | .close => .close .shutdown

/-- The placeholder that a participant writes to its rank key. -/
def rankPlaceholder (round : Nat) : Bytes :=
  .packed (packRankValue UNASSIGNED 0 round)

/-- The value that a participant writes to its slot key. -/
def slotValue (cfg : JobConfig) (p round : Nat) : Bytes :=
  .packed (packParticipantValue (cfg.participant p) round)

/-- `_RendezvousBarrierState.__init__`.  A launcher goes on to `set_agent`, the
control process to its loop. -/
def constructStep (cfg : JobConfig) (p : Nat) (x : BarrierStore) (l : Launcher) :
    ConstructPhase → Event → Option (BarrierStore × Launcher)
  | .checkOpen, .next =>
    some (x, l.goto (.construct
      (if (x.roundDone 0).isSome then .checkShutdown else .setOpen)))
  | .setOpen, .next => some (x.setRoundDone 0 .opened, l.goto (.construct .checkShutdown))
  | .checkShutdown, .next =>
    if p = cfg.storeHost ∧ x.shutdown = none then
      some (x, l.goto (.construct .setShutdown))
    else if cfg.isControl p then some (x, l.goto (.wait .shutdown))
    else some (x, l.goto (.agent (.synchronize 0)))
  | .setShutdown, .next =>
    some ({ x with shutdown := some none }, l.goto
      (if cfg.isControl p then .wait .shutdown else .agent (.synchronize 0)))
  | _, _ => none

/-- `_wait_for_rendezvous_open` with `_sync_from_per_round_state`. -/
def waitStep (cfg : JobConfig) (p : Nat) (x : BarrierStore) (l : Launcher) :
    WaitPhase → Event → Option (BarrierStore × Launcher)
  | .shutdown, .attributionStop =>
    if p = cfg.storeHost then
      some (x, l.goto (.agent (.signal .attributionStop .wait)))
    else none
  | .shutdown, .next =>
    some (x, l.goto (if x.isShutdown then .raised true else .wait .roundDone))
  | .roundDone, .next =>
    if x.roundDone l.round = some .opened then
      some (x, l.goto (if cfg.isControl p then .close .shutdown else .join .hook))
    else some (x, l.goto (.wait .shutdown))
  | .roundDone, .scan =>
    if x.roundDone l.round = some .closed then some (x, l.goto (.wait (.scan l.round)))
    else none
  | .scan n, .next =>
    if x.roundDone n = some .closed then some (x, l.goto (.wait (.scan (n + 1))))
    else some (x, { l with round := n, phase := .wait .shutdown })
  | _, _ => none

/-- Step 0 to step 1 of `perform_rendezvous`: the health checks and the join. -/
def joinStep (cfg : JobConfig) (p : Nat) (x : BarrierStore) (l : Launcher) :
    JoinPhase → Event → Option (BarrierStore × Launcher)
  | .hook, .hook .healthy => some (x, l.goto (.join .add))
  | .hook, .hook .shutdownWorkload => some (x.setShutdown .graceful, l)
  | .hook, .hook .unhealthy =>
    some ({ x with
      unhealthyCount := if cfg.jobArray then x.unhealthyCount else x.unhealthyCount + 1 },
      l.goto (.join .exclude))
  | .exclude, .next =>
    match (cfg.participant p).replacementGroupId with
    | none => some (x, l.goto (.leaving .unhealthyNode))
    | some group =>
      some ({ x with
        unhealthyGroups := update x.unhealthyGroups l.round
          ((x.unhealthyGroups l.round).insert group) },
        l.goto (.leaving .unhealthyNode))
  | .add, .next =>
    some ({ x with
      joinCount := update x.joinCount l.round (x.joinCount l.round + 1)
      claimant := update x.claimant l.round
        (update (x.claimant l.round) (x.joinCount l.round + 1) (some p)) },
      { l with
        slot := x.joinCount l.round + 1
        phase := .join (.rank (fencedStart (rankPlaceholder l.round))) })
  | .rank call, .next =>
    (fencedStep (rankPlaceholder l.round) (x.slotRank l.slot) call).map fun result =>
      ({ x with slotRank := update x.slotRank l.slot result.1 },
        l.goto
          (match result.2 with
          | .done .returned => .join (.slot (fencedStart (slotValue cfg p l.round)))
          | .done (.stale _ _) => .wait .shutdown
          | .done _ => .leaving .error
          | call => .join (.rank call)))
  | .slot call, .next =>
    (fencedStep (slotValue cfg p l.round) (x.slot l.slot) call).map fun result =>
      ({ x with slot := update x.slot l.slot result.1 },
        l.goto
          (match result.2 with
          | .done .returned =>
            if p = cfg.storeHost then .close .shutdown else .await .shutdown
          | .done (.stale _ _) => .wait .shutdown
          | .done _ => .leaving .error
          | call => .join (.slot call)))
  | _, _ => none

/-- `_host_close_round` -/
def closeStep (cfg : JobConfig) (p : Nat) (x : BarrierStore) (l : Launcher) :
    ClosePhase → Event → Option (BarrierStore × Launcher)
  | .shutdown, .attributionStop =>
    some (x, l.goto (.agent (.signal .attributionStop .close)))
  | .shutdown, .timeout =>
    some (x, l.goto (if x.isShutdown then .raised false else .leaving .timedOut))
  | .shutdown, .next =>
    some (x, l.goto (if x.isShutdown then .raised false else .close .unhealthy))
  | .unhealthy, .next =>
    some (x, l.goto (.close
      (if cfg.maxNodes - cfg.minNodes < x.unhealthyCount then .fail else .count)))
  | .fail, .next => some (x.setShutdown .failure, l.goto (.close .shutdown))
  | .count, .later => some (x, l.goto (.close .shutdown))
  | .count, .next =>
    some (x, l.goto (.close
      (if x.joinCount l.round = 0 ∨ x.joinCount l.round < cfg.minNodes then .shutdown
      else .snapshot (x.joinCount l.round))))
  | .snapshot joined, .snapshot missed =>
    some (x, l.goto (.close
      (.recheck joined (x.getAllParticipants joined l.round missed))))
  | .recheck joined slots, .next =>
    some (x, l.goto (.close
      (if x.joinCount l.round = joined then .evaluate slots else .shutdown)))
  | .evaluate slots, .evaluate expired =>
    some (x, l.goto
      (match hostDecision cfg l.round l.previousActive (x.unhealthyGroups l.round) slots
        expired with
      | .raised _ => .leaving .error
      | .retry => .close .shutdown
      | .duplicateAddr => .close .fail
      | .close activeCandidates ranks => .close (.assign activeCandidates ⟨slots, ranks⟩)))
  | .assign activeCandidates a, .next =>
    some (x.assign l.round a,
      { l with
        previousActive := rememberPreviousActive activeCandidates a.ranks cfg.minNodes
        phase := .close .mark })
  | .mark, .next =>
    some (x.setRoundDone l.round .closed,
      l.goto (if cfg.isControl p then .wait .shutdown else .await .shutdown))
  | _, _ => none

/-- `_wait_for_round_done` and what `perform_rendezvous` makes of the rank. -/
def awaitStep (cfg : JobConfig) (p : Nat) (x : BarrierStore) (l : Launcher) :
    AwaitPhase → Event → Option (BarrierStore × Launcher)
  | .shutdown, .timeout =>
    some (x, l.goto (if x.isShutdown then .raised false else .leaving .timedOut))
  | .shutdown, .next =>
    some (x, l.goto (if x.isShutdown then .raised false else .await .roundDone))
  | .roundDone, .next =>
    -- `get` blocks while the key is absent.
    (x.roundDone l.round).map fun value =>
      (x, l.goto (.await (if value = .closed then .rank else .shutdown)))
  | .rank, .next =>
    match x.slotRank l.slot with
    | none => some (x, l.goto (.wait .shutdown))
    | some value =>
      match unpackRankValue value with
      | none => some (x, l.goto (.leaving .error))
      | some (rank, total, writtenRound) =>
        if writtenRound = l.round ∧ rank ≠ UNASSIGNED ∧ rank < cfg.minNodes then
          some ({ x with
            returned := ⟨p, l.round, l.slot, rank, total, writtenRound⟩ :: x.returned },
            { l with phase := .agent .monitor, lastRun := some l.round })
        else some (x, l.goto (.wait .shutdown))
  | _, _ => none

/-- The monitor loop, the restart decision, `signal_no_restart` and
`open_rendezvous`; and before them `_complete_initialization` up to `run`. -/
def agentStep (cfg : JobConfig) (p : Nat) (x : BarrierStore) (l : Launcher) :
    AgentPhase → Event → Option (BarrierStore × Launcher)
  | .synchronize n, .next =>
    if x.roundDone n = some .closed then some (x, l.goto (.agent (.synchronize (n + 1))))
    else
      some (x, { l with
        round := n
        remainingRestarts := (cfg.maxRestarts : Int) - n
        phase := .wait .shutdown })
  | .monitor, .workers .succeeded => some (x, l.goto (.leaving .succeeded))
  | .monitor, .attributionStop =>
    if p = cfg.storeHost then
      some (x, l.goto (.agent (.signal .attributionStop (.noRestart .attributionStop))))
    else none
  | .monitor, .workers .unhealthy => some (x, l.goto (.agent (.decide true)))
  | .monitor, .workers .failed => some (x, l.goto (.agent (.decide true)))
  | .monitor, .workers .healthy => some (x, l.goto (.agent .nextRound))
  | .monitor, .workers .unknown => some (x, l.goto (.leaving .error))
  | .nextRound, .next =>
    some (x, l.goto (.agent
      (if (x.roundDone (l.round + 1)).isSome then .reason else .monitor)))
  | .reason, .next =>
    some (x, l.goto
      (match x.noRestartReason with
      | some reason => .leaving (.noRestart reason)
      | none => .agent (.decide false)))
  | .decide openRendezvous, .decide terminateEarly =>
    if terminateEarly then
      some (x, l.goto (.agent (.signal .noProgress (.noRestart .noProgress))))
    else if 0 < l.remainingRestarts then
      some (x, { l with
        remainingRestarts := l.remainingRestarts - 1
        phase := if openRendezvous then .agent (.openCheck .restart) else .wait .shutdown })
    else some (x, l.goto (.leaving .failed))
  | .signal reason after, .next =>
    some (x.setShutdown reason, l.goto (.agent (.openCheck after)))
  | .openCheck after, .next =>
    some (x, l.goto
      (if (x.roundDone (l.round + 1)).isSome then after.phase else .agent (.openSet after)))
  | .openSet after, .next =>
    some (x.setRoundDone (l.round + 1) .opened, l.goto after.phase)
  | _, _ => none

/-- `run` catches a rendezvous exception: `_raise_if_no_restart` and
`is_shutdown_due_to_failure`.  The control process leaves its loop. -/
def raisedOutcome (cfg : JobConfig) (p : Nat) (x : BarrierStore) (graceful : Bool) : Outcome :=
  if cfg.isControl p then .controlExited
  else
    match x.noRestartReason with
    | some reason => .noRestart reason
    | none =>
      if !graceful then .rendezvousClosed
      else if x.shutdownReason = some .failure then .terminalFailure
      else .gracefulExit

/-- The `finally` of `launch_agent`.  The control process writes nothing when it
leaves. -/
def closeOnExit (cfg : JobConfig) (p : Nat) (x : BarrierStore) (outcome : Outcome) :
    BarrierStore :=
  if cfg.isControl p then x
  else
    match outcome.shutdownReason with
    | some reason => x.setShutdown reason
    | none => x

/-- Has the process left `_invoke_run`? -/
def Phase.left : Phase → Bool
  | .leaving _ | .exited _ => true
  | _ => false

def jobStep (cfg : JobConfig) (p : Nat) (x : BarrierStore) (l : Launcher) (event : Event) :
    Option (BarrierStore × Launcher) :=
  match event with
  | .signal => if l.phase.left then none else some (x, l.goto (.leaving .signalled))
  | .fault => if l.phase.left then none else some (x, l.goto (.leaving .error))
  | event =>
    match l.phase with
    | .construct phase => constructStep cfg p x l phase event
    | .wait phase => waitStep cfg p x l phase event
    | .join phase => joinStep cfg p x l phase event
    | .close phase => closeStep cfg p x l phase event
    | .await phase => awaitStep cfg p x l phase event
    | .agent phase => agentStep cfg p x l phase event
    | .raised graceful =>
      if event = .next then
        some (x, l.goto (.leaving (raisedOutcome cfg p x graceful)))
      else none
    | .leaving outcome =>
      if event = .next then some (closeOnExit cfg p x outcome, l.goto (.exited outcome))
      else none
    | .exited _ => none

/-- The store and every process of the job. -/
abbrev JobState := Agents.Configuration BarrierStore Launcher

/-- Every process of the job, over one store. -/
def job (cfg : JobConfig) : Agents BarrierStore Launcher Event where
  shared := .empty
  start _ := .start
  step := jobStep cfg

end ResiliencyExt.FaultTolerance.Rendezvous
