import ResiliencyExt.FaultTolerance.Rendezvous.FencedWrite
import ResiliencyExt.FaultTolerance.Rendezvous.GroupRanks

set_option autoImplicit false

/-!
# Rendezvous: the job

The store of a barrier rendezvous and the launchers that work on it.  One process
is the store host.  It is either a launcher, which joins rounds like the others,
or the control process, which only closes them.

Two things are not in the code.  The history fields of the store record what the
run has done so far, and no step reads them.  A `check` of a key followed by a
`get` is one read wherever the code does nothing else with the `check`: keys are
never deleted, so the pair reads what the `get` reads, or an absent key.
-/

namespace ResiliencyExt.FaultTolerance.Rendezvous

open Foundation

/-- The value of `round_done_N`. -/
inductive RoundDone where
  /-- `"0"`: accepting new participants. -/
  | opened
  /-- `"1"`: ranks assigned. -/
  | closed
  deriving DecidableEq, Repr

/-- `RDZV_SHUTDOWN_REASON_*` -/
inductive ShutdownReason where
  | graceful
  | failure
  | attributionStop
  | noProgress
  deriving DecidableEq, Repr

/-- Membership in `RDZV_NO_RESTART_REASONS`. -/
def ShutdownReason.isNoRestart : ShutdownReason → Bool
  | .attributionStop | .noProgress => true
  | .graceful | .failure => false

/-- What is fixed before the job starts. -/
structure JobConfig where
  minNodes : Nat
  maxNodes : Nat
  segment : Option Nat
  replacementGroupSize : Option Nat
  /-- `last_call_timeout_seconds > 0` -/
  lastCall : Bool
  /-- `NVRX_ENABLE_MULTI_LAUNCHERS_PER_NODE` -/
  multiLaunchersPerNode : Bool
  /-- `is_slurm_job_array()` -/
  jobArray : Bool
  maxRestarts : Nat
  storeHost : Nat
  /-- The store host is the control process, not a launcher. -/
  controlPlane : Bool
  /-- What process `p` publishes in its slot. -/
  participant : Nat → Participant
  distinct : ∀ p q, (participant p).nodeDesc = (participant q).nodeDesc → p = q

def JobConfig.isControl (cfg : JobConfig) (p : Nat) : Bool :=
  cfg.controlPlane && p = cfg.storeHost

/-! ## The store -/

/-- What the host assigned in a round. -/
structure Assignment where
  slots : List (Option Participant)
  ranks : Dict NodeDesc Nat

def Assignment.rank (a : Assignment) (slot : Nat) : Option Nat :=
  assignedRank a.slots a.ranks slot

/-- An active rank that `perform_rendezvous` returned. -/
structure Returned where
  launcher : Nat
  round : Nat
  slot : Nat
  rank : Int
  total : Nat
  writtenRound : Nat
  deriving DecidableEq, Repr

structure BarrierStore where
  /-- `round_done_N` -/
  roundDone : Nat → Option RoundDone
  /-- `join_count_N`; zero while the key is absent. -/
  joinCount : Nat → Nat
  /-- `slot_S` -/
  slot : Nat → Option Bytes
  /-- `slot_S_rank` -/
  slotRank : Nat → Option Bytes
  /-- `shutdown`; the empty value is the open-state sentinel. -/
  shutdown : Option (Option ShutdownReason)
  unhealthyCount : Nat
  /-- `unhealthy_replacement_groups_N` -/
  unhealthyGroups : Nat → List String
  /-- History: who claimed a slot of a round. -/
  claimant : Nat → Nat → Option Nat
  /-- History: the last assignment made in a round. -/
  assignment : Nat → Option Assignment
  /-- History: the active ranks returned so far. -/
  returned : List Returned

namespace BarrierStore

def empty : BarrierStore where
  roundDone _ := none
  joinCount _ := 0
  slot _ := none
  slotRank _ := none
  shutdown := none
  unhealthyCount := 0
  unhealthyGroups _ := []
  claimant _ _ := none
  assignment _ := none
  returned := []

/-- `get_shutdown_reason` -/
def shutdownReason (x : BarrierStore) : Option ShutdownReason :=
  x.shutdown.join

/-- `is_shutdown` -/
def isShutdown (x : BarrierStore) : Bool :=
  x.shutdownReason.isSome

/-- `no_restart_reason` -/
def noRestartReason (x : BarrierStore) : Option ShutdownReason :=
  x.shutdownReason.filter ShutdownReason.isNoRestart

/-- `set_shutdown`: one `compare_set` from the empty value. -/
def setShutdown (x : BarrierStore) (reason : ShutdownReason) : BarrierStore :=
  { x with shutdown := (compareSet none x.shutdown none (some reason)).1 }

def setRoundDone (x : BarrierStore) (round : Nat) (value : RoundDone) : BarrierStore :=
  { x with roundDone := Function.update x.roundDone round (some value) }

/-- One entry of `get_all_participants`: missing, malformed and wrong-round values
are `none`. -/
def participantAt (x : BarrierStore) (round slot : Nat) : Option Participant :=
  ((x.slot slot).bind unpackParticipantValue).bind fun value =>
    if value.1 = round then some value.2 else none

/-- `get_all_participants`.  A slot whose key was absent when it was checked is in
`missed`: it stays `none` also when the key appears before the `multi_get`. -/
def getAllParticipants (x : BarrierStore) (total round : Nat) (missed : List Nat) :
    List (Option Participant) :=
  (List.range total).map fun index =>
    if index + 1 ∈ missed then none else x.participantAt round (index + 1)

end BarrierStore

/-! ## The decision to close a round -/

/-- `_previous_active_by_infra_rank` -/
abbrev Membership := List (Int × Option String)

/-- `_PreviousActiveLastCallGate.evaluate`.  The gate is enabled by the configuration
and by what is remembered; `expired` is `now >= deadline`. -/
def lastCallGate (cfg : JobConfig) (round : Nat) (previousActive : Option Membership)
    (participants : List Participant) (unhealthyGroups : List String) (expired : Bool) :
    Bool :=
  let enabled := decide (0 < round) && decide (cfg.minNodes < cfg.maxNodes) && cfg.lastCall
  let expected := (previousActive.getD []).filter fun member =>
    match member.2 with
    | none => true
    | some group => group ∉ unhealthyGroups
  let missing := expected.filter fun member =>
    participants.all fun p => p.infraRank < 0 || p.infraRank ≠ member.1
  !enabled || missing.isEmpty || expired

/-- `_remember_previous_active_membership` -/
def rememberPreviousActive (activeCandidates : List Participant) (ranks : Dict NodeDesc Nat)
    (worldSize : Nat) : Option Membership :=
  let active := activeCandidates.filter fun p =>
    match ranks.get? p.nodeDesc with
    | none => false
    | some rank => rank < worldSize
  if active.any fun p => p.infraRank < 0 then none
  else
    let members : Dict Int (Option String) :=
      active.foldl (fun d p => d.set p.infraRank p.replacementGroupId) .empty
    if members.entries.length = worldSize then some members.entries else none

/-- What the host does with a snapshot. -/
inductive HostDecision where
  | raised (error : RankError)
  /-- Back to the top of the loop. -/
  | retry
  /-- Two launchers on one node: close the rendezvous permanently. -/
  | duplicateAddr
  | close (activeCandidates : List Participant) (ranks : Dict NodeDesc Nat)

/-- `_host_close_round`, from the snapshot to the group ranks of
`assign_group_ranks`. -/
def hostDecision (cfg : JobConfig) (round : Nat) (previousActive : Option Membership)
    (unhealthyGroups : List String) (slots : List (Option Participant)) (expired : Bool) :
    HostDecision :=
  let participants := (slots.filterMap id).filter fun p =>
    match p.replacementGroupId with
    | none => true
    | some group => group ∉ unhealthyGroups
  let buckets := splitByCompleteReplacementGroups cfg.replacementGroupSize participants
  match canMeetSegmentConstraint cfg.segment buckets.1 cfg.minNodes with
  | .error error => .raised error
  | .ok false => .retry
  | .ok true =>
    if !lastCallGate cfg round previousActive participants unhealthyGroups expired then
      .retry
    else if !cfg.multiLaunchersPerNode && ¬ (participants.map (·.nodeDesc.addr)).Nodup then
      .duplicateAddr
    else
      match assignGroupRanks cfg.segment cfg.minNodes buckets.1 buckets.2 with
      | .error error => .raised error
      | .ok ranks => .close buckets.1 ranks

/-- `multi_set` of the rank keys. -/
def BarrierStore.assign (x : BarrierStore) (round : Nat) (a : Assignment) : BarrierStore :=
  { x with
    slotRank := fun slot =>
      match a.rank slot with
      | some rank => some (.packed (packRankValue rank a.ranks.entries.length round))
      | none => x.slotRank slot
    assignment := Function.update x.assignment round (some a) }

/-! ## The processes -/

/-- How a process ended. -/
inductive Outcome where
  /-- Its workers succeeded. -/
  | succeeded
  /-- `RunResult(state=WorkerState.FAILED)` -/
  | failed
  /-- `NoRestartRequested` -/
  | noRestart (reason : ShutdownReason)
  /-- `run` returned `None` after `RendezvousGracefulExitError`. -/
  | gracefulExit
  /-- `TerminalWorkerGroupFailure` -/
  | terminalFailure
  /-- `RendezvousClosedError` -/
  | rendezvousClosed
  /-- `RendezvousTimeoutError` -/
  | timedOut
  /-- `UnhealthyNodeException` -/
  | unhealthyNode
  /-- Any other exception. -/
  | error
  /-- `SignalException`, or killed. -/
  | signalled
  /-- The control process left its loop. -/
  | controlExited
  deriving DecidableEq, Repr

/-- The reason with which `launch_agent` closes the rendezvous on its way out. -/
def Outcome.shutdownReason : Outcome → Option ShutdownReason
  | .failed | .terminalFailure => some .failure
  | .unhealthyNode | .signalled | .controlExited => none
  | _ => some .graceful

/-- `__init__` of the barrier state. -/
inductive ConstructPhase where
  | checkOpen
  | setOpen
  | checkShutdown
  | setShutdown
  deriving DecidableEq, Repr

/-- `_wait_for_rendezvous_open` -/
inductive WaitPhase where
  | shutdown
  | roundDone
  /-- `_sync_from_per_round_state`, before it reads `round_done_n`. -/
  | scan (n : Nat)
  deriving DecidableEq, Repr

/-- Step 1 of `perform_rendezvous`. -/
inductive JoinPhase where
  | hook
  /-- `_maybe_mark_current_replacement_group_unhealthy` of an unhealthy node. -/
  | exclude
  | add
  | rank (call : FencedPhase)
  | slot (call : FencedPhase)
  deriving DecidableEq, Repr

/-- `_host_close_round` -/
inductive ClosePhase where
  | shutdown
  | unhealthy
  /-- Before `set_shutdown(RDZV_SHUTDOWN_REASON_FAILURE)`. -/
  | fail
  | count
  | snapshot (joined : Nat)
  | recheck (joined : Nat) (slots : List (Option Participant))
  | evaluate (slots : List (Option Participant))
  | assign (activeCandidates : List Participant) (a : Assignment)
  | mark

/-- `_wait_for_round_done` -/
inductive AwaitPhase where
  | shutdown
  | roundDone
  | rank
  deriving DecidableEq, Repr

/-- Where the code goes on after `open_rendezvous`. -/
inductive AfterOpen where
  /-- `_restart_workers` -/
  | restart
  /-- `raise NoRestartRequested` -/
  | noRestart (reason : ShutdownReason)
  /-- The loop of `_wait_for_rendezvous_open`. -/
  | wait
  /-- The loop of `_host_close_round`. -/
  | close
  deriving DecidableEq, Repr

/-- The agent around the rendezvous. -/
inductive AgentPhase where
  /-- `_complete_initialization`, before it reads `round_done_n`. -/
  | synchronize (n : Nat)
  | monitor
  /-- `is_next_round_open` -/
  | nextRound
  /-- `no_restart_reason` -/
  | reason
  /-- `_handle_restart_decision` -/
  | decide (openRendezvous : Bool)
  /-- `signal_no_restart`, before `set_shutdown`. -/
  | signal (reason : ShutdownReason) (after : AfterOpen)
  /-- `open_rendezvous`, before its `check`. -/
  | openCheck (after : AfterOpen)
  /-- `open_rendezvous`, before its `set`. -/
  | openSet (after : AfterOpen)
  deriving DecidableEq, Repr

inductive Phase where
  | construct (phase : ConstructPhase)
  | wait (phase : WaitPhase)
  | join (phase : JoinPhase)
  | close (phase : ClosePhase)
  | await (phase : AwaitPhase)
  | agent (phase : AgentPhase)
  /-- `RendezvousGracefulExitError` or `RendezvousClosedError` has reached `run`. -/
  | raised (graceful : Bool)
  /-- Out of `_invoke_run`, before the `finally` of `launch_agent`. -/
  | leaving (outcome : Outcome)
  | exited (outcome : Outcome)

structure Launcher where
  phase : Phase
  /-- `_round` -/
  round : Nat
  /-- `_slot` -/
  slot : Nat
  /-- `_remaining_restarts` -/
  remainingRestarts : Int
  /-- `_previous_active_by_infra_rank` -/
  previousActive : Option Membership
  /-- History: the last round whose workers it ran. -/
  lastRun : Option Nat

def Launcher.start : Launcher where
  phase := .construct .checkOpen
  round := 0
  slot := 0
  remainingRestarts := 0
  previousActive := none
  lastRun := none

def Launcher.goto (l : Launcher) (phase : Phase) : Launcher :=
  { l with phase := phase }

variable (l : Launcher) (phase : Phase)

@[simp] theorem Launcher.goto_phase :
    (l.goto phase).phase = phase := rfl

@[simp] theorem Launcher.goto_round :
    (l.goto phase).round = l.round := rfl

end ResiliencyExt.FaultTolerance.Rendezvous
