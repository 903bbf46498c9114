import ResiliencyExt.FaultTolerance.PerCycleLogs.ReadSchedules
import ResiliencyExt.Foundation.System

set_option autoImplicit false

/-!
# Per-cycle logs: the reader loop and the launcher

`MultiplexingReaderThread.run` beside the launcher's thread, which calls
`update_pipes`, `clear_all_pipes` and `shutdown`.  One action is one access to
what the two threads share, the return of one call of the poller, or one read,
so an interleaving of the two threads is a list of actions.  Time is left out:
a wait may end early with its timeout at any point where the event is not set.

The object identity of a configuration is its number: `current` counts the calls
of `update_pipes`, and `current_config is not active_config` compares numbers.

The configurations that have been applied, the one under which each descriptor
was registered, the reads and whether the last clear request was confirmed are
recorded for the statements about runs; no step reads these records.
-/

namespace ResiliencyExt.FaultTolerance.PerCycleLogs

open Foundation SplitLines

/-- Where the reader thread is. -/
inductive Pc
  /-- Before `active_config = self._current_config` in `run`. -/
  | starting
  | top
  | clearCheck
  /-- The resources are cleaned up for a clear request. -/
  | cleaned
  /-- `_clear_pipes_event` is cleared, `_pipes_cleared_event` not yet set. -/
  | acknowledging
  | configCheck
  | polling
  | processing (fds : List Nat)
  /-- In the `finally` block. -/
  | exiting
  | finalPoll
  | draining (fds : List Nat)
  | stopped
  deriving DecidableEq, Repr

/-- Where the launcher is in `clear_all_pipes`. -/
inductive ClearPc
  | idle
  /-- `_pipes_cleared_event` is cleared, `_clear_pipes_event` not yet set. -/
  | requesting
  | waiting
  deriving DecidableEq, Repr

/-- What is recorded of the pipes. -/
inductive LogEntry
  /-- Text from a pipe that was registered under the configuration with this number. -/
  | read (generation : Nat) (writer : Writer) (bytes : List UInt8)
  /-- A pipe has come to its end. -/
  | closed (writer : Writer)
  /-- The clean-up of the `finally` block. -/
  | exited
  deriving DecidableEq, Repr

/-- The two threads. -/
structure ReaderThread where
  reader : Reader
  pc : Pc
  /-- `active_config`; none before `run`. -/
  active : Option Nat
  /-- `_current_config` -/
  current : Nat
  currentConfig : ReaderConfig
  shutdownRequested : Bool
  /-- `_clear_pipes_event` -/
  clearPipesEvent : Bool
  /-- `_pipes_cleared_event` -/
  pipesClearedEvent : Bool
  clearPc : ClearPc
  /-- The last clear request was confirmed, and no configuration has been given since. -/
  confirmed : Bool
  applied : List ReaderConfig
  registeredIn : Nat → Nat
  log : List LogEntry

inductive Action
  /-- The reader's next step where nothing but the state decides about it. -/
  | advance
  /-- The poller returns events for these descriptors. -/
  | polled (fds : List Nat)
  /-- The poller is interrupted. -/
  | pollInterrupted
  /-- The poller raises another `OSError`. -/
  | pollFailed
  /-- The next event is handled.  An event with neither `POLLIN` nor `POLLHUP` is passed over,
  as an interrupted read is. -/
  | read (result : ReadResult)
  | updatePipes (config : ReaderConfig)
  /-- `clear_all_pipes` begins. -/
  | clearAllPipes
  | requestClear
  | waitReturned
  | waitTimedOut
  | shutdown

/-- The registrations of a configuration's worker pipes carry its number. -/
def registerIn (registeredIn : Nat → Nat) (config : ReaderConfig) (generation : Nat) :
    Nat → Nat :=
  fun fd =>
    if fd ∈ config.pipes.entries.map Prod.snd then generation else registeredIn fd

namespace ReaderThread

/-- A thread that has just been created. -/
def create (config : ReaderConfig) : ReaderThread where
  reader := Reader.create config
  pc := .starting
  active := none
  current := 0
  currentConfig := config
  shutdownRequested := false
  clearPipesEvent := false
  pipesClearedEvent := false
  clearPc := .idle
  confirmed := false
  applied := [config]
  registeredIn := registerIn (fun _ => 0) config 1
  log := []

/-- The configuration has changed. -/
def applyConfig (t : ReaderThread) : ReaderThread :=
  { t with
    reader := t.reader.applyConfig t.currentConfig
    active := some t.current
    applied := t.applied ++ [t.currentConfig]
    registeredIn := registerIn t.registeredIn t.currentConfig (t.reader.generation + 1)
    pc := .polling }

/-- The beginning of the `finally` block: the clean-up, and no final poll without a launcher
pipe or with one that has the descriptor 0. -/
def cleanupAtExit (t : ReaderThread) : ReaderThread :=
  { t with
    reader := t.reader.cleanupResources
    log := t.log ++ [.exited]
    pc := if t.reader.launcherPipeFd.getD 0 = 0 then .stopped else .finalPoll }

/-- The end of `_final_launcher_pipe_cleanup`. -/
def dropLauncher (t : ReaderThread) : ReaderThread :=
  { t with
    reader := { t.reader with
      fdToLocalRank := match t.reader.launcherPipeFd with
        | some fd => t.reader.fdToLocalRank.erase fd
        | none => t.reader.fdToLocalRank }
    pc := .stopped }

/-- What is recorded of an event. -/
def entriesOf (t : ReaderThread) (fd : Nat) (result : ReadResult) : List LogEntry :=
  match t.reader.fdToLocalRank.get? fd with
  | none => []
  | some writer =>
    match result with
    | .interrupted => []
    | .failed => [.closed writer]
    | .data bytes =>
      if bytes.isEmpty then [.closed writer] else [.read (t.registeredIn fd) writer bytes]

/-- One event of the poller. -/
def processPipeEvent (t : ReaderThread) (fd : Nat) (result : ReadResult) : ReaderThread :=
  { t with
    reader := t.reader.processPipeEvent fd result
    log := t.log ++ t.entriesOf fd result }

/-- The reader's next step. -/
def advance (t : ReaderThread) : Option ReaderThread :=
  match t.pc with
  | .starting => some { t with active := some t.current, pc := .top }
  | .top => some { t with pc := if t.shutdownRequested then .exiting else .clearCheck }
  | .clearCheck =>
    some (if t.clearPipesEvent then
      { t with reader := t.reader.cleanupResources, pc := .cleaned }
    else { t with pc := .configCheck })
  | .cleaned => some { t with clearPipesEvent := false, pc := .acknowledging }
  | .acknowledging => some { t with pipesClearedEvent := true, pc := .top }
  | .configCheck =>
    some (if t.active = some t.current then { t with pc := .polling } else t.applyConfig)
  | .processing [] => some { t with pc := .top }
  | .exiting => some t.cleanupAtExit
  | .draining [] => some t.dropLauncher
  | _ => none

/-- The descriptors of a result of the poller: some that are registered, each once. -/
def MayPoll (t : ReaderThread) (fds : List Nat) : Prop :=
  fds.Nodup ∧ ∀ fd ∈ fds, fd ∈ t.reader.fdToLocalRank.keys

instance (t : ReaderThread) (fds : List Nat) : Decidable (t.MayPoll fds) :=
  inferInstanceAs (Decidable (_ ∧ _))

/-- One step of either thread. -/
def step (t : ReaderThread) : Action → Option ReaderThread
  | .advance => t.advance
  | .polled fds =>
    if t.MayPoll fds then
      match t.pc with
      | .polling => some { t with pc := .processing fds }
      | .finalPoll => some { t with pc := .draining fds }
      | _ => none
    else none
  | .pollInterrupted =>
    match t.pc with
    | .polling => some { t with pc := .top }
    | .finalPoll => some { t with pc := .draining [] }
    | _ => none
  | .pollFailed =>
    match t.pc with
    | .polling => some { t with pc := .exiting }
    | .finalPoll => some { t with pc := .draining [] }
    | _ => none
  | .read result =>
    match t.pc with
    | .processing (fd :: fds) =>
      some { t.processPipeEvent fd result with pc := .processing fds }
    | .draining (fd :: fds) =>
      some { t.processPipeEvent fd result with pc := .draining fds }
    | _ => none
  | .updatePipes config =>
    if t.clearPc = .idle then
      some { t with current := t.current + 1, currentConfig := config, confirmed := false }
    else none
  | .clearAllPipes =>
    if t.clearPc = .idle then some { t with pipesClearedEvent := false, clearPc := .requesting }
    else none
  | .requestClear =>
    if t.clearPc = .requesting then some { t with clearPipesEvent := true, clearPc := .waiting }
    else none
  | .waitReturned =>
    if t.clearPc = .waiting ∧ t.pipesClearedEvent = true then
      some { t with confirmed := true, clearPc := .idle }
    else none
  | .waitTimedOut =>
    if t.clearPc = .waiting ∧ t.pipesClearedEvent = false then
      some { t with clearPc := .idle }
    else none
  | .shutdown => some { t with shutdownRequested := true }

/-- The reader and the launcher. -/
def system : System ReaderThread Action where
  init t := ∃ config, t = create config
  step := step

end ReaderThread

/-! ## What the runs are held against -/

/-- What the launcher's stream has queued, and its incomplete line. -/
structure LauncherStream where
  queued : Text
  buffered : Option Text
  deriving DecidableEq

namespace LauncherStream

/-- The incomplete line is completed. -/
def flush (v : LauncherStream) : LauncherStream where
  queued := v.queued ++ renderIncomplete [] (v.buffered.getD [])
  buffered := none

/-- The launcher's stream goes on with its own reads, its end and the reader's exit. -/
def next (v : LauncherStream) : LogEntry → LauncherStream
  | .read _ .launcher bytes =>
    { queued := v.queued ++ (assembleLines v.buffered (readText bytes)).1.flatten
      buffered := (assembleLines v.buffered (readText bytes)).2 }
  | .closed .launcher => v.flush
  | .exited => v.flush
  | _ => v

end LauncherStream

/-- The launcher's stream as if there were no worker cycles. -/
def launcherAlone (log : List LogEntry) : LauncherStream :=
  log.foldl LauncherStream.next ⟨[], none⟩

/-- The text read from a worker's pipe that was registered under a configuration. -/
def readTextOf (log : List LogEntry) (generation localRank : Nat) : Text :=
  log.flatMap fun
    | .read g (.worker w) bytes =>
      if g = generation ∧ w = localRank then readText bytes else []
    | _ => []

/-- All text that is queued for the launcher. -/
def Reader.launcherText (r : Reader) : Text :=
  (r.writeQueue.filter fun item => item.writer = .launcher).flatMap QueueItem.data

/-- No worker descriptor is registered. -/
def Reader.NoWorkers (r : Reader) : Prop :=
  ∀ fd localRank, r.fdToLocalRank.get? fd ≠ some (.worker localRank)

/-- What stands before a worker's lines under a configuration. -/
def ReaderConfig.linePrefix (config : ReaderConfig) (localRank : Nat) : Text :=
  rankPrefix (Reader.rankWidthOf config.worldSize)
    ((config.localToGlobalRank.get? localRank).getD localRank)

/-- The file for a writer's lines under a configuration. -/
def ReaderConfig.targetPath (config : ReaderConfig) : Writer → Option String
  | .launcher => config.launcherLogFilePath
  | .worker _ => some config.logFilePath

namespace ReaderThread

/-- The configuration that was applied with this number; the first has the number 1. -/
def configOf (t : ReaderThread) : Nat → Option ReaderConfig
  | 0 => none
  | n + 1 => t.applied[n]?

/-- The worker's pipe is registered under the configuration with this number. -/
def Open (t : ReaderThread) (generation localRank : Nat) : Prop :=
  generation = t.reader.generation ∧
    ∃ fd, t.reader.fdToLocalRank.get? fd = some (.worker localRank)

/-- The text read from a worker's pipe is queued once, in order, behind the prefix of its
configuration: the lines that have ended, and when the pipe is no longer read the rest as
well. -/
def QueuedOnce (t : ReaderThread) (config : ReaderConfig) (generation localRank : Nat) : Prop :=
  ∃ lines : List Text, ∃ rest : Text,
    readTextOf t.log generation localRank = lines.flatten ++ rest ∧
    (∀ line ∈ lines, LineEnded line) ∧
    (t.Open generation localRank →
      t.reader.textOf generation (.worker localRank) =
        lines.flatMap (renderLine (config.linePrefix localRank))) ∧
    (¬ t.Open generation localRank →
      t.reader.textOf generation (.worker localRank) =
        lines.flatMap (renderLine (config.linePrefix localRank)) ++
          renderIncomplete (config.linePrefix localRank) rest)

/-- The cycles are kept apart: worker text is queued once and under its own configuration,
each item is for a file of the configuration it is counted under, a confirmed clear request
leaves no worker registered, and the launcher's stream goes on as if it were alone. -/
structure CyclesApart (t : ReaderThread) : Prop where
  workers : ∀ generation localRank config, t.configOf generation = some config →
    t.QueuedOnce config generation localRank
  configured : ∀ generation localRank, t.configOf generation = none →
    readTextOf t.log generation localRank = [] ∧
      t.reader.textOf generation (.worker localRank) = []
  files : ∀ item ∈ t.reader.writeQueue, ∃ config, t.configOf item.generation = some config ∧
    item.logFilePath = config.targetPath item.writer
  cleared : t.confirmed = true → t.reader.NoWorkers
  launcher : t.reader.launcherText = (launcherAlone t.log).queued

/-- A configuration with worker pipes waits to be applied. -/
def Pending (t : ReaderThread) : Prop :=
  t.active.isSome = true ∧ t.active ≠ some t.current ∧ t.currentConfig.pipes.entries ≠ []

instance (t : ReaderThread) : Decidable t.Pending :=
  inferInstanceAs (Decidable (_ ∧ _ ∧ _))

/-- The launcher's incomplete line is not flushed by a change of cycle: its buffer is empty
where the reader cleans up for a clear request or a new configuration. -/
def LauncherLineEnded (t : ReaderThread) : Action → Prop
  | .advance =>
    t.pc = .clearCheck ∧ t.clearPipesEvent = true ∨
        t.pc = .configCheck ∧ t.active ≠ some t.current →
      t.reader.lineBuffers.get? .launcher = none
  | _ => True

/-- No clear request is made while a configuration with worker pipes waits to be applied. -/
def ClearsApplied (t : ReaderThread) : Action → Prop
  | .clearAllPipes => ¬ t.Pending
  | _ => True

/-- What keeps the cycles apart. -/
def Orderly (t : ReaderThread) (a : Action) : Prop :=
  t.LauncherLineEnded a ∧ t.ClearsApplied a

instance (t : ReaderThread) (a : Action) : Decidable (t.Orderly a) := by
  cases a <;> unfold Orderly LauncherLineEnded ClearsApplied <;> infer_instance

end ReaderThread

end ResiliencyExt.FaultTolerance.PerCycleLogs
