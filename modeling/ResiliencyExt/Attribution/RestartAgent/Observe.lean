import ResiliencyExt.Attribution.RestartAgent.LinePatterns
import ResiliencyExt.Attribution.RestartAgent.LogSource
import ResiliencyExt.Foundation.Utf8

set_option autoImplicit false

/-!
# Restart agent: the ingestion of a log

`L0ObservationAccumulator._observe` of `l0/assembly.py`: what is kept of one line, and the
lines of a log one after another.  Four steps of it call `int` on digits of the line and can
raise: the rank, the iteration of a failure, the timeout of an operation and the world size.

A duration is kept as the numbers it is computed from, not as the floating-point value.
-/

namespace ResiliencyExt.Attribution.RestartAgent

open Foundation
open Foundation.Regex
open ResiliencyExt.FaultTolerance.CycleInfo (intValue)

/-- `term in text` -/
def mentions (term : String) (text : List Char) : Bool :=
  TextSearch.occursIn term.toList text

/-- `LogLine` -/
structure LogLine where
  line : Nat
  text : List Char
  deriving DecidableEq, Repr

/-- `_OccurrenceSeed`, without the registry row that only later stages fill in. -/
structure OccurrenceSeed where
  detectorId : String
  normalizedShape : String
  line : Nat
  classification : String
  rank : Option (List Char)
  node : Option (List Char)
  gpu : Option (List Char)
  deriving DecidableEq, Repr

/-- `_time_of_day_seconds`: whole seconds, and the digits behind the point. -/
structure TimeOfDay where
  seconds : Nat
  fraction : List Char
  deriving DecidableEq, Repr

/-- `_TimedOperationEvent` -/
structure TimedOperationEvent where
  line : Nat
  text : List Char
  timestampSeconds : Option TimeOfDay
  timestampText : Option (List Char)
  /-- `configured_timeout_seconds`, in milliseconds. -/
  configuredTimeoutMs : Option Nat
  sequenceNumber : List Char
  operationType : List Char
  rank : Option (List Char)
  deriving DecidableEq, Repr

/-- `_RecentTraceContext` -/
structure RecentTraceContext where
  rank : Option Nat
  cleanupFrame : Bool
  tracebackStart : Bool
  deriving DecidableEq, Repr

/-- `MAX_RECENT_TEARDOWN_CONTEXT_LINES` -/
def maxRecentTeardownContextLines : Nat := 49

/-- The lists of an `L0ObservationAccumulator`. -/
structure LineObservations where
  pathCandidateLines : List LogLine
  progressCandidateLines : List LogLine
  terminalLines : List Nat
  registryRowsByLine : Dict Nat (List SignatureRegistryRow)
  teardownExceptionLines : List Nat
  diagnosticOccurrenceSeeds : List OccurrenceSeed
  highSignalLines : List Nat
  teardownLines : List Nat
  processTerminationLines : List Nat
  schedulerCancelLines : List Nat
  timedOperationEvents : List TimedOperationEvent
  exceptionSummaryLines : List LogLine
  checkpointSaveLines : List LogLine
  checkpointLoadLines : List LogLine
  dataloaderLines : List LogLine
  explicitWorldSize : Option Nat
  explicitWorldSizeLine : Option Nat
  observedRanks : List Nat
  observedNodes : List (List Char)
  recentTraceContext : List RecentTraceContext

/-- `L0ObservationAccumulator` -/
structure L0ObservationAccumulator (Obs : Type) where
  observedCount : Nat
  observations : Obs

/-- `L0ObservationAccumulator()` -/
def noLineObservations : LineObservations where
  pathCandidateLines := []
  progressCandidateLines := []
  terminalLines := []
  registryRowsByLine := Dict.empty
  teardownExceptionLines := []
  diagnosticOccurrenceSeeds := []
  highSignalLines := []
  teardownLines := []
  processTerminationLines := []
  schedulerCancelLines := []
  timedOperationEvents := []
  exceptionSummaryLines := []
  checkpointSaveLines := []
  checkpointLoadLines := []
  dataloaderLines := []
  explicitWorldSize := none
  explicitWorldSizeLine := none
  observedRanks := []
  observedNodes := []
  recentTraceContext := []

section Lines

variable (data : CharData)

/-! ## Signals -/

/-- `c.upper()` of a character that `re.IGNORECASE` takes for an ASCII letter. -/
def upperLetter (c : Char) : Char :=
  if c = dotlessI then 'I' else if c = longS then 'S' else c.toUpper

/-- `_structured_log_signal_text` -/
def structuredLogSignalText (text : List Char) : List Char :=
  match matchStart data true LinePattern.structuredLogPrefix text with
  | none => text
  | some m =>
    let severity := ((m.get? "severity").getD []).map upperLetter
    let message := (m.get? "message").getD []
    if severity = "ERROR".toList ∨ severity = "CRITICAL".toList ∨ severity = "FATAL".toList then
      severity ++ ": ".toList ++ message
    else message

/-! ## Progress -/

/-- `_checkpoint_progress_dialect_recognized` -/
def checkpointProgressDialectRecognized (text : List Char) : Bool :=
  [LinePattern.checkpoint, LinePattern.checkpointSaveStart, LinePattern.checkpointLoaded,
    LinePattern.checkpointLoadComplete, LinePattern.checkpointLoadStart,
    LinePattern.checkpointMetadataLoaded, LinePattern.checkpointReshard].any fun r =>
      found data true r text

/-- A line that is about a failure. -/
def observesFailure (text : List Char) : Bool :=
  found data false LinePattern.exceptionSummary text ||
    found data true LinePattern.watchdogException text ||
    found data true LinePattern.cudaRuntimeStatus text ||
    found data true LinePattern.terminalOperationTimeout text

/-- `_observed_failure_iteration` -/
def observedFailureIteration (text : List Char) : Except LineError (Option Nat) :=
  if !observesFailure data text then .ok none
  else extractFailureIteration data text

/-- The tests of `_line_may_change_progress` before the last one. -/
def mentionsProgress (text lowered : List Char) : Bool :=
  mentions "iteration" lowered && (found data true LinePattern.megatronIteration text ||
      found data false LinePattern.trainingIterationsTotal text ||
      found data true LinePattern.rerunIterationReset text ||
      found data true LinePattern.checkpointSavedIteration text) ||
    mentions "training step" lowered && found data true LinePattern.trainingStart text ||
    mentions "checkpoint" lowered && checkpointProgressDialectRecognized data text ||
    mentions "optimizer" lowered && found data true LinePattern.optimizerSetup text ||
    mentions "cuda graph" lowered && found data true LinePattern.cudaGraphBuilt text ||
    containsAny recoveryTriggerTerms lowered && found data true LinePattern.recovery text

/-- `_line_may_change_progress` -/
def lineMayChangeProgress (text lowered : List Char) : Except LineError Bool :=
  if mentionsProgress data text lowered then .ok true
  else if containsAny failureIterationTriggerTerms lowered then
    (observedFailureIteration data text).map Option.isSome
  else .ok false

/-! ## Diagnostics -/

/-- `diagnostic_uncertainty_kind` -/
def diagnosticUncertaintyKind (line : List Char) : Option String :=
  if found data true LinePattern.conditionalCause line then some "conditional_cause_language"
  else none

/-- `_diagnostic_seed` -/
def diagnosticSeed (item : LogLine) (detectorId normalizedShape classification : String) :
    OccurrenceSeed where
  detectorId := detectorId
  normalizedShape := normalizedShape
  line := item.line
  classification := classification
  rank := extractRank data item.text
  node := extractNode data item.text
  gpu := extractGpu data item.text

/-- The patterns of `_diagnostic_seeds_for_line`, whether they ignore case, and what their seeds
say. -/
def seedPatterns : List (Pattern × Bool × String × String × String) :=
  [(LinePattern.trainingIterationsTotal, false, "megatron_training_iterations_total.v1",
      "setting training iterations", "lifecycle"),
    (LinePattern.trainingStart, true, "megatron_training_start_datetime.v1",
      "before start of training step datetime", "lifecycle"),
    (LinePattern.rerunIterationReset, true, "megatron_rerun_iteration_reset.v1",
      "rerun current iteration reset", "lifecycle"),
    (LinePattern.rankGpuMappingWarning, true, "rank_gpu_mapping_warning.v1",
      "guessing device id based on global rank", "diagnostic"),
    (LinePattern.ncclVersion, false, "nccl_version.v1", "nccl version", "diagnostic"),
    (LinePattern.worldSize, true, "world_size_config.v1", "world size config", "job_metadata")]

/-- `_diagnostic_seeds_for_line` -/
def diagnosticSeedsForLine (item : LogLine) (diagnosticKind : Option String) :
    List OccurrenceSeed :=
  let diagnosticKind := diagnosticKind.or (diagnosticContextKind data item.text)
  let kindSeeds := diagnosticKind.toList.map fun kind =>
    diagnosticSeed data item (kind ++ ".v1") kind "diagnostic_context"
  let uncertaintySeeds := (diagnosticUncertaintyKind data item.text).toList.map fun kind =>
    diagnosticSeed data item (kind ++ ".v1") kind "diagnostic_hypothesis"
  let patternSeeds := seedPatterns.filterMap fun (r, ignoreCase, detectorId, shape, cls) =>
    if found data ignoreCase r item.text then some (diagnosticSeed data item detectorId shape cls)
    else none
  kindSeeds ++ uncertaintySeeds ++ patternSeeds

/-! ## Operations that timed out -/

/-- `_timed_operation_fields`: the sequence number and the type of the operation. -/
def timedOperationFields (text : List Char) : Option (List Char × List Char) :=
  if text = [] ∨ !found data true LinePattern.terminalOperationTimeout text then none
  else
    let fields := (findAll data true LinePattern.timedOperationField text).foldl (fun fields m =>
        fields.set (lower data ((m.get? "name").getD [])) (lower data ((m.get? "value").getD [])))
      (Dict.empty : Dict (List Char) (List Char))
    match fields.get? "seqnum".toList, fields.get? "optype".toList with
    | some seqnum, some optype => some (seqnum, optype)
    | _, _ => none

/-- `_time_of_day_seconds` -/
def timeOfDaySeconds (text : List Char) : Option TimeOfDay :=
  (search data false LinePattern.timeOfDay text).map fun m =>
    let number := fun name => intValue ((m.2.get? name).getD [])
    { seconds := number "hour" * 3600 + number "minute" * 60 + number "second"
      fraction := (m.2.get? "fraction").getD [] }

/-- `_time_of_day_text` -/
def timeOfDayText (text : List Char) : Option (List Char) :=
  (search data false LinePattern.timeOfDay text).map fun m => m.1.textTo m.2

/-- The least integer that is too large for a floating-point number, half a unit in the last
place beyond the largest of them. -/
def floatLimit : Nat :=
  Nat.pow 2 1024 - Nat.pow 2 970

/-- `_configured_timeout_seconds`, before the division by 1000. -/
def configuredTimeout (text : List Char) : Except LineError (Option Nat) :=
  match searchGroup data true LinePattern.timeoutMs "milliseconds" text with
  | none => .ok none
  | some digits => do
    let milliseconds ← intOf digits
    if floatLimit ≤ milliseconds then .error .overflowError else .ok (some milliseconds)

/-- `_timed_operation_event` -/
def timedOperationEvent (item : LogLine) : Except LineError (Option TimedOperationEvent) :=
  match timedOperationFields data item.text with
  | none => .ok none
  | some (seqnum, optype) => do
    let timeout ← configuredTimeout data item.text
    return some {
      line := item.line
      text := item.text
      timestampSeconds := timeOfDaySeconds data item.text
      timestampText := timeOfDayText data item.text
      configuredTimeoutMs := timeout
      sequenceNumber := seqnum
      operationType := optype.dropWhile (· = '_')
      rank := extractRank data item.text }

/-- A line whose operation is looked at. -/
def mentionsTimeout (lowered : List Char) : Bool :=
  mentions "timeout" lowered || mentions "timed out" lowered

/-- The operation that timed out on a line. -/
def observedTimeout (item : LogLine) (lowered : List Char) :
    Except LineError (Option TimedOperationEvent) :=
  if mentionsTimeout lowered then timedOperationEvent data item else .ok none

/-! ## Exceptions -/

/-- `_preclassified_exception_context_is_teardown`, from the last line back. -/
def exceptionContextIsTeardown (preferredRank : Option Nat) :
    Bool → List RecentTraceContext → Bool
  | _, [] => false
  | cleanupFrameFound, context :: rest =>
    if preferredRank.isSome && (context.rank.isSome && context.rank != preferredRank) then
      exceptionContextIsTeardown preferredRank cleanupFrameFound rest
    else
      let cleanupFrameFound := cleanupFrameFound || context.cleanupFrame
      if context.tracebackStart then cleanupFrameFound
      else exceptionContextIsTeardown preferredRank cleanupFrameFound rest

/-! ## One line -/

/-- Append an item to a list, or not. -/
def appendIf {α : Type} (condition : Bool) (items : List α) (item : α) : List α :=
  if condition then items ++ [item] else items

def observePath (acc : LineObservations) (item : LogLine) : LineObservations :=
  { acc with
    pathCandidateLines := appendIf (mentions "/" item.text &&
      (found data true LinePattern.permissionDeniedPath item.text ||
        found data false LinePattern.configPath item.text ||
        found data false LinePattern.inlinePath item.text)) acc.pathCandidateLines item }

def observeProgress (acc : LineObservations) (item : LogLine) (signalLowered : List Char) :
    Except LineError LineObservations := do
  let changes ← lineMayChangeProgress data item.text signalLowered
  return { acc with
    progressCandidateLines := appendIf changes acc.progressCandidateLines item }

/-- The lines that signal a failure, and those that may end an episode. -/
def observeSignals (acc : LineObservations) (item : LogLine)
    (lowered signalText signalLowered : List Char) : LineObservations :=
  let text := item.text
  let diagnosticKind :=
    if mentions "cuda" lowered || mentions "stacktrace" lowered then diagnosticContextKind data text
    else none
  let rows := if diagnosticKind.isNone then matchRegistry data text true (some signalLowered) else []
  { acc with
    terminalLines := appendIf (containsAny terminalTriggerTerms lowered &&
      found data true LinePattern.terminal text) acc.terminalLines item.line
    registryRowsByLine :=
      if rows.isEmpty then acc.registryRowsByLine else acc.registryRowsByLine.set item.line rows
    highSignalLines := appendIf (diagnosticKind.isNone &&
      (containsAny highSignalTriggerTerms signalLowered &&
        (found data true LinePattern.highSignal signalText ||
          found data true LinePattern.bareProcessKilled text))) acc.highSignalLines item.line
    diagnosticOccurrenceSeeds := acc.diagnosticOccurrenceSeeds ++
      if containsAny diagnosticSeedTriggerTerms lowered then
        diagnosticSeedsForLine data item diagnosticKind
      else []
    teardownLines := appendIf ((mentions "destroy_process_group" lowered ||
      mentions "program exit" lowered || mentions "exiting" lowered) &&
        found data true LinePattern.teardown text) acc.teardownLines item.line
    processTerminationLines := appendIf ((mentions "terminated" lowered ||
      mentions "fatal python error" lowered || mentions "killed" lowered) &&
        (found data true LinePattern.processTermination text ||
          found data true LinePattern.bareProcessKilled text))
      acc.processTerminationLines item.line
    schedulerCancelLines := appendIf ((mentions "cancelled" lowered ||
      mentions "slurmstepd" lowered) && found data true LinePattern.schedulerCancel text)
      acc.schedulerCancelLines item.line }

def observeTimedOperation (acc : LineObservations) (item : LogLine) (lowered : List Char) :
    Except LineError LineObservations := do
  let event ← observedTimeout data item lowered
  return { acc with timedOperationEvents := acc.timedOperationEvents ++ event.toList }

/-- The lines that end an exception, and those that move checkpoints and data. -/
def observeArtifacts (acc : LineObservations) (item : LogLine)
    (lowered signalLowered : List Char) (rank : Option Nat) : LineObservations :=
  let text := item.text
  let exceptionSummary := (mentions "error" signalLowered || mentions "exception" signalLowered ||
    mentions "assertion" signalLowered) && found data false LinePattern.exceptionSummary text
  { acc with
    exceptionSummaryLines := appendIf exceptionSummary acc.exceptionSummaryLines item
    teardownExceptionLines :=
      if exceptionSummary &&
          exceptionContextIsTeardown rank false acc.recentTraceContext.reverse then
        acc.teardownExceptionLines.insert item.line
      else acc.teardownExceptionLines
    checkpointSaveLines := appendIf (mentions "checkpoint" lowered && mentions "saving" lowered &&
      found data true LinePattern.checkpointSaveStart text) acc.checkpointSaveLines item
    checkpointLoadLines := appendIf (mentions "checkpoint" lowered &&
      (found data true LinePattern.checkpointLoadStart text ||
        found data true LinePattern.checkpointLoadComplete text)) acc.checkpointLoadLines item
    dataloaderLines := appendIf ((mentions "dataloader" lowered || mentions "data loader" lowered ||
      mentions "dataset reader" lowered) && found data true LinePattern.dataloaderReadEvent text)
      acc.dataloaderLines item }

/-- The digits of the world size that a line names. -/
def worldSizeDigits (text : List Char) : Option (List Char) :=
  if mentions "world_size" (lower data text) then
    searchGroup data true LinePattern.worldSize "world_size" text
  else none

/-- The world size is read from the first line that names one. -/
def observeWorldSize (acc : LineObservations) (item : LogLine) :
    Except LineError LineObservations :=
  match acc.explicitWorldSize, worldSizeDigits data item.text with
  | none, some digits => do
    let size ← intOf digits
    return { acc with explicitWorldSize := some size, explicitWorldSizeLine := some item.line }
  | _, _ => .ok acc

/-- The last items of a list that is too long. -/
def keepLast {α : Type} (most : Nat) (items : List α) : List α :=
  items.drop (items.length - most)

/-- The ranks and nodes of the log, and what the next lines are judged by. -/
def observeEntities (acc : LineObservations) (item : LogLine) (lowered : List Char)
    (rank : Option Nat) : LineObservations :=
  let text := item.text
  let node := if mentions "node" lowered then extractNode data text else none
  { acc with
    observedRanks := rank.elim acc.observedRanks acc.observedRanks.insert
    observedNodes := node.elim acc.observedNodes acc.observedNodes.insert
    recentTraceContext := keepLast maxRecentTeardownContextLines (acc.recentTraceContext ++
      [{ rank := rank
         cleanupFrame := containsAny cleanupFrameTriggerTerms lowered &&
           found data true LinePattern.cleanupFrame text
         tracebackStart := mentions "traceback" lowered &&
           found data true LinePattern.traceback text }]) }

/-- `_observe` -/
def observe (acc : LineObservations) (item : LogLine) : Except LineError LineObservations := do
  let lowered := lower data item.text
  let signalText := structuredLogSignalText data item.text
  let signalLowered := lower data signalText
  let rank ← fastNumericRank data item.text lowered
  let acc ← observeProgress data (observePath data acc item) item signalLowered
  let acc := observeSignals data acc item lowered signalText signalLowered
  let acc ← observeTimedOperation data acc item lowered
  let acc := observeArtifacts data acc item lowered signalLowered rank
  let acc ← observeWorldSize data acc item
  return observeEntities data acc item lowered rank

/-! ## A log -/

/-- `observe_existing` -/
def observeExisting (acc : L0ObservationAccumulator LineObservations) (item : LogLine) :
    Except LineError (L0ObservationAccumulator LineObservations) :=
  if item.line = acc.observedCount + 1 then do
    let observations ← observe data acc.observations item
    return { observedCount := acc.observedCount + 1, observations := observations }
  else .error .valueError

/-- The lines of a log, numbered from 1. -/
def logLines (texts : List (List Char)) : List LogLine :=
  (texts.zipIdx 1).map fun e => ⟨e.2, e.1⟩

/-- The lines of a log fed one after another, as `build_l0_bundle` does it. -/
def observeLines (texts : List (List Char)) :
    Except LineError (L0ObservationAccumulator LineObservations) :=
  (logLines texts).foldlM (observeExisting data) ⟨0, noLineObservations⟩

end Lines

/-- `_decode_bytes(raw, "utf-8")`: bytes that are not well formed are replaced and counted. -/
def decodeBytes (raw : List UInt8) : List Char × Nat :=
  let text := Utf8.decode raw
  (text, if text.flatMap String.utf8EncodeChar = raw then 0
    else max 1 (text.count Utf8.replacement))

/-- The texts of the lines of a log. -/
def logTexts (content : List UInt8) : List (List Char) :=
  (allLinesOf decodeBytes content).map DecodedLine.text

end ResiliencyExt.Attribution.RestartAgent
