import ResiliencyExt.Attribution.RestartAgent.LineIdentity

set_option autoImplicit false

/-!
# Restart agent: the patterns of the ingestion

The patterns that `l0/assembly.py` tries on each line of a log, and the plain terms it looks
for before it does.  A group that no test of a line reads is left out of its pattern.  All of
them are tried with `re.IGNORECASE` but `trainingIterationsTotal`, `ncclVersion`,
`exceptionSummary`, `timeOfDay`, `configPath` and `inlinePath`.
-/

namespace ResiliencyExt.Attribution.RestartAgent

open Foundation.Regex

namespace LinePattern

open Pattern RegistryPattern

/-- `(?:\d+:\s*)?` -/
def optionalNumber : Pattern :=
  opt (cat [digits, lit ":", spaces])

/-- `\bfirst|second\b`, words of a list. -/
def wordIn (words : List String) : Pattern :=
  word (oneOf (words.map lit))

/-- `\S+` -/
def nonSpaces : Pattern :=
  plus (.one .nonSpace)

/-! ### Progress -/

/-- `_MEGATRON_ITERATION_RE` -/
def megatronIteration : Pattern :=
  cat [.textStart, spaces, optionalNumber, lit "[", plus (noneOf [.char ']']), lit "]", someSpace,
    lit "iteration", someSpace, digits, spaces, lit "/", spaces, digits, spaces, lit "|", spaces,
    lit "consumed samples:", spaces, digits, spaces, lit "|"]

/-- `_TRAINING_ITERATIONS_TOTAL_RE` -/
def trainingIterationsTotal : Pattern :=
  cat [edge, lit "setting training iterations to ", digits, edge]

/-- `_RERUN_ITERATION_RESET_RE` -/
def rerunIterationReset : Pattern :=
  cat [edge, lit "Overwriting rerun_state_machine.current_iteration from ", opt (lit "-"), digits,
    lit " to ", opt (lit "-"), digits]

/-- `_CHECKPOINT_SAVED_ITERATION_RE` -/
def checkpointSavedIteration : Pattern :=
  oneOf [cat [edge, lit "successfully saved checkpoint from iteration", someSpace, digits, edge],
    cat [edge, lit "saved checkpoint from iteration", someSpace, digits, edge]]

/-- `_TRAINING_START_RE` -/
def trainingStart : Pattern :=
  lit "[before the start of training step] datetime:"

/-- `_CHECKPOINT_RE` -/
def checkpoint : Pattern :=
  cat [word (lit "checkpoint"), anything,
    wordIn ["saved", "complete", "completed", "success", "wrote"]]

/-- `_CHECKPOINT_SAVE_START_RE` -/
def checkpointSaveStart : Pattern :=
  cat [edge, lit "saving checkpoint at iteration", someSpace, digits, someSpace, lit "to",
    someSpace, nonSpaces]

/-- `_CHECKPOINT_LOADED_RE` -/
def checkpointLoaded : Pattern :=
  wordIn ["successfully loaded checkpoint"]

/-- `(?:\s+from\s+\S+)?.*?\bat iteration\s+\d+\b` -/
def fromPathAtIteration : Pattern :=
  cat [opt (cat [someSpace, lit "from", someSpace, nonSpaces]), lazily, edge, lit "at iteration",
    someSpace, digits, edge]

/-- `_CHECKPOINT_LOAD_COMPLETE_RE` -/
def checkpointLoadComplete : Pattern :=
  cat [edge, lit "successfully loaded checkpoint", fromPathAtIteration]

/-- `_CHECKPOINT_LOAD_START_RE` -/
def checkpointLoadStart : Pattern :=
  cat [edge, lit "loading", someSpace, opt (cat [lit "a", someSpace]),
    opt (cat [lit "distributed", someSpace]), lit "checkpoint", edge, fromPathAtIteration]

/-- `_CHECKPOINT_METADATA_LOADED_RE` -/
def checkpointMetadataLoaded : Pattern :=
  cat [edge, oneOf [lit "checkpoint", lit "sharded_state_dict"], someSpace, lit "metadata",
    someSpace, lit "loaded", edge]

/-- `_CHECKPOINT_RESHARD_RE` -/
def checkpointReshard : Pattern :=
  wordIn ["job sharding has changed"]

/-- `_OPTIMIZER_SETUP_RE` -/
def optimizerSetup : Pattern :=
  wordIn ["setting up optimizer"]

/-- `_CUDA_GRAPH_BUILT_RE` -/
def cudaGraphBuilt : Pattern :=
  cat [edge, lit "built cuda graph", opt (lit "(s)"), edge]

/-- `_RECOVERY_RE` -/
def recovery : Pattern :=
  wordIn ["retry succeeded", "recovered", "continuing", "skipping", "quarantine", "resumed",
    "successfully retried"]

/-- `_DATALOADER_READ_EVENT_RE` -/
def dataloaderReadEvent : Pattern :=
  cat [wordIn ["dataloader", "data loader", "dataset reader"], lazily,
    oneOf [cat [lit "successfully", someSpace, oneOf [lit "read", lit "loaded", lit "opened"]],
      cat [lit "finished", someSpace, lit "reading"], cat [lit "read", someSpace, lit "complete"],
      lit "reading", lit "loading", lit "opening",
      cat [lit "failed", someSpace, opt (cat [lit "to", someSpace]),
        oneOf [lit "read", lit "load", lit "open"]],
      cat [lit "error", someSpace, opt (cat [lit "while", someSpace]),
        oneOf [lit "reading", lit "loading", lit "opening"]]],
    edge, lazily, wordIn ["file", "shard", "object", "path"], spaces,
    opt (oneOf [lit "=", lit ":", lit "from"]), spaces, opt (anyOf (chars "'\"")),
    lit "/", plus (noneOf (.space :: chars "'\",])"))]

/-! ### Failures -/

/-- `_TERMINAL_RE` -/
def terminal : Pattern :=
  wordIn ["fatal", "failed", "aborted", "terminated", "exiting", "uncaught", "raise",
    "runtimeerror", "traceback"]

/-- `_HIGH_SIGNAL_RE` -/
def highSignal : Pattern :=
  oneOf [wordIn ["CRITICAL", "FATAL", "ERROR", "Traceback", "RuntimeError", "AssertionError",
      "AcceleratorError"],
    cat [oneOf [lit "raising", lit "raised"], someSpace, anything,
      wordIn ["gpu", "accelerator", "device"], anything, wordIn ["error"]],
    word (oneOf [cat [lit "assert", opt (lit "ion"), lit " failed"], lit "out of bounds",
      lit "bounds failure", lit "timeout"])]

/-- `_STRUCTURED_LOG_PREFIX_RE` -/
def structuredLogPrefix : Pattern :=
  cat [.textStart, spaces, optionalNumber,
    opt (cat [lit "[", plus (noneOf [.char ']']), lit "]", spaces]),
    .group "severity" (oneOf [lit "DEBUG", lit "INFO", cat [lit "WARN", opt (lit "ING")],
      lit "ERROR", lit "CRITICAL", lit "FATAL"]),
    lit ":", anyOf nameStart, many (anyOf (nameStart ++ [.range '0' '9', .char '.', .char '-'])),
    lit ":", .group "message" anything, .textEnd]

/-- `_EXCEPTION_SUMMARY_RE` -/
def exceptionSummary : Pattern :=
  cat [edge, dottedName, oneOf [lit "Error", lit "Exception"], lit ":"]

/-- `_WATCHDOG_EXCEPTION_RE` -/
def watchdogException : Pattern :=
  cat [edge, lit "watchdog thread terminated with exception:", spaces, anything, edge,
    oneOf [lit "CUDA", lit "NCCL", lit "c10"], someSpace, lit "error:", anything, .textEnd]

/-- `_CUDA_RUNTIME_STATUS_RE` -/
def cudaRuntimeStatus : Pattern :=
  cat [edge, lit "cudaError", many (anyOf (nameStart ++ [.range '0' '9'])), lit ":"]

/-- `_TRACEBACK_RE` -/
def traceback : Pattern :=
  cat [edge, lit "Traceback (most recent call last):"]

/-- `_TEARDOWN_RE` -/
def teardown : Pattern :=
  wordIn ["destroy_process_group", "program exit", "before program exit", "exiting"]

/-- `_BARE_PROCESS_KILLED_RE` -/
def bareProcessKilled : Pattern :=
  cat [.textStart, spaces, optionalNumber, lit "Killed", spaces, .textEnd]

/-- `_PROCESS_TERMINATION_RE` -/
def processTermination : Pattern :=
  oneOf [wordIn ["Producer process has been terminated", "process has been terminated",
      "terminated"],
    cat [lit "Fatal Python error:", spaces, oneOf [lit "Aborted", lit "Segmentation fault"],
      edge]]

/-- `_SCHEDULER_CANCEL_RE` -/
def schedulerCancel : Pattern :=
  word (oneOf [lit "CANCELLED AT",
    cat [lit "STEP", edge, anything, edge, lit "CANCELLED"],
    cat [lit "slurmstepd", edge, anything, edge, lit "CANCELLED"]])

/-- `_CLEANUP_FRAME_RE` -/
def cleanupFrame : Pattern :=
  wordIn ["_run_finalizers", "finalizer", "_cleanup", "cleanup", "shutdown", "atexit",
    "destroy_process_group", "sem_unlink"]

/-! ### Operations that timed out -/

/-- `_TERMINAL_OPERATION_TIMEOUT_RE` -/
def terminalOperationTimeout : Pattern :=
  distributedOperationTimeout

/-- `_TIMED_OPERATION_FIELD_RE` -/
def timedOperationField : Pattern :=
  cat [edge, .group "name" (oneOf [lit "SeqNum", lit "OpType"]), lit "=",
    .group "value" (plus (anyOf (nameStart ++ [.range '0' '9', .char '.', .char '-']))), edge]

/-- `_TIME_OF_DAY_RE` -/
def timeOfDay : Pattern :=
  cat [.notBehind .digit, .group "hour" (digitTimes 2), lit ":", .group "minute" (digitTimes 2),
    lit ":", .group "second" (digitTimes 2), opt (cat [lit ".", .group "fraction" digits])]

/-- `_TIMEOUT_MS_RE` -/
def timeoutMs : Pattern :=
  cat [edge, lit "Timeout(ms)=", .group "milliseconds" digits, edge]

/-! ### The job -/

/-- `_RANK_GPU_MAPPING_WARNING_RE` -/
def rankGpuMappingWarning : Pattern :=
  lit ("Guessing device ID based on global rank. This can cause a hang if rank to GPU " ++
    "mapping is heterogeneous")

/-- `_NCCL_VERSION_RE` -/
def ncclVersion : Pattern :=
  cat [edge, lit "NCCL version ", nonSpaces]

/-- `_WORLD_SIZE_RE` -/
def worldSize : Pattern :=
  cat [word (lit "world_size"), spaces, plus (anyOf (.space :: chars ".=:-")), spaces,
    .group "world_size" digits, edge]

/-- `_CONDITIONAL_CAUSE_RE` of the registry. -/
def conditionalCause : Pattern :=
  oneOf [cat [edge, oneOf [lit "might", lit "may", lit "could"], lit " be caused by", edge],
    wordIn ["it is possible that"], wordIn ["possibly due to"], wordIn ["please try"]]

/-- `_CONFIG_PATH_RE` -/
def configPath : Pattern :=
  cat [.textStart, spaces, optionalNumber, anyOf nameStart,
    many (anyOf (nameStart ++ [.range '0' '9'])), someSpace,
    .repeated (lit ".") 2 none true, someSpace, lit "/", nonSpaces]

/-- `_INLINE_PATH_RE` -/
def inlinePath : Pattern :=
  cat [edge, anyOf nameStart, many (anyOf (nameStart ++ [.range '0' '9'])), lit "=",
    .group "quote" (opt (anyOf (chars "'\""))), lit "/",
    plus (noneOf (.space :: chars "'\"(),")), .backref "quote"]

/-- `_PERMISSION_DENIED_PATH_RE` -/
def permissionDeniedPath : Pattern :=
  cat [edge, oneOf [cat [lit "PermissionError", edge, anything, edge, lit "permission denied"],
      lit "permission denied"], edge, lazily,
    .group "quote" (anyOf (chars "'\"")), lit "/", plus (noneOf (chars "'\"")), .backref "quote"]

end LinePattern

/-! ## Plain terms -/

/-- `_TERMINAL_TRIGGER_TERMS` -/
def terminalTriggerTerms : List (List Char) :=
  ["fatal", "failed", "aborted", "terminated", "exiting", "uncaught", "raise", "runtimeerror",
    "traceback"].map String.toList

/-- `_HIGH_SIGNAL_TRIGGER_TERMS` -/
def highSignalTriggerTerms : List (List Char) :=
  ["critical", "fatal", "error", "traceback", "assert", "out of bounds", "bounds failure",
    "timeout", "killed"].map String.toList

/-- `_DIAGNOSTIC_SEED_TRIGGER_TERMS` -/
def diagnosticSeedTriggerTerms : List (List Char) :=
  ["cuda", "stacktrace", "might", "may ", "could", "possible", "please try",
    "training iteration", "training step", "rerun_state_machine", "device id", "nccl version",
    "world_size"].map String.toList

/-- `_RECOVERY_TRIGGER_TERMS` -/
def recoveryTriggerTerms : List (List Char) :=
  ["retry", "recover", "continu", "skip", "quarantine", "resum"].map String.toList

/-- `_FAILURE_ITERATION_TRIGGER_TERMS` -/
def failureIterationTriggerTerms : List (List Char) :=
  ["error", "exception", "timeout"].map String.toList

/-- `_CLEANUP_FRAME_TRIGGER_TERMS` -/
def cleanupFrameTriggerTerms : List (List Char) :=
  ["_run_finalizers", "finalizer", "_cleanup", "cleanup", "shutdown", "atexit",
    "destroy_process_group", "sem_unlink"].map String.toList

end ResiliencyExt.Attribution.RestartAgent
