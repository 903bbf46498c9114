import ResiliencyExt.Attribution.RestartAgent.AgentConfig
import ResiliencyExt.Foundation.RegexTerms

set_option autoImplicit false

/-!
# Restart agent: the registry of signatures

`match_registry` gives the rows of the registry whose pattern matches a line.  Before it tries
the patterns it looks for plain terms in the line in lower case: for any of one list of terms,
and for each row for any of its own.
-/

namespace ResiliencyExt.Attribution.RestartAgent

open Foundation.Regex

inductive RegistryRole where
  | rootCandidate
  | cascadeCandidate
  | causeConfirmation
  | either
  deriving DecidableEq, Repr

/-- The `registry_id` of a row. -/
inductive RegistryId where
  | gpuHardwareFault
  | peerGpuMemoryAccessFailure
  | infraPolicyEvent
  | timeLimit
  | userCancelled
  | observedException
  | configurationValidationFailure
  | argumentValidationFailure
  | artifactOrPathNotFound
  | checkpointCompatibilityMismatch
  | shapeMismatch
  | filesystemPermissionDenied
  | cudaOom
  | nanOrInf
  | badTokenOrWindow
  | frameworkCrash
  | linuxOomKillConfirmation
  | observedDistributedOperationTimeout
  | ncclCascade
  | cudaPreviousErrorCascade
  deriving DecidableEq, Repr

structure SignatureRegistryRow where
  registryId : RegistryId
  pattern : Pattern
  role : RegistryRole
  recoveryBehavior : RecoveryBehavior
  deriving DecidableEq, Repr

/-! ## Patterns -/

namespace RegistryPattern

open Pattern

/-- `\b` -/
abbrev edge : Pattern :=
  .wordBoundary

/-- `\bbody\b` -/
def word (body : Pattern) : Pattern :=
  cat [edge, body, edge]

/-- `.{0,most}` -/
def upTo (most : Nat) : Pattern :=
  times (.one .dot) 0 most

def cudaAsyncReportingAdvice : Pattern :=
  oneOf [lit "CUDA kernel errors might be asynchronously reported",
    cat [lit "stacktrace ", opt (lit "below "), lit "might be incorrect"]]

def cudaLaunchBlockingAdvice : Pattern :=
  cat [oneOf [lit "consider", lit "set", lit "passing"], anything, lit "CUDA_LAUNCH_BLOCKING"]

def cudaDsaCompileAdvice : Pattern :=
  cat [lit "Compile with ", opt (anyOf (chars "`'")), lit "TORCH_USE_CUDA_DSA"]

/-- `(?:watchdog\s+)?(?:caught\s+)?(?:collective\s+)?operation\s+timeout` -/
def operationTimeout : Pattern :=
  cat [opt (cat [lit "watchdog", someSpace]), opt (cat [lit "caught", someSpace]),
    opt (cat [lit "collective", someSpace]), lit "operation", someSpace, lit "timeout"]

/-- `_DISTRIBUTED_OPERATION_TIMEOUT_RE` -/
def distributedOperationTimeout : Pattern :=
  oneOf [word operationTimeout, cat [word (lit "operation"), anything, word (lit "timed out")]]

def gpuHardwareFault : Pattern :=
  oneOf [word (lit "Xid"),
    cat [lit "ECC", anything, oneOf [lit "uncorrectable", lit "DBE"]],
    cat [lit "GPU", anything, oneOf [lit "off bus", lit "fallen off"]],
    cat [lit "NVLink", upTo 24, oneOf [lit "link down",
      cat [lit "uncorrectable", opt (lit " error")], lit "CRC error", lit "recovery failed"]],
    cat [lit "NVLink", someSpace, lit "fatal", someSpace, oneOf [lit "error", lit "failure"]],
    cat [lit "PCIe", upTo 24, oneOf [cat [lit "AER", opt (lit " fatal")], lit "link down",
      lit "fatal error", cat [lit "uncorrectable", opt (lit " error")]]],
    cat [lit "thermal", upTo 80, oneOf [lit "shutdown", lit "violation", lit "fault"]]]

def peerGpuMemoryAccessFailure : Pattern :=
  cat [lit "invalid access of peer GPU memory",
    opt (cat [someSpace, lit "over", someSpace, lit "NVLink"])]

def infraPolicyEvent : Pattern :=
  oneOf [cat [lit "SLURM", anything, oneOf [lit "preempt", lit "node failure", lit "NODE_FAIL"]],
    word (lit "preempted"), word (lit "node failure")]

/-- `wall[- ]?time` -/
def wallTime : Pattern :=
  cat [lit "wall", opt (anyOf (chars "- ")), lit "time"]

def timeLimit : Pattern :=
  oneOf [word (lit "DUE TO TIME LIMIT"),
    word (cat [oneOf [lit "time limit", cat [wallTime, opt (lit " limit")]], someSpace,
      oneOf [lit "reached", lit "exceeded", lit "expired"]]),
    cat [word (oneOf [lit "cancelled", lit "canceled", lit "terminated", lit "killed"]),
      times (noneOf [.char '\n']) 0 120, word (oneOf [lit "time limit", wallTime])]]

def userCancelled : Pattern :=
  oneOf [word (lit "scancel"), word (lit "cancelled by user"),
    cat [edge, lit "user ", anything, lit "cancel"]]

/-- `[A-Za-z_]` -/
def nameStart : List ClassItem :=
  [.range 'A' 'Z', .range 'a' 'z', .char '_']

/-- `[A-Za-z_][A-Za-z0-9_.]*` -/
def dottedName : Pattern :=
  cat [anyOf nameStart, many (anyOf (nameStart ++ [.range '0' '9', .char '.']))]

def observedException : Pattern :=
  oneOf [cat [edge, dottedName, oneOf [lit "Error", lit "Exception"], lit ":",
      oneOf [.one .space, .textEnd]],
    cat [word (cat [lit "Assertion", opt (lit "Error")]), anything, word (lit "failed")]]

/-- `config(?:uration)?` -/
def configuration : Pattern :=
  cat [lit "config", opt (lit "uration")]

def configurationValidationFailure : Pattern :=
  oneOf [word (cat [lit "invalid ", oneOf [lit "option", configuration]]),
    word (cat [lit "missing ", oneOf [configuration, lit "key"]])]

def filesystemPermissionDenied : Pattern :=
  oneOf [word (lit "PermissionError"), word (lit "permission denied"), word (lit "EACCES")]

/-- `(?:nan|[-+]?inf(?:inity)?)` -/
def nonFinite : Pattern :=
  oneOf [lit "nan", cat [opt (anyOf (chars "-+")), lit "inf", opt (lit "inity")]]

/-- `grad(?:ient)?` -/
def gradient : Pattern :=
  cat [lit "grad", opt (lit "ient")]

def nanOrInf : Pattern :=
  oneOf [cat [oneOf [lit "loss", gradient, lit "activation"],
      plus (anyOf [.char '=', .char ':', .space]), nonFinite, edge],
    cat [nonFinite, someSpace, oneOf [lit "loss", gradient, lit "detected", lit "encountered"]],
    cat [lit "non", anyOf (chars "- "), lit "finite"]]

def badTokenOrWindow : Pattern :=
  oneOf [lit "bad token", lit "bad sample", lit "token window",
    cat [cat [lit "skip", opt (lit "ping"), lit " "], anything, lit "token"],
    cat [lit "quarantine ", anything, lit "token"]]

def frameworkCrash : Pattern :=
  oneOf [lit "segmentation fault", word (lit "segfault"), lit "illegal instruction",
    lit "core dumped"]

def linuxOomKillConfirmation : Pattern :=
  oneOf [word (cat [lit "Detected", someSpace, digits, someSpace, lit "oom_kill events"]),
    word (cat [oneOf [lit "Out of memory", lit "Memory cgroup out of memory"], lit ":",
      someSpace, lit "Killed process"]),
    word (lit "Some of the step tasks have been OOM Killed")]

def ncclCascade : Pattern :=
  cat [.textStart, .notAhead (cat [anything, operationTimeout]), anything, lit "NCCL", anything,
    oneOf [lit "timeout", lit "watchdog", lit "abort", lit "unhandled system error"]]

def cudaPreviousErrorCascade : Pattern :=
  oneOf [lit "operation failed due to a previous error during capture",
    lit "NCCL WARN Cuda failure"]

/-- `[a-z0-9_]` -/
def lowerWord : CharClass :=
  .set false [.range 'a' 'z', .range '0' '9', .char '_']

/-- `_NONFINITE_TRIGGER_RE` -/
def nonfiniteTrigger : Pattern :=
  oneOf [cat [.notBehind lowerWord, nonFinite, .notAhead (.one lowerWord)],
    cat [lit "non", opt (anyOf (chars "- ")), lit "finite"]]

end RegistryPattern

/-! ## The registry -/

/-- `_DIAGNOSTIC_CONTEXT_PATTERNS` -/
def diagnosticContextPatterns : List (String × Pattern) :=
  [("cuda_async_reporting_advice", RegistryPattern.cudaAsyncReportingAdvice),
    ("cuda_launch_blocking_advice", RegistryPattern.cudaLaunchBlockingAdvice),
    ("cuda_dsa_compile_advice", RegistryPattern.cudaDsaCompileAdvice)]

/-- `MVP_SIGNATURES` -/
def mvpSignatures : List SignatureRegistryRow :=
  [⟨.gpuHardwareFault, RegistryPattern.gpuHardwareFault, .rootCandidate, .none⟩,
    ⟨.peerGpuMemoryAccessFailure, RegistryPattern.peerGpuMemoryAccessFailure, .rootCandidate,
      .none⟩,
    ⟨.infraPolicyEvent, RegistryPattern.infraPolicyEvent, .rootCandidate, .none⟩,
    ⟨.timeLimit, RegistryPattern.timeLimit, .rootCandidate, .none⟩,
    ⟨.userCancelled, RegistryPattern.userCancelled, .rootCandidate, .none⟩,
    ⟨.observedException, RegistryPattern.observedException, .rootCandidate, .none⟩,
    ⟨.configurationValidationFailure, RegistryPattern.configurationValidationFailure,
      .rootCandidate, .none⟩,
    ⟨.argumentValidationFailure, RegistryPattern.word (Pattern.lit "invalid argument"),
      .rootCandidate, .none⟩,
    ⟨.artifactOrPathNotFound, RegistryPattern.word (Pattern.lit "No such file or directory"),
      .rootCandidate, .none⟩,
    ⟨.checkpointCompatibilityMismatch,
      Pattern.cat [RegistryPattern.word (Pattern.lit "checkpoint"), RegistryPattern.upTo 160,
        RegistryPattern.word (Pattern.lit "mismatch")], .rootCandidate, .none⟩,
    ⟨.shapeMismatch, RegistryPattern.word (Pattern.lit "shape mismatch"), .rootCandidate, .none⟩,
    ⟨.filesystemPermissionDenied, RegistryPattern.filesystemPermissionDenied, .rootCandidate,
      .none⟩,
    ⟨.cudaOom,
      Pattern.oneOf [Pattern.lit "CUDA out of memory", Pattern.lit "CUBLAS_STATUS_ALLOC_FAILED"],
      .rootCandidate, .none⟩,
    ⟨.nanOrInf, RegistryPattern.nanOrInf, .rootCandidate, .none⟩,
    ⟨.badTokenOrWindow, RegistryPattern.badTokenOrWindow, .rootCandidate, .retryThenSkip⟩,
    ⟨.frameworkCrash, RegistryPattern.frameworkCrash, .rootCandidate, .none⟩,
    ⟨.linuxOomKillConfirmation, RegistryPattern.linuxOomKillConfirmation, .causeConfirmation,
      .none⟩,
    ⟨.observedDistributedOperationTimeout, RegistryPattern.distributedOperationTimeout,
      .rootCandidate, .none⟩,
    ⟨.ncclCascade, RegistryPattern.ncclCascade, .cascadeCandidate, .none⟩,
    ⟨.cudaPreviousErrorCascade, RegistryPattern.cudaPreviousErrorCascade, .cascadeCandidate,
      .none⟩]

/-- `_REGISTRY_TRIGGER_TERMS` -/
def registryTriggerTerms : List (List Char) :=
  ["error", "exception", "nccl", "checkpoint", "failed", "assert", "out of memory", "xid", "ecc",
    "gpu", "nvlink", "pcie", "thermal", "slurm", "preempt", "node fail", "time limit",
    "wall-time", "walltime", "scancel", "cancelled by user", "no such file",
    "permission denied", "invalid ", "missing ", "shape mismatch",
    "cublas_status_alloc_failed", "bad token", "bad sample", "token window", "skipping",
    "quarantine", "segmentation fault", "segfault", "illegal instruction", "core dumped",
    "oom_kill", "oom killed", "out of memory: killed process", "memory cgroup out of memory",
    "watchdog"].map String.toList

/-- `_ROW_TRIGGER_TERMS`, which has no entry for the non-finite values. -/
def rowTriggerTerms (registryId : RegistryId) : List (List Char) :=
  (match registryId with
  | .gpuHardwareFault => ["xid", "ecc", "gpu", "nvlink", "pcie", "thermal"]
  | .peerGpuMemoryAccessFailure => ["peer gpu"]
  | .infraPolicyEvent => ["slurm", "preempt", "node fail", "node_fail"]
  | .timeLimit => ["time limit", "wall-time", "walltime", "wall time"]
  | .userCancelled => ["scancel", "cancelled by user", "user "]
  | .observedException => ["error", "exception", "assertion"]
  | .configurationValidationFailure => ["invalid ", "missing "]
  | .argumentValidationFailure => ["invalid argument"]
  | .artifactOrPathNotFound => ["no such file or directory"]
  | .checkpointCompatibilityMismatch => ["checkpoint"]
  | .shapeMismatch => ["shape mismatch"]
  | .filesystemPermissionDenied => ["permissionerror", "permission denied", "eacces"]
  | .cudaOom => ["cuda out of memory", "cublas_status_alloc_failed"]
  | .nanOrInf => []
  | .badTokenOrWindow =>
    ["bad token", "bad sample", "token window", "skipping", "skip ", "quarantine"]
  | .frameworkCrash => ["segmentation fault", "segfault", "illegal instruction", "core dumped"]
  | .linuxOomKillConfirmation => ["oom_kill", "oom killed", "out of memory", "memory cgroup"]
  | .observedDistributedOperationTimeout => ["timeout", "timed out"]
  | .ncclCascade => ["nccl"]
  | .cudaPreviousErrorCascade => ["previous error", "nccl warn cuda failure"]).map String.toList

section Matching

variable (data : CharData)

/-- `diagnostic_context_kind` -/
def diagnosticContextKind (line : List Char) : Option String :=
  (diagnosticContextPatterns.find? fun e => found data true e.2 line).map Prod.fst

/-- `_row_triggered` -/
def rowTriggered (registryId : RegistryId) (lowered : List Char) (hasNonfiniteTrigger : Bool) :
    Bool :=
  if registryId = .nanOrInf then hasNonfiniteTrigger
  else containsAny (rowTriggerTerms registryId) lowered

/-- `match_registry`; without `lowered` it takes the line itself in lower case. -/
def matchRegistry (line : List Char) (diagnosticChecked : Bool) (lowered : Option (List Char)) :
    List SignatureRegistryRow :=
  let lowered := lowered.getD (lower data line)
  let hasNonfiniteTrigger := found data true RegistryPattern.nonfiniteTrigger lowered
  if !containsAny registryTriggerTerms lowered && !hasNonfiniteTrigger then []
  else if !diagnosticChecked && (diagnosticContextKind data line).isSome then []
  else mvpSignatures.filter fun row =>
    rowTriggered row.registryId lowered hasNonfiniteTrigger && found data true row.pattern line

end Matching

/-! ## Terms that the patterns need -/

theorem covers_rowTriggerTerms : ∀ row ∈ mvpSignatures, row.registryId ≠ .nanOrInf →
    covers (rowTriggerTerms row.registryId) row.pattern = true := by
  decide +kernel

/-- The rows with a way to match that needs none of the terms for all rows: "wall time",
"user ... cancel", "EACCES", "skip ... token" and "operation timeout". -/
def ungatedRows : List RegistryId :=
  [.timeLimit, .userCancelled, .filesystemPermissionDenied, .badTokenOrWindow,
    .observedDistributedOperationTimeout]

theorem covers_registryTriggerTerms : ∀ row ∈ mvpSignatures, row.registryId ≠ .nanOrInf →
    row.registryId ∉ ungatedRows → covers registryTriggerTerms row.pattern = true := by
  decide +kernel

section Exact

variable {data : CharData} {line : List Char}

/-- One of the terms for all rows, or the trigger for values that are not finite. -/
def Triggered (data : CharData) (line : List Char) : Prop :=
  containsAny registryTriggerTerms (lower data line) = true ∨
    found data true RegistryPattern.nonfiniteTrigger (lower data line) = true

instance (data : CharData) (line : List Char) : Decidable (Triggered data line) :=
  inferInstanceAs (Decidable (_ ∨ _))

/-- The triggers that a row that matches the line may lack: its pattern does not imply them, or
the line has a letter that the pattern takes for another one. -/
structure HasTriggers (data : CharData) (line : List Char) (row : SignatureRegistryRow) :
    Prop where
  ungated : row.registryId ∈ ungatedRows → Triggered data line
  nonfinite : row.registryId = .nanOrInf →
    found data true RegistryPattern.nonfiniteTrigger (lower data line) = true
  special : (∃ c ∈ line, isSpecial c = true) → Triggered data line ∧
    rowTriggered row.registryId (lower data line)
      (found data true RegistryPattern.nonfiniteTrigger (lower data line)) = true

/-- The rows whose pattern matches the line. -/
def matchingRows (data : CharData) (line : List Char) : List SignatureRegistryRow :=
  mvpSignatures.filter fun row => found data true row.pattern line

/-- The rows that match a line are all triggered if and only if the ones among them whose
patterns leave it open are. -/
theorem triggered_iff_hasTriggers {row : SignatureRegistryRow} (hrow : row ∈ mvpSignatures)
    (hfound : found data true row.pattern line = true) :
    (Triggered data line ∧ rowTriggered row.registryId (lower data line)
      (found data true RegistryPattern.nonfiniteTrigger (lower data line)) = true) ↔
      HasTriggers data line row := by
  constructor
  · rintro ⟨htriggered, hterms⟩
    refine ⟨fun _ => htriggered, fun hnan => ?_, fun _ => ⟨htriggered, hterms⟩⟩
    rwa [rowTriggered, if_pos hnan] at hterms
  · intro h
    by_cases hspecial : ∃ c ∈ line, isSpecial c = true
    · exact h.special hspecial
    · have hplain : ∀ c ∈ line, isSpecial c = false := fun c hc =>
        Bool.eq_false_iff.mpr fun hc' => hspecial ⟨c, hc, hc'⟩
      by_cases hnan : row.registryId = .nanOrInf
      · have hnonfinite := h.nonfinite hnan
        refine ⟨.inr hnonfinite, ?_⟩
        rwa [rowTriggered, if_pos hnan]
      · refine ⟨?_, ?_⟩
        · by_cases hungated : row.registryId ∈ ungatedRows
          · exact h.ungated hungated
          · exact .inl (containsAny_of_found (covers_registryTriggerTerms row hrow hnan hungated)
              hplain hfound)
        · rw [rowTriggered, if_neg hnan]
          exact containsAny_of_found (covers_rowTriggerTerms row hrow hnan) hplain hfound

/-- For a line that is no advice the two searches for terms come before the patterns. -/
theorem matchRegistry_of_not_advice (hkind : diagnosticContextKind data line = none) :
    matchRegistry data line false none =
      if Triggered data line then
        mvpSignatures.filter fun row => rowTriggered row.registryId (lower data line)
          (found data true RegistryPattern.nonfiniteTrigger (lower data line)) &&
            found data true row.pattern line
      else [] := by
  unfold matchRegistry
  simp only [Option.getD_none, hkind, Option.isSome_none, Bool.and_false, Bool.false_eq_true,
    if_false]
  by_cases htriggered : Triggered data line
  · rw [if_pos htriggered, if_neg]
    rw [Bool.and_eq_true, Bool.not_eq_true', Bool.not_eq_true']
    rintro ⟨hterms, hnonfinite⟩
    rcases htriggered with h | h
    · rw [hterms] at h
      cases h
    · rw [hnonfinite] at h
      cases h
  · rw [if_neg htriggered, if_pos]
    rw [Bool.and_eq_true, Bool.not_eq_true', Bool.not_eq_true']
    exact ⟨Bool.eq_false_iff.mpr fun h => htriggered (.inl h),
      Bool.eq_false_iff.mpr fun h => htriggered (.inr h)⟩

theorem mem_matchingRows {row : SignatureRegistryRow} : row ∈ matchingRows data line ↔
    row ∈ mvpSignatures ∧ found data true row.pattern line = true :=
  List.mem_filter

/-- `match_registry` gives the rows that match a line, or nothing for advice, if and only if
every row that matches has its triggers. -/
theorem matchRegistry_eq_iff (data : CharData) (line : List Char) :
    (matchRegistry data line false none =
        if (diagnosticContextKind data line).isSome then [] else matchingRows data line) ↔
      ((diagnosticContextKind data line).isSome = true ∨
        ∀ row ∈ matchingRows data line, HasTriggers data line row) := by
  cases hkind : diagnosticContextKind data line with
  | some kind =>
    have hnone : matchRegistry data line false none = [] := by
      unfold matchRegistry
      rw [hkind]
      dsimp only
      split <;> rfl
    rw [hnone]
    exact ⟨fun _ => .inl rfl, fun _ => rfl⟩
  | none =>
    rw [matchRegistry_of_not_advice hkind, Option.isSome_none, if_neg Bool.false_ne_true]
    by_cases htriggered : Triggered data line
    · rw [if_pos htriggered]
      constructor
      · intro h
        refine .inr fun row hmem => ?_
        obtain ⟨hrow, hfound⟩ := mem_matchingRows.mp hmem
        rw [← h, List.mem_filter, Bool.and_eq_true] at hmem
        exact (triggered_iff_hasTriggers hrow hfound).mp ⟨htriggered, hmem.2.1⟩
      · rintro (hadvice | h)
        · cases hadvice
        · refine List.filter_congr fun row hrow => ?_
          cases hfound : found data true row.pattern line with
          | false => rw [Bool.and_false]
          | true =>
            have htriggers := h row (mem_matchingRows.mpr ⟨hrow, hfound⟩)
            rw [((triggered_iff_hasTriggers hrow hfound).mpr htriggers).2, Bool.true_and]
    · rw [if_neg htriggered]
      constructor
      · intro h
        refine .inr fun row hmem => ?_
        rw [← h] at hmem
        cases hmem
      · rintro (hadvice | h)
        · cases hadvice
        · refine (List.eq_nil_iff_forall_not_mem.mpr fun row hmem => ?_).symm
          obtain ⟨hrow, hfound⟩ := mem_matchingRows.mp hmem
          exact htriggered ((triggered_iff_hasTriggers hrow hfound).mpr (h row hmem)).1

end Exact

/-- Characters beyond ASCII that are no letters and have no case. -/
def asciiData : CharData where
  isAlnum _ := false
  lower _ c _ := [c]

/-- A job that ran out of its wall time. -/
theorem matchRegistry_wallTime :
    matchRegistry asciiData "wall time exceeded".toList false none ≠
      if (diagnosticContextKind asciiData "wall time exceeded".toList).isSome then []
      else matchingRows asciiData "wall time exceeded".toList := by
  decide +kernel

end ResiliencyExt.Attribution.RestartAgent
