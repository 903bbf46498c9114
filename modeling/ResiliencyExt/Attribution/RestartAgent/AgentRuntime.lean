import ResiliencyExt.Attribution.RestartAgent.RetryPolicy
import ResiliencyExt.Foundation.System

set_option autoImplicit false

/-!
# Restart agent: invocations of the runtime

`RestartAgentRuntime` of `agent_runtime.py` over one store.  An invocation takes its
view of the earlier attempts when it begins (`_begin`).  Once the log is read its
record is published (`_publish_initial`) and it is answered from the view it took;
later the facts of a model route may be added to the record (`_publish_enriched`).
Invocations of any jobs interleave; the key guard admits one at a time for a job
and cycle id.

An answer keeps the insertion number its record got, which no step reads.
-/

namespace ResiliencyExt.Attribution.RestartAgent

open Foundation

/-- What one log says about the attempt: the progress, the deterministic primary failure and
the canonical identity of its root. -/
structure Attempt where
  jobId : String
  cycleId : Int
  progress : AttemptProgressSummary := {}
  primary : Option FailureEvidence
  rootFingerprint : Option String
  rootFingerprintSource : Option String
deriving DecidableEq, Repr

namespace Attempt

def key (attempt : Attempt) : RecordKey :=
  (attempt.jobId, attempt.cycleId)

/-- `build_attempt_failure_facts` of the deterministic source. -/
def facts (attempt : Attempt) : AttemptFailureFacts where
  rootFingerprint := attempt.rootFingerprint
  rootFingerprintSource := attempt.rootFingerprintSource
  faultOutcome := attempt.primary.bind FailureEvidence.faultOutcome
  failureIteration := attempt.primary.bind FailureEvidence.failureIteration
  affectedEntity := attempt.primary.bind FailureEvidence.entity

/-- `initial_record` -/
def initialRecord (attempt : Attempt) : AttemptRecord where
  jobId := attempt.jobId
  cycleId := attempt.cycleId
  progress := attempt.progress
  deterministic := attempt.facts

end Attempt

/-- What `build_decision_outcome` hands to the policy without model evidence: the failure of the
attempt and its history against the view of earlier ones. -/
def deterministicInput (config : RestartAgentConfig) (attempt : Attempt)
    (priorView : PriorAttemptView) : L4PolicyInput where
  primary := attempt.primary
  history := evaluateHistory attempt.initialRecord deterministicFactSelector priorView
  currentAffectedEntity := attempt.facts.affectedEntity
  retryPolicy := config.retryPolicy
  declaredRecoveryCapabilities := config.declaredRecoveryCapabilities

def deterministicOutcome (config : RestartAgentConfig) (attempt : Attempt)
    (priorView : PriorAttemptView) : RetryPolicyEvaluation :=
  evaluatePolicy (deterministicInput config attempt priorView)

/-- An answered invocation. -/
structure Answer where
  attempt : Attempt
  number : Nat
  evaluation : RetryPolicyEvaluation

/-- `records` has the record of the last stored invocation of a key, as it stands. -/
structure RuntimeState where
  store : AttemptRecordStore
  begun : List (Attempt × PriorAttemptView) := []
  records : Dict RecordKey AttemptRecord := Dict.empty
  answered : List Answer := []

inductive RuntimeAction where
  | begin (attempt : Attempt)
  | publish (key : RecordKey)
  | enrich (key : RecordKey) (routeId : String) (facts : AttemptFailureFacts)

variable (config : RestartAgentConfig)

/-- `_prior_attempts` -/
def priorAttempts (store : AttemptRecordStore) (attempt : Attempt) : PriorAttemptView :=
  if config.history.enabled then store.getPriorAttempts attempt.jobId attempt.cycleId else {}

namespace RuntimeState

variable (s : RuntimeState)

/-- The invocation is over and answered from its view. -/
def answer (attempt : Attempt) (priorView : PriorAttemptView) : RuntimeState :=
  { s with
    begun := s.begun.filter fun invocation => invocation.1.key ≠ attempt.key
    answered := s.answered ++
      [⟨attempt, s.store.nextSequence, deterministicOutcome config attempt priorView⟩] }

/-- `_publish_initial`, and the answer.  A record that cannot be stored ends the invocation
with an exception. -/
def publish (attempt : Attempt) (priorView : PriorAttemptView) : RuntimeState :=
  if !config.history.enabled || !truthy attempt.rootFingerprint then
    s.answer config attempt priorView
  else
    match s.store.upsertAttempt attempt.initialRecord with
    | .error _ =>
      { s with begun := s.begun.filter fun invocation => invocation.1.key ≠ attempt.key }
    | .ok store =>
      { s.answer config attempt priorView with
        store := store
        records := s.records.set attempt.key attempt.initialRecord }

/-- `_publish_enriched` -/
def enrich (record : AttemptRecord) (routeId : String) (facts : AttemptFailureFacts) :
    RuntimeState :=
  match s.store.upsertAttempt (record.withEnriched routeId facts) with
  | .error _ => s
  | .ok store =>
    { s with
      store := store
      records := s.records.set record.key (record.withEnriched routeId facts) }

end RuntimeState

/-- The runtime of a configuration. -/
def runtime : System RuntimeState RuntimeAction where
  init s := s =
    { store :=
        { maxAttemptsPerJob := config.history.maxAttemptsPerJob
          maxTotalRecords := config.history.maxTotalRecords } }
  step s
    | .begin attempt =>
      if s.begun.any fun invocation => invocation.1.key = attempt.key then none
      else some { s with begun := s.begun ++ [(attempt, priorAttempts config s.store attempt)] }
    | .publish key =>
      (s.begun.find? fun invocation => invocation.1.key = key).map fun invocation =>
        s.publish config invocation.1 invocation.2
    | .enrich key routeId facts =>
      (s.records.get? key).map fun record => s.enrich record routeId facts

/-- The answers to the attempts of a job, oldest first. -/
def RuntimeState.jobAnswers (s : RuntimeState) (jobId : String) : List Answer :=
  s.answered.filter fun answer => answer.attempt.jobId = jobId

/-- What the runtime answered to the attempts of a job. -/
def RuntimeState.decisions (s : RuntimeState) (jobId : String) : List Decision :=
  (s.jobAnswers jobId).map fun answer => answer.evaluation.decision

end ResiliencyExt.Attribution.RestartAgent
