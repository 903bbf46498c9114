import ResiliencyExt.Attribution.RestartAgent.AgentConfig
import ResiliencyExt.Attribution.RestartAgent.History

set_option autoImplicit false

/-!
# Restart agent: retry rule and retry ledgers

`evaluate_policy` of `l4/policy.py`.  A rule is selected from the current failure;
the general ceiling counts the same-root streak against the general budget, and a
rule with a narrower budget of its own counts in its own scope.  Either ledger can
stop the restarts.

The payloads of the evaluation, which repeat its inputs, are left out.
-/

namespace ResiliencyExt.Attribution.RestartAgent

inductive Decision where
  | stop
  | restart
deriving DecidableEq, Repr

inductive DecisionBasis where
  | workloadUnrecoverable
  | retryBudgetExhausted
  | retryRecoveryAvailable
  | confirmationRetryAvailable
  | workloadManagedRecoveryAvailable
  | generalRetryAvailable
  | observedAdvance
  | noPrimaryFailure
deriving DecidableEq, Repr

inductive RetryPolicyRule where
  | workloadManagedRecovery
  | workloadUnrecoverable
  | confirmationRetry
  | boundedRetry
  | generalRetry
deriving DecidableEq, Repr

inductive FailureDomain where
  | workload
  | infrastructure
  | unknown
deriving DecidableEq, Repr

inductive RetryOutlook where
  | cannotRecover
  | mayRecover
  | unknown
deriving DecidableEq, Repr

inductive AssessmentStatus where
  | establishedByCurrentLog
  | supportedButUnconfirmed
  | hypothesisOnly
  | unknown
deriving DecidableEq, Repr

/-- `ModelRecoveryAssessment`: two values with how well they are established. -/
structure ModelRecoveryAssessment where
  failureDomain : FailureDomain
  failureDomainStatus : AssessmentStatus
  retryOutlook : RetryOutlook
  retryOutlookStatus : AssessmentStatus
deriving DecidableEq, Repr

/-- `dataPositionEntity` is the entity of the data position that the quote, the signature or
the fingerprint of the failure names. -/
structure FailureEvidence where
  failureClass : String
  registryId : Option String := none
  faultOutcome : Option FaultOutcome
  recoveryBehavior : RecoveryBehavior := .none
  failureIteration : Option Int := none
  affectedEntity : Option AffectedEntity := none
  dataPositionEntity : Option AffectedEntity := none
deriving DecidableEq, Repr

/-- `_affected_entity` of `l2/failure_facts.py` -/
def FailureEvidence.entity (primary : FailureEvidence) : Option AffectedEntity :=
  primary.affectedEntity.or primary.dataPositionEntity

structure L4PolicyInput where
  primary : Option FailureEvidence
  history : HistorySummary
  currentAffectedEntity : Option AffectedEntity := none
  modelRecoveryAssessment : Option ModelRecoveryAssessment := none
  assessmentGrounded : Bool := false
  retryPolicy : RetryPolicyConfig
  declaredRecoveryCapabilities : List DeclaredRecoveryCapability := []

inductive LedgerId where
  | generalRootCeiling
  | selectedRuleBudget
deriving DecidableEq, Repr

structure RetryLedgerEvaluation where
  ledgerId : LedgerId
  applicable : Bool
  rule : RetryPolicyRule
  historyMatchScope : HistoryMatchScope
  allowedRetries : Option Nat
  matchingPriorFailures : Nat := 0
  observedAdvance : Bool := false
  exhausted : Bool := false
  inapplicableReason : Option String := none
deriving DecidableEq, Repr

structure RetryPolicyEvaluation where
  rule : Option RetryPolicyRule
  decision : Decision
  decisionBasis : DecisionBasis
  retryBudgetExhausted : Bool
  exhaustedBy : List LedgerId
  generalRootCeiling : RetryLedgerEvaluation
  selectedRuleBudget : Option RetryLedgerEvaluation
deriving DecidableEq, Repr

/-! ## Rule -/

/-- `_current_evidence_qualifies_for_immediate_stop` -/
def currentEvidenceQualifies (primary : Option FailureEvidence)
    (assessment : Option ModelRecoveryAssessment) (assessmentGrounded : Bool) : Bool :=
  match assessment with
  | none => false
  | some assessment =>
    primary.isSome && assessmentGrounded && assessment.failureDomain = .workload &&
      assessment.failureDomainStatus = .establishedByCurrentLog &&
      assessment.retryOutlook = .cannotRecover &&
      assessment.retryOutlookStatus = .establishedByCurrentLog

/-- `_matching_recovery_capability` -/
def matchingRecoveryCapability (primary : Option FailureEvidence)
    (capabilities : List DeclaredRecoveryCapability) : Option DeclaredRecoveryCapability :=
  primary.bind fun primary => capabilities.find? fun capability =>
    primary.recoveryBehavior = capability.behavior &&
      capability.appliesTo.any fun classifier =>
        primary.registryId = some classifier || primary.failureClass = classifier

/-- `_capability_entity_matches` -/
def capabilityEntityMatches (capability : DeclaredRecoveryCapability)
    (affectedEntity : Option AffectedEntity) : Bool :=
  match affectedEntity with
  | none => false
  | some entity => entity.kind = capability.requiredEntityKind

/-- A grounded outlook of recovery without a change of the workload. -/
def mayRecover (assessment : Option ModelRecoveryAssessment) (assessmentGrounded : Bool) :
    Bool :=
  match assessment with
  | none => false
  | some assessment =>
    assessmentGrounded && assessment.retryOutlook = .mayRecover &&
      (assessment.retryOutlookStatus = .establishedByCurrentLog ||
        assessment.retryOutlookStatus = .supportedButUnconfirmed)

/-- `_select_rule` -/
def selectRule (input : L4PolicyInput)
    (matchingCapability appliedCapability : Option DeclaredRecoveryCapability) :
    Option RetryPolicyRule :=
  if input.primary.isNone then none
  else if appliedCapability.isSome then some .workloadManagedRecovery
  else if matchingCapability.isSome then some .generalRetry
  else if currentEvidenceQualifies input.primary input.modelRecoveryAssessment
      input.assessmentGrounded then
    some .workloadUnrecoverable
  else if input.currentAffectedEntity.isSome then some .confirmationRetry
  else if mayRecover input.modelRecoveryAssessment input.assessmentGrounded then
    some .boundedRetry
  else some .generalRetry

/-! ## Ledgers -/

/-- `_history_measurements` -/
def historyMeasurements (history : HistorySummary) : HistoryMatchScope → Nat × Bool
  | .rootAndEntity =>
    (history.consecutiveSameRootAndEntityNoAdvanceAttempts,
      history.advancedBeyondAllSameEntityComparableAttempts)
  | .rootOnly =>
    (history.consecutiveSameRootNoAdvanceAttempts, history.advancedBeyondAllComparableAttempts)

/-- `_inapplicable_ledger` -/
def inapplicableLedger (ledgerId : LedgerId) (rule : RetryPolicyRule) (scope : HistoryMatchScope)
    (reason : String) (allowedRetries : Option Nat) : RetryLedgerEvaluation :=
  { ledgerId := ledgerId
    applicable := false
    rule := rule
    historyMatchScope := scope
    allowedRetries := allowedRetries
    inapplicableReason := some reason }

/-- `_evaluate_ledger` -/
def evaluateLedger (ledgerId : LedgerId) (rule : RetryPolicyRule) (scope : HistoryMatchScope)
    (allowedRetries : Nat) (history : HistorySummary) : RetryLedgerEvaluation :=
  if !history.available then
    inapplicableLedger ledgerId rule scope "history_unavailable" (some allowedRetries)
  else
    let (matchingPriorFailures, observedAdvance) := historyMeasurements history scope
    { ledgerId := ledgerId
      applicable := true
      rule := rule
      historyMatchScope := scope
      allowedRetries := some allowedRetries
      matchingPriorFailures := matchingPriorFailures
      observedAdvance := observedAdvance
      exhausted := !observedAdvance && allowedRetries ≤ matchingPriorFailures }

/-- `_general_root_ceiling` -/
def generalRootCeiling (primary : Option FailureEvidence) (rule : Option RetryPolicyRule)
    (history : HistorySummary) (allowedRetries : Nat) : RetryLedgerEvaluation :=
  if primary.isNone then
    inapplicableLedger .generalRootCeiling .generalRetry .rootOnly "missing_primary" none
  else if rule = some .workloadUnrecoverable then
    inapplicableLedger .generalRootCeiling .generalRetry .rootOnly "immediate_unrecoverable" none
  else evaluateLedger .generalRootCeiling .generalRetry .rootOnly allowedRetries history

/-- `_selected_rule_budget` -/
def selectedRuleBudget (rule : Option RetryPolicyRule)
    (appliedCapability : Option DeclaredRecoveryCapability) (history : HistorySummary)
    (retryPolicy : RetryPolicyConfig) : Option RetryLedgerEvaluation :=
  let narrower := fun rule scope allowedRetries =>
    if retryPolicy.generalRetryAllowedRetries ≤ allowedRetries then none
    else some (evaluateLedger .selectedRuleBudget rule scope allowedRetries history)
  match rule, appliedCapability with
  | some .workloadManagedRecovery, some capability =>
    narrower .workloadManagedRecovery capability.historyMatchScope capability.allowedRetries
  | some .confirmationRetry, _ =>
    narrower .confirmationRetry .rootAndEntity retryPolicy.confirmationRetryAllowedRetries
  | some .boundedRetry, _ =>
    narrower .boundedRetry .rootOnly retryPolicy.boundedRetryAllowedRetries
  | _, _ => none

/-! ## Decision -/

/-- `_decision` -/
def decision (primary : Option FailureEvidence) (rule : Option RetryPolicyRule)
    (retryBudgetExhausted observedAdvance : Bool) : Decision × DecisionBasis :=
  if primary.isNone then (.restart, .noPrimaryFailure)
  else if rule = some .workloadUnrecoverable then (.stop, .workloadUnrecoverable)
  else if retryBudgetExhausted then (.stop, .retryBudgetExhausted)
  else if observedAdvance then (.restart, .observedAdvance)
  else if rule = some .workloadManagedRecovery then
    (.restart, .workloadManagedRecoveryAvailable)
  else if rule = some .boundedRetry then (.restart, .retryRecoveryAvailable)
  else if rule = some .confirmationRetry then (.restart, .confirmationRetryAvailable)
  else (.restart, .generalRetryAvailable)

/-- `evaluate_policy` -/
def evaluatePolicy (input : L4PolicyInput) : RetryPolicyEvaluation :=
  let matchingCapability :=
    matchingRecoveryCapability input.primary input.declaredRecoveryCapabilities
  let appliedCapability := matchingCapability.filter fun capability =>
    capabilityEntityMatches capability input.currentAffectedEntity
  let rule := selectRule input matchingCapability appliedCapability
  let general := generalRootCeiling input.primary rule input.history
    input.retryPolicy.generalRetryAllowedRetries
  let selected := selectedRuleBudget rule appliedCapability input.history input.retryPolicy
  let ledgers := general :: selected.toList
  let exhaustedBy := (ledgers.filter RetryLedgerEvaluation.exhausted).map
    RetryLedgerEvaluation.ledgerId
  let observedAdvance := ledgers.any fun ledger => ledger.applicable && ledger.observedAdvance
  let outcome := decision input.primary rule (!exhaustedBy.isEmpty) observedAdvance
  { rule := rule
    decision := outcome.1
    decisionBasis := outcome.2
    retryBudgetExhausted := !exhaustedBy.isEmpty
    exhaustedBy := exhaustedBy
    generalRootCeiling := general
    selectedRuleBudget := selected }

/-! ## What the ledgers decide -/

variable {input : L4PolicyInput}

variable {rule : Option RetryPolicyRule} {primary : FailureEvidence}

theorem ledgerId_evaluateLedger (ledgerId : LedgerId) (rule : RetryPolicyRule)
    (scope : HistoryMatchScope) (allowedRetries : Nat) (history : HistorySummary) :
    (evaluateLedger ledgerId rule scope allowedRetries history).ledgerId = ledgerId := by
  unfold evaluateLedger
  split
  · rfl
  · rfl

theorem ledgerId_selectedRuleBudget {appliedCapability : Option DeclaredRecoveryCapability}
    {history : HistorySummary} {retryPolicy : RetryPolicyConfig} {ledger : RetryLedgerEvaluation}
    (h : selectedRuleBudget rule appliedCapability history retryPolicy = some ledger) :
    ledger.ledgerId = .selectedRuleBudget := by
  have hnarrower : ∀ rule scope allowedRetries,
      (if retryPolicy.generalRetryAllowedRetries ≤ allowedRetries then none
        else some (evaluateLedger .selectedRuleBudget rule scope allowedRetries history)) =
          some ledger → ledger.ledgerId = .selectedRuleBudget := by
    intro rule scope allowedRetries hsome
    split at hsome
    · cases hsome
    · cases hsome
      exact ledgerId_evaluateLedger _ _ _ _ _
  unfold selectedRuleBudget at h
  split at h
  · exact hnarrower _ _ _ h
  · exact hnarrower _ _ _ h
  · exact hnarrower _ _ _ h
  · cases h

/-- Any exhausted ledger stops the restarts. -/
theorem decision_of_exhausted (observedAdvance : Bool) :
    (decision (some primary) rule true observedAdvance).1 = .stop := by
  unfold decision
  simp only [Option.isNone_some, Bool.false_eq_true, if_false, if_true]
  split
  · rfl
  · rfl

/-- Without a model assessment only an exhausted ledger stops the restarts. -/
theorem decision_of_not_exhausted {primary : Option FailureEvidence} (observedAdvance : Bool)
    (hrule : rule ≠ some .workloadUnrecoverable) :
    (decision primary rule false observedAdvance).1 = .restart := by
  unfold decision
  rw [if_neg hrule]
  simp only [Bool.false_eq_true, if_false]
  repeat' split
  all_goals rfl

theorem selectRule_ne_unrecoverable (h : input.modelRecoveryAssessment = none)
    (matchingCapability appliedCapability : Option DeclaredRecoveryCapability) :
    selectRule input matchingCapability appliedCapability ≠ some .workloadUnrecoverable := by
  unfold selectRule
  simp only [h, currentEvidenceQualifies, mayRecover, Bool.false_eq_true, if_false]
  repeat' split
  all_goals simp

theorem evaluatePolicy_stop (hprimary : input.primary = some primary)
    (h : (evaluatePolicy input).generalRootCeiling.exhausted = true) :
    (evaluatePolicy input).decision = .stop := by
  simp only [evaluatePolicy] at h ⊢
  rw [List.filter_cons_of_pos h, hprimary]
  exact decision_of_exhausted _

/-- As long as the general ceiling is not exhausted only the narrower budget stops a restart that
no model assessment speaks about. -/
theorem evaluatePolicy_restart_or (hassessment : input.modelRecoveryAssessment = none)
    (h : (evaluatePolicy input).generalRootCeiling.exhausted = false) :
    (evaluatePolicy input).decision = .restart ∨
      (evaluatePolicy input).exhaustedBy = [.selectedRuleBudget] := by
  simp only [evaluatePolicy] at h ⊢
  rw [List.filter_cons_of_neg (by simp [h])]
  have hrule := selectRule_ne_unrecoverable hassessment
    (matchingRecoveryCapability input.primary input.declaredRecoveryCapabilities)
    ((matchingRecoveryCapability input.primary input.declaredRecoveryCapabilities).filter
      fun capability => capabilityEntityMatches capability input.currentAffectedEntity)
  cases hselected : selectedRuleBudget _ _ input.history input.retryPolicy with
  | none => exact .inl (decision_of_not_exhausted _ hrule)
  | some ledger =>
    cases hexhausted : ledger.exhausted with
    | false =>
      refine .inl ?_
      simp only [Option.toList_some, List.filter_cons, hexhausted, Bool.false_eq_true, if_false,
        List.filter_nil, List.map_nil, List.isEmpty_nil, Bool.not_true]
      exact decision_of_not_exhausted _ hrule
    | true =>
      refine .inr ?_
      simp only [Option.toList_some, List.filter_cons, hexhausted, if_true, List.filter_nil,
        List.map_cons, List.map_nil, ledgerId_selectedRuleBudget hselected]

/-- The general ceiling counts the streak of the same root, as long as no advance is seen. -/
theorem generalRootCeiling_exhausted (hprimary : input.primary = some primary)
    (hassessment : input.modelRecoveryAssessment = none)
    (havailable : input.history.available = true)
    (hadvance : input.history.advancedBeyondAllComparableAttempts = false) :
    (evaluatePolicy input).generalRootCeiling.exhausted =
      decide (input.retryPolicy.generalRetryAllowedRetries ≤
        input.history.consecutiveSameRootNoAdvanceAttempts) := by
  have hrule := selectRule_ne_unrecoverable hassessment
    (matchingRecoveryCapability input.primary input.declaredRecoveryCapabilities)
    ((matchingRecoveryCapability input.primary input.declaredRecoveryCapabilities).filter
      fun capability => capabilityEntityMatches capability input.currentAffectedEntity)
  simp only [evaluatePolicy, generalRootCeiling, if_neg hrule, evaluateLedger, havailable,
    historyMeasurements, hadvance]
  simp [hprimary]

end ResiliencyExt.Attribution.RestartAgent
