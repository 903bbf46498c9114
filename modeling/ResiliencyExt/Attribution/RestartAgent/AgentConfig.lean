import ResiliencyExt.Attribution.RestartAgent.AttemptRecords

set_option autoImplicit false

/-!
# Restart agent: the configuration

The parts of `parse_restart_agent_config` that decide about a restart: the retry
policy, the declared recovery capabilities with their budgets, and the history
limits of `_parse_runtime_config`.  What an accepted value satisfies is a field of
the type it is parsed into.  A limit on the records and a number of retries are
never compared with each other.

The model routes, the routing and the reading of the log are left out.
-/

namespace ResiliencyExt.Attribution.RestartAgent

open Foundation

/-- `TypeError` and `ValueError`. -/
inductive ConfigError where
  | type (message : String)
  | value (message : String)
deriving DecidableEq, Repr

/-- A field of the payload; `other` is a text, a fraction, a null or a container. -/
inductive Setting where
  | bool (value : Bool)
  | int (value : Int)
  | other
deriving DecidableEq, Repr

/-- A payload object. -/
abbrev Mapping := Dict String Setting

/-- The fields of an object that are not allowed, sorted and joined by commas. -/
def unsupportedFields (mapping : Mapping) (allowed : List String) : Option String :=
  let unknown := mapping.keys.filter fun field => field ∉ allowed
  if unknown = [] then none
  else some (", ".intercalate (unknown.insertionSort fun a b => a ≤ b))

/-- `mapping.get(field, default)`, an integer that is not a boolean. -/
def intField (owner : String) (mapping : Mapping) (field : String) (default : Nat) :
    Except ConfigError Int :=
  match mapping.get? field with
  | none => .ok default
  | some (.int value) => .ok value
  | some _ => .error (.type (owner ++ "." ++ field ++ " must be an integer"))

/-! ## History limits -/

structure HistoryConfig where
  enabled : Bool
  maxAttemptsPerJob : Nat
  maxTotalRecords : Nat
  attempts_pos : 1 ≤ maxAttemptsPerJob
  total_pos : 1 ≤ maxTotalRecords

/-- One of the two limits of `_parse_runtime_config`. -/
def parseLimit (history : Mapping) (field : String) (default : Nat) (hdefault : 1 ≤ default) :
    Except ConfigError { limit : Nat // 1 ≤ limit } :=
  match history.get? field with
  | none => .ok ⟨default, hdefault⟩
  | some (.int value) =>
    if h : value < 1 then
      .error (.value ("runtime.history." ++ field ++ " must be greater than zero"))
    else .ok ⟨value.toNat, by omega⟩
  | some _ => .error (.type ("runtime.history." ++ field ++ " must be an integer"))

/-- The history part of `_parse_runtime_config`. -/
def parseHistoryConfig (history : Mapping) : Except ConfigError HistoryConfig := do
  match unsupportedFields history ["enabled", "max_attempts_per_job", "max_total_records"] with
  | some fields =>
    throw (.value ("runtime.history has unsupported fields: " ++ fields))
  | none => pure ()
  let enabled ←
    match history.get? "enabled" with
    | none => pure true
    | some (.bool enabled) => pure enabled
    | some _ => throw (.type "runtime.history.enabled must be boolean")
  let attempts ← parseLimit history "max_attempts_per_job" 10 (by decide)
  let total ← parseLimit history "max_total_records" 3000 (by decide)
  return ⟨enabled, attempts.1, total.1, attempts.2, total.2⟩

/-! ## Retry policy -/

structure RetryPolicyConfig where
  confirmationRetryAllowedRetries : Nat
  boundedRetryAllowedRetries : Nat
  generalRetryAllowedRetries : Nat
  confirmation_le : confirmationRetryAllowedRetries ≤ generalRetryAllowedRetries
  bounded_le : boundedRetryAllowedRetries ≤ generalRetryAllowedRetries

/-- One of the three budgets of `normalize_retry_policy`. -/
def parseRetries (retryPolicy : Mapping) (field : String) (default : Nat) :
    Except ConfigError Nat := do
  let value ← intField "retry_policy" retryPolicy field default
  if value < 0 then
    throw (.value ("retry_policy." ++ field ++ " must not be negative"))
  return value.toNat

/-- The text of a budget that exceeds the general one. -/
def exceedsGeneral (field : String) : ConfigError :=
  .value ("retry_policy." ++ field ++
    " must not exceed retry_policy.general_retry_allowed_retries")

/-- `normalize_retry_policy` and `RetryPolicyConfig.from_mapping` -/
def normalizeRetryPolicy (retryPolicy : Mapping) : Except ConfigError RetryPolicyConfig := do
  match unsupportedFields retryPolicy ["confirmation_retry_allowed_retries",
      "bounded_retry_allowed_retries", "general_retry_allowed_retries"] with
  | some fields => throw (.value ("unknown retry_policy fields: " ++ fields))
  | none => pure ()
  let confirmation ← parseRetries retryPolicy "confirmation_retry_allowed_retries" 1
  let bounded ← parseRetries retryPolicy "bounded_retry_allowed_retries" 1
  let general ← parseRetries retryPolicy "general_retry_allowed_retries" 3
  if hconfirmation : confirmation ≤ general then
    if hbounded : bounded ≤ general then
      return ⟨confirmation, bounded, general, hconfirmation, hbounded⟩
    else throw (exceedsGeneral "bounded_retry_allowed_retries")
  else throw (exceedsGeneral "confirmation_retry_allowed_retries")

/-! ## Declared recovery capabilities -/

inductive RecoveryCapabilityId where
  | badTokenRetryThenSkip
deriving DecidableEq, Repr

inductive RecoveryBehavior where
  | none
  | retryThenSkip
deriving DecidableEq, Repr

inductive HistoryMatchScope where
  | rootOnly
  | rootAndEntity
deriving DecidableEq, Repr

structure DeclaredRecoveryCapability where
  capabilityId : RecoveryCapabilityId
  behavior : RecoveryBehavior
  appliesTo : List String
  requiredEntityKind : AffectedEntityKind
  historyMatchScope : HistoryMatchScope
  allowedRetries : Nat
  allowed_pos : 1 ≤ allowedRetries

/-- A declaration as the payload has it, with all its six fields. -/
structure CapabilityDeclaration where
  capabilityId : String
  behavior : String
  appliesTo : List String
  requiredEntityKind : String
  historyMatchScope : String
  allowedRetries : Setting
deriving DecidableEq, Repr

/-- `RecoveryCapabilityId(value)` -/
def RecoveryCapabilityId.ofValue : String → Option RecoveryCapabilityId
  | "bad_token_retry_then_skip" => some .badTokenRetryThenSkip
  | _ => none

/-- `RecoveryBehavior(value)` -/
def RecoveryBehavior.ofValue : String → Option RecoveryBehavior
  | "none" => some .none
  | "retry_then_skip" => some .retryThenSkip
  | _ => Option.none

/-- `AffectedEntityKind(value)` -/
def AffectedEntityKind.ofValue : String → Option AffectedEntityKind
  | "data_position" => some .dataPosition
  | "artifact" => some .artifact
  | _ => none

/-- `HistoryMatchScope(value)` -/
def HistoryMatchScope.ofValue : String → Option HistoryMatchScope
  | "root_only" => some .rootOnly
  | "root_and_entity" => some .rootAndEntity
  | _ => none

/-- `declared_recovery_capabilities[index]`, with what is wrong with it. -/
def capabilityError (index : Nat) (rest : String) : String :=
  "declared_recovery_capabilities[" ++ toString index ++ "]" ++ rest

/-- The closed values that `__post_init__` asks of the one capability there is. -/
def checkBadToken (capability : DeclaredRecoveryCapability) : Except ConfigError Unit :=
  if capability.behavior ≠ .retryThenSkip then
    .error (.value "bad_token_retry_then_skip behavior must be retry_then_skip")
  else if capability.appliesTo ≠ ["bad_token_or_window"] then
    .error (.value "bad_token_retry_then_skip applies_to must be ['bad_token_or_window']")
  else if capability.requiredEntityKind ≠ .dataPosition then
    .error (.value "bad_token_retry_then_skip required_entity_kind must be data_position")
  else if capability.historyMatchScope ≠ .rootAndEntity then
    .error (.value "bad_token_retry_then_skip history_match_scope must be root_and_entity")
  else .ok ()

/-- One round of `normalize_declared_recovery_capabilities`. -/
def parseCapability (index : Nat) (item : CapabilityDeclaration) :
    Except ConfigError DeclaredRecoveryCapability := do
  let some capabilityId := RecoveryCapabilityId.ofValue item.capabilityId
    | throw (.value (capabilityError index ".capability_id is unsupported"))
  let some behavior := RecoveryBehavior.ofValue item.behavior
    | throw (.value (capabilityError index ".behavior is unsupported"))
  let some requiredEntityKind := AffectedEntityKind.ofValue item.requiredEntityKind
    | throw (.value (capabilityError index ".required_entity_kind is unsupported"))
  let some historyMatchScope := HistoryMatchScope.ofValue item.historyMatchScope
    | throw (.value (capabilityError index ".history_match_scope is unsupported"))
  if item.appliesTo = [] then
    throw (.type (capabilityError index ".applies_to must be a non-empty array"))
  if item.appliesTo.any fun entry => entry.toList.all Char.isWhitespace then
    throw (.type (capabilityError index ".applies_to items must be non-empty strings"))
  let .int allowed := item.allowedRetries
    | throw (.type (capabilityError index ".allowed_retries must be an integer"))
  if h : allowed < 1 then
    throw (.value (capabilityError index ".allowed_retries must be greater than zero"))
  else
    let capability : DeclaredRecoveryCapability :=
      ⟨capabilityId, behavior, item.appliesTo, requiredEntityKind, historyMatchScope,
        allowed.toNat, by omega⟩
    checkBadToken capability
    return capability

/-- `normalize_declared_recovery_capabilities`, from `index` on. -/
def normalizeCapabilities (index : Nat) (seen : List RecoveryCapabilityId) :
    List CapabilityDeclaration → Except ConfigError (List DeclaredRecoveryCapability)
  | [] => .ok []
  | item :: items => do
    let capability ← parseCapability index item
    if capability.capabilityId ∈ seen then
      throw (.value
        "duplicate declared recovery capability: 'bad_token_retry_then_skip'")
    let rest ← normalizeCapabilities (index + 1) (capability.capabilityId :: seen) items
    return capability :: rest

/-! ## The configuration -/

/-- The parts of the payload. -/
structure ConfigPayload where
  retryPolicy : Mapping := Dict.empty
  declaredRecoveryCapabilities : List CapabilityDeclaration := []
  history : Mapping := Dict.empty

structure RestartAgentConfig where
  history : HistoryConfig
  retryPolicy : RetryPolicyConfig
  declaredRecoveryCapabilities : List DeclaredRecoveryCapability
  budgets : ∀ capability ∈ declaredRecoveryCapabilities,
    capability.allowedRetries ≤ retryPolicy.generalRetryAllowedRetries

/-- `parse_restart_agent_config`; the budgets are checked by
`validate_recovery_capability_budgets`. -/
def parseRestartAgentConfig (payload : ConfigPayload) :
    Except ConfigError RestartAgentConfig := do
  let retryPolicy ← normalizeRetryPolicy payload.retryPolicy
  let capabilities ← normalizeCapabilities 0 [] payload.declaredRecoveryCapabilities
  if h : ∀ capability ∈ capabilities,
      capability.allowedRetries ≤ retryPolicy.generalRetryAllowedRetries then
    let history ← parseHistoryConfig payload.history
    return ⟨history, retryPolicy, capabilities, h⟩
  else
    throw (.value ("declared recovery capability allowed_retries must not exceed " ++
      "retry_policy.general_retry_allowed_retries"))

end ResiliencyExt.Attribution.RestartAgent
