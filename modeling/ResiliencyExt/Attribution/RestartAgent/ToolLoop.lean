import Mathlib.Data.List.Basic

set_option autoImplicit false

/-!
# Restart agent: the conversation with the model

`l1/openai_compatible.py`.  A conversation has a bounded number of turns, each of them a
request that is tried again when it fails (`RetryingChatTransport.call`), the tools the model
asks for (`_dispatch_tools`), and one turn for a last answer without tools
(`ContractRepairExecutor.run`).  Every attempt can end in a failure with a record, an
`LlmCallError`; anything else that is raised goes through to `extract_evidence`, which answers
with a result that has no records.

Times are counts of the clock's smallest step.  What the provider answers, what the tools answer
and what the clock shows are sequences that a run reads one after another.
-/

namespace ResiliencyExt.Attribution.RestartAgent.ToolLoop

/-! ## Records and messages -/

/-- `deadline_reason` -/
inductive DeadlineReason where
  | beforeModelRequest
  | beforeRetryBackoff
  | beforeHttpRequest
  | afterHttpResponse
  | beforeToolCall
  | afterToolCall
  | beforeFinalEvidenceCall
  deriving DecidableEq, Repr

/-- A call record.  The last two fields are marks that the retry loop puts on a failure. -/
structure CallRecord where
  modelTurn : Nat
  attempt : Nat
  success : Bool
  finishReason : Option String
  errorType : Option String
  httpStatus : Option Nat
  retryable : Bool
  timeout : Bool
  deadlineReason : Option DeadlineReason
  retryScheduled : Bool
  retryBlockedByDeadline : Bool
  deriving DecidableEq, Repr

/-- `_deadline_call_error` -/
def deadlineRecord (modelTurn attempt : Nat) (reason : DeadlineReason) : CallRecord where
  modelTurn := modelTurn
  attempt := attempt
  success := false
  finishReason := none
  errorType := some "analysis_deadline_exceeded"
  httpStatus := none
  retryable := false
  timeout := true
  deadlineReason := some reason
  retryScheduled := false
  retryBlockedByDeadline := false

/-- What the transport classifies a failed attempt as. -/
structure Failure where
  errorType : String
  httpStatus : Option Nat
  retryable : Bool
  timeout : Bool
  deriving DecidableEq, Repr

/-- `_failure_record` -/
def Failure.record (failure : Failure) (modelTurn attempt : Nat) : CallRecord where
  modelTurn := modelTurn
  attempt := attempt
  success := false
  finishReason := none
  errorType := some failure.errorType
  httpStatus := failure.httpStatus
  retryable := failure.retryable
  timeout := failure.timeout
  deadlineReason := none
  retryScheduled := false
  retryBlockedByDeadline := false

/-- `_call_record` of an attempt that succeeded. -/
def successRecord (modelTurn attempt : Nat) (finishReason : Option String) : CallRecord where
  modelTurn := modelTurn
  attempt := attempt
  success := true
  finishReason := finishReason
  errorType := none
  httpStatus := none
  retryable := false
  timeout := false
  deadlineReason := none
  retryScheduled := false
  retryBlockedByDeadline := false

/-- A tool call of a message; `readable` says whether `_tool_args` makes something of its
arguments. -/
structure ToolCall where
  id : Option String
  name : Option String
  arguments : String
  readable : Bool
  deriving DecidableEq, Repr

section Conversation

variable (Content ToolResult Evidence : Type)

/-- A message of a response.  Its tool calls are `none` when `_message_tool_calls` raises. -/
structure ResponseMessage where
  content : Content
  toolCalls : Option (List ToolCall)

structure Response where
  finishReason : Option String
  message : ResponseMessage Content

/-- What one attempt comes to. -/
inductive ProviderOutcome where
  /-- An `LlmCallError` of the transport. -/
  | failure (failure : Failure)
  /-- Another exception of the request or of `response.json()`. -/
  | raised
  /-- The payload; `none` stands for one that the choice cannot be read from. -/
  | payload (response : Option (Response Content))

/-- A message of the conversation. -/
inductive ChatMessage where
  | system
  | user (previousError : Option String)
  | assistant (content : Content) (toolCalls : List ToolCall)
  | tool (toolCallId name : Option String) (content : ToolResult)

/-- What `_parse_model_evidence` finds in a text before it looks at the contract. -/
inductive Decoded where
  | evidence (evidence : Evidence)
  | valueError (message : String)
  | raised (message : String)

/-- `L1EvidenceResult` -/
structure L1EvidenceResult where
  evidence : Option Evidence
  rawModelOutput : Option Content
  success : Bool
  malformed : Bool
  modelCalls : List CallRecord
  toolCalls : List (Option String × Option String)
  unsupportedToolRequests : List String
  providerError : Bool

end Conversation

section Loop

variable {Content ToolResult Evidence : Type}

/-- What a run reads. -/
structure Env (Content ToolResult : Type) where
  clock : Nat → Int
  provider : Nat → ProviderOutcome Content
  tools : Nat → ToolResult

/-- A request that was sent: its messages, and the readings of the clock before it. -/
structure Request (Content ToolResult : Type) where
  messages : List (ChatMessage Content ToolResult)
  reads : Nat

/-- How far a run has read, the requests it has sent and the attempts that have failed. -/
structure World (Content ToolResult : Type) where
  reads : Nat
  posts : Nat
  toolRuns : Nat
  requests : List (Request Content ToolResult)
  failures : List CallRecord

def World.start : World Content ToolResult :=
  ⟨0, 0, 0, [], []⟩

/-- `LlmConfig`, as far as the conversation depends on it. -/
structure LlmConfig where
  maxToolRounds : Int
  maxRetries : Int
  retryBackoff : Int
  advertisedTools : List String

/-- `_ToolConversation` -/
structure ToolConversation (Content ToolResult : Type) where
  messages : List (ChatMessage Content ToolResult)
  modelCalls : List CallRecord
  toolCalls : List (Option String × Option String)
  unsupportedToolRequests : List String
  rawOutput : Option Content

variable (env : Env Content ToolResult) (deadline : Option Int)

/-! ## The clock -/

/-- `clock.monotonic()` -/
def World.read (world : World Content ToolResult) : World Content ToolResult :=
  { world with reads := world.reads + 1 }

/-- `_remaining_deadline_seconds` -/
def remainingDeadline (world : World Content ToolResult) :
    Option Int × World Content ToolResult :=
  match deadline with
  | none => (none, world)
  | some deadline => (some (max 0 (deadline - env.clock world.reads)), world.read)

/-- `_deadline_expired` -/
def deadlineExpired (world : World Content ToolResult) : Bool × World Content ToolResult :=
  let remaining := remainingDeadline env deadline world
  (remaining.1.any (· ≤ 0), remaining.2)

/-! ## One attempt -/

/-- What `OpenAICompatibleTransport.call` returns or raises. -/
inductive CallOutcome (Content : Type) where
  | returned (response : Response Content) (record : CallRecord)
  | callError (record : CallRecord)
  | raised

/-- An attempt fails with a record. -/
def World.fail (world : World Content ToolResult) (record : CallRecord) :
    CallOutcome Content × World Content ToolResult :=
  (.callError record, { world with failures := world.failures ++ [record] })

/-- `self._http_client.post` -/
def World.post (world : World Content ToolResult)
    (messages : List (ChatMessage Content ToolResult)) : World Content ToolResult :=
  { world with
    posts := world.posts + 1
    requests := world.requests ++ [⟨messages, world.reads⟩] }

/-- `OpenAICompatibleTransport.call` -/
def transportCall (messages : List (ChatMessage Content ToolResult)) (modelTurn attempt : Nat)
    (world : World Content ToolResult) : CallOutcome Content × World Content ToolResult :=
  let remaining := remainingDeadline env deadline world.read
  if remaining.1.any (· ≤ 0) then
    remaining.2.fail (deadlineRecord modelTurn attempt .beforeHttpRequest)
  else
    let posted := remaining.2.post messages
    match env.provider remaining.2.posts with
    | .failure failure => posted.read.fail (failure.record modelTurn attempt)
    | .raised => (.raised, posted)
    | .payload response =>
      let expired := deadlineExpired env deadline posted
      if expired.1 then
        expired.2.read.fail (deadlineRecord modelTurn attempt .afterHttpResponse)
      else
        match response with
        | none => (.raised, expired.2)
        | some response =>
          (.returned response (successRecord modelTurn attempt response.finishReason),
            expired.2.read)

/-! ## Attempts -/

/-- What `RetryingChatTransport.call` returns or raises, with the records before the last. -/
inductive RetryOutcome (Content : Type) where
  | returned (response : Response Content) (record : CallRecord) (prior : List CallRecord)
  | callError (record : CallRecord) (prior : List CallRecord)
  | raised

/-- One attempt; the event of the request reads the clock before it. -/
def attemptCall (messages : List (ChatMessage Content ToolResult)) (modelTurn attempt : Nat)
    (world : World Content ToolResult) : CallOutcome Content × World Content ToolResult :=
  transportCall env deadline messages modelTurn attempt (remainingDeadline env deadline world).2

/-- The loop of `RetryingChatTransport.call` with `left + 1` attempts to go. -/
def retryLoop (config : LlmConfig) (messages : List (ChatMessage Content ToolResult))
    (modelTurn : Nat) : Nat → Nat → List CallRecord → World Content ToolResult →
      RetryOutcome Content × World Content ToolResult
  | left, attempt, prior, world =>
    let expired := deadlineExpired env deadline world
    if expired.1 then
      (.callError (deadlineRecord modelTurn attempt .beforeModelRequest) prior, expired.2)
    else
      match attemptCall env deadline messages modelTurn attempt expired.2 with
      | (.returned response record, world) => (.returned response record prior, world)
      | (.raised, world) => (.raised, world)
      | (.callError record, world) =>
        match left with
        | 0 => (.callError record prior, world)
        | left + 1 =>
          if record.retryable then
            let backoff := max 0 config.retryBackoff
            let remaining := remainingDeadline env deadline world
            if remaining.1.any (· ≤ backoff) then
              (.callError (deadlineRecord modelTurn attempt .beforeRetryBackoff)
                (prior ++ [{ record with retryBlockedByDeadline := true }]), remaining.2)
            else
              retryLoop config messages modelTurn left (attempt + 1)
                (prior ++ [{ record with retryScheduled := true }]) remaining.2
          else (.callError record prior, world)

/-- `RetryingChatTransport.call` -/
def retryingCall (config : LlmConfig) (messages : List (ChatMessage Content ToolResult))
    (modelTurn : Nat) (world : World Content ToolResult) :
    RetryOutcome Content × World Content ToolResult :=
  retryLoop env deadline config messages modelTurn (max 0 config.maxRetries).toNat 1 [] world

/-! ## The conversation -/

/-- `_call_model_with_retries`: the records before the last go to the conversation, when there
is a record at all. -/
def callModelWithRetries (config : LlmConfig)
    (state : ToolConversation Content ToolResult) (modelTurn : Nat)
    (world : World Content ToolResult) :
    CallOutcome Content × ToolConversation Content ToolResult × World Content ToolResult :=
  match retryingCall env deadline config state.messages modelTurn world with
  | (.returned response record prior, world) =>
    (.returned response record, { state with modelCalls := state.modelCalls ++ prior }, world)
  | (.callError record prior, world) =>
    (.callError record, { state with modelCalls := state.modelCalls ++ prior }, world)
  | (.raised, world) => (.raised, state, world)

/-- `_provider_failure_result` -/
def providerFailureResult (state : ToolConversation Content ToolResult) (record : CallRecord) :
    L1EvidenceResult Content Evidence where
  evidence := none
  rawModelOutput := state.rawOutput
  success := false
  malformed := false
  modelCalls := state.modelCalls ++ [record]
  toolCalls := state.toolCalls
  unsupportedToolRequests := state.unsupportedToolRequests
  providerError := true

/-- `_deadline_failure_result` -/
def deadlineFailureResult (state : ToolConversation Content ToolResult) (modelTurn : Nat)
    (reason : DeadlineReason) : L1EvidenceResult Content Evidence :=
  providerFailureResult state (deadlineRecord modelTurn 1 reason)

/-- `_successful_evidence_result` -/
def successfulEvidenceResult (state : ToolConversation Content ToolResult) (evidence : Evidence) :
    L1EvidenceResult Content Evidence where
  evidence := some evidence
  rawModelOutput := state.rawOutput
  success := true
  malformed := false
  modelCalls := state.modelCalls
  toolCalls := state.toolCalls
  unsupportedToolRequests := state.unsupportedToolRequests
  providerError := false

/-- `_malformed_evidence_result` -/
def malformedEvidenceResult (state : ToolConversation Content ToolResult) :
    L1EvidenceResult Content Evidence where
  evidence := none
  rawModelOutput := state.rawOutput
  success := false
  malformed := true
  modelCalls := state.modelCalls
  toolCalls := state.toolCalls
  unsupportedToolRequests := state.unsupportedToolRequests
  providerError := false

/-- The result of `extract_evidence` for what is raised in the conversation. -/
def providerErrorResult : L1EvidenceResult Content Evidence where
  evidence := none
  rawModelOutput := none
  success := false
  malformed := false
  modelCalls := []
  toolCalls := []
  unsupportedToolRequests := []
  providerError := true

/-- How the part of a conversation ends: with a value, with a result, or with an exception. -/
inductive Part (Content Evidence α : Type) where
  | value (value : α)
  | result (result : L1EvidenceResult Content Evidence)
  | raised

/-- `_request_model`: the response's message, its tool calls and its call record. -/
def requestModel (config : LlmConfig) (modelTurn : Nat)
    (state : ToolConversation Content ToolResult) (world : World Content ToolResult) :
    Part Content Evidence (ResponseMessage Content × List ToolCall × CallRecord) ×
      ToolConversation Content ToolResult × World Content ToolResult :=
  match callModelWithRetries env deadline config state modelTurn world with
  | (.callError record, state, world) =>
    (.result (providerFailureResult state record), state, world)
  | (.raised, state, world) => (.raised, state, world)
  | (.returned response record, state, world) =>
    let state := { state with
      modelCalls := state.modelCalls ++ [record]
      rawOutput := some response.message.content }
    match response.message.toolCalls with
    | none => (.raised, state, world)
    | some toolCalls => (.value (response.message, toolCalls, record), state, world)

/-- `_execute_tool_call`, without what a result is: the reason why a tool is not run. -/
def unsupportedRequest (config : LlmConfig) (call : ToolCall) : List String :=
  if call.name.getD "" ∈ config.advertisedTools then [] else [call.name.getD ""]

/-- One tool call: its record and its message. -/
def answerToolCall (config : LlmConfig) (call : ToolCall)
    (state : ToolConversation Content ToolResult) (world : World Content ToolResult) :
    ToolConversation Content ToolResult × World Content ToolResult :=
  ({ state with
      toolCalls := state.toolCalls ++ [(call.id, call.name)]
      unsupportedToolRequests :=
        state.unsupportedToolRequests ++ unsupportedRequest config call
      messages := state.messages ++ [.tool call.id call.name (env.tools world.toolRuns)] },
    { world.read.read with toolRuns := world.toolRuns + 1 })

/-- The loop of `_dispatch_tools`. -/
def dispatchLoop (config : LlmConfig) (modelTurn : Nat) : List ToolCall →
    ToolConversation Content ToolResult → World Content ToolResult →
      Part Content Evidence Unit × ToolConversation Content ToolResult × World Content ToolResult
  | [], state, world => (.value (), state, world)
  | call :: calls, state, world =>
    let before := deadlineExpired env deadline world
    if before.1 then
      (.result (deadlineFailureResult state modelTurn .beforeToolCall), state, before.2)
    else if call.readable then
      let answered := answerToolCall env config call state before.2
      let after := deadlineExpired env deadline answered.2
      if after.1 then
        (.result (deadlineFailureResult answered.1 modelTurn .afterToolCall), answered.1, after.2)
      else dispatchLoop config modelTurn calls answered.1 after.2
    else (.raised, state, before.2.read)

/-- `_dispatch_tools` -/
def dispatchTools (config : LlmConfig) (modelTurn : Nat) (message : ResponseMessage Content)
    (calls : List ToolCall) (state : ToolConversation Content ToolResult)
    (world : World Content ToolResult) :
    Part Content Evidence Unit × ToolConversation Content ToolResult × World Content ToolResult :=
  dispatchLoop env deadline config modelTurn calls
    { state with messages := state.messages ++ [.assistant message.content calls] } world

variable (decode : Content → Decoded Evidence) (contractErrors : Evidence → List String)

/-- `_parse_model_evidence`: the evidence, a `ValueError`, or another exception. -/
def parseModelEvidence (content : Content) : Decoded Evidence :=
  match decode content with
  | .evidence evidence =>
    if contractErrors evidence = [] then .evidence evidence
    else .valueError ("model evidence contract failed: " ++
      "; ".intercalate (contractErrors evidence))
  | other => other

/-- The assistant's answer goes to the conversation when it cannot be used. -/
def ToolConversation.reject (state : ToolConversation Content ToolResult) (content : Content) :
    ToolConversation Content ToolResult :=
  { state with messages := state.messages ++ [.assistant content []] }

/-- The loop of `ToolRoundExecutor.run` with a number of turns to go; its value is the error
that the repair turn tells the model. -/
def toolRounds (config : LlmConfig) : Nat → Nat → ToolConversation Content ToolResult →
    World Content ToolResult → Part Content Evidence (Option String) ×
      ToolConversation Content ToolResult × World Content ToolResult
  | 0, _, state, world => (.value none, state, world)
  | turns + 1, modelTurn, state, world =>
    match requestModel env deadline config modelTurn state world with
    | (.result result, state, world) => (.result result, state, world)
    | (.raised, state, world) => (.raised, state, world)
    | (.value (message, [], record), state, world) =>
      if record.finishReason = some "length" then
        (.value (some "model output hit max_tokens before final evidence completed"),
          state.reject message.content, world)
      else
        match parseModelEvidence decode contractErrors message.content with
        | .evidence evidence => (.result (successfulEvidenceResult state evidence), state, world)
        | .valueError error => (.value (some error), state.reject message.content, world)
        | .raised _ => (.raised, state, world)
    | (.value (message, call :: calls, _), state, world) =>
      match dispatchTools env deadline config modelTurn message (call :: calls) state world with
      | (.value (), state, world) => toolRounds config turns (modelTurn + 1) state world
      | (.result result, state, world) => (.result result, state, world)
      | (.raised, state, world) => (.raised, state, world)

/-- `ContractRepairExecutor.run`; what is raised in it is answered by a malformed result. -/
def contractRepair (config : LlmConfig) (previousError : Option String)
    (state : ToolConversation Content ToolResult) (world : World Content ToolResult) :
    L1EvidenceResult Content Evidence × World Content ToolResult :=
  let modelTurn := state.modelCalls.length + 1
  let expired := deadlineExpired env deadline world
  if expired.1 then
    (deadlineFailureResult state modelTurn .beforeFinalEvidenceCall, expired.2)
  else
    let state := { state with messages := state.messages ++ [.user previousError] }
    match callModelWithRetries env deadline config state modelTurn expired.2 with
    | (.callError record, state, world) => (providerFailureResult state record, world)
    | (.raised, state, world) => (malformedEvidenceResult state, world)
    | (.returned response record, state, world) =>
      let state := { state with
        modelCalls := state.modelCalls ++ [record]
        rawOutput := some response.message.content }
      if record.finishReason = some "length" then (malformedEvidenceResult state, world)
      else
        match parseModelEvidence decode contractErrors response.message.content with
        | .evidence evidence => (successfulEvidenceResult state evidence, world)
        | _ => (malformedEvidenceResult state, world)

/-- `_ToolConversation.start` -/
def ToolConversation.start : ToolConversation Content ToolResult :=
  ⟨[.system, .user none], [], [], [], none⟩

/-- `extract_evidence`, with credentials that load. -/
def extractEvidence (config : LlmConfig) :
    L1EvidenceResult Content Evidence × World Content ToolResult :=
  match toolRounds env deadline decode contractErrors config (max 1 config.maxToolRounds).toNat 1
      .start .start with
  | (.result result, _, world) => (result, world)
  | (.raised, _, world) => (providerErrorResult, world)
  | (.value previousError, state, world) =>
    contractRepair env deadline decode contractErrors config previousError state world

end Loop

end ResiliencyExt.Attribution.RestartAgent.ToolLoop
