import ResiliencyExt.Attribution.RestartAgent.AgentRuntime

set_option autoImplicit false

/-!
# Restart agent: gates and generations of invocations

How `RestartAgentRuntime` of `agent_runtime.py` lets invocations of one job and cycle id write
their attempt record.  A call of `analyze_one` or `analyze_many` goes through a gate of its key
(`_key_guard`), which is made when the first caller comes and dropped, with the generation of the
key, when the last one goes.  Inside the gate it takes a generation (`_begin`), publishes its
record (`_publish_initial`, `_publish_enriched`) and closes.

A step is what one thread does between two points where others can come in between: a block under
the state lock, the check of `_accepts_update`, a write of the store.  A gate's lock is reentrant:
a callback of a call may make another call, on the same thread.  A request without a job or a
cycle id has no key, goes through no gate and stores no record.
-/

namespace ResiliencyExt.Attribution.RestartAgent

open Foundation

/-! ## Calls -/

/-- A write of the store that was accepted. -/
inductive AcceptedWrite where
  | initial (record : AttemptRecord)
  | enriched (routeId : String) (record : AttemptRecord)
deriving DecidableEq, Repr

/-- Where a call is. -/
inductive CallPhase where
  /-- `gate.users += 1` is done. -/
  | entered
  /-- It holds `gate.lock`. -/
  | locked
  /-- It has begun; callbacks come in this phase. -/
  | running
  /-- `_accepts_update` was true; the write comes next. -/
  | writing (write : AcceptedWrite)
  /-- `_close` is done. -/
  | closed
  /-- `gate.lock` is released. -/
  | released
  /-- `gate.users -= 1` is done. -/
  | left
deriving DecidableEq, Repr

/-- A call of the runtime, with its `_InvocationRecordState` from `generation` to
`enrichedRouteUpdates`.  The last three fields only remember: when the call began, counted over
all calls; its initial record; and the storable facts that were delivered to it after its initial
record was stored, while it was open and no later call of its key had begun. -/
structure RuntimeCall where
  thread : Nat
  key : RecordKey
  gate : Nat
  phase : CallPhase := .entered
  generation : Nat := 0
  record : Option AttemptRecord := none
  isOpen : Bool := false
  initialUpserted : Bool := false
  enrichedUpdates : Nat := 0
  ignoredUpdates : Nat := 0
  upsertReason : String := "l0_not_ready"
  enrichedRouteUpdates : List String := []
  began : Nat := 0
  initial : Option AttemptRecord := none
  delivered : List (String × AttemptFailureFacts) := []
deriving DecidableEq, Repr

namespace RuntimeCall

/-- The call counts as a user of its gate. -/
def active (call : RuntimeCall) : Bool :=
  call.phase ≠ .left

/-- The call holds the lock of its gate. -/
def holding (call : RuntimeCall) : Bool :=
  match call.phase with
  | .entered | .released | .left => false
  | .locked | .running | .writing _ | .closed => true

/-- The call was begun and is not between a check and its write. -/
def settled (call : RuntimeCall) : Bool :=
  match call.phase with
  | .entered | .locked | .writing _ => false
  | .running | .closed | .released | .left => true

end RuntimeCall

/-! ## The runtime -/

/-- `users` has the users of every gate that was made; the gates are numbered by `nextGate`. -/
structure GateState where
  store : AttemptRecordStore
  keyGates : Dict RecordKey Nat := Dict.empty
  users : Nat → Nat := fun _ => 0
  nextGate : Nat := 0
  generations : Dict RecordKey Nat := Dict.empty
  calls : List RuntimeCall := []
  begins : Nat := 0

/-- A step; a call is named by its place among the calls. -/
inductive GateAction where
  | enter (thread : Nat) (key : RecordKey)
  | acquire (call : Nat)
  | begin (call : Nat)
  | publishInitial (call : Nat) (attempt : Attempt)
  | publishEnriched (call : Nat) (routeId : String) (routeRecord : AttemptRecord)
  | upsert (call : Nat)
  | close (call : Nat)
  | release (call : Nat)
  | leave (call : Nat)

variable (enabled : Bool)

namespace GateState

variable (s : GateState)

/-- A thread can make a call when it has none or is in a callback of its last one. -/
def canEnter (thread : Nat) : Bool :=
  s.calls.all fun call => call.thread ≠ thread || !call.active || call.phase = .running

/-- No later call of the thread is going on. -/
def isTop (index : Nat) (call : RuntimeCall) : Bool :=
  (s.calls.drop (index + 1)).all fun later => later.thread ≠ call.thread || !later.active

/-- No other thread holds the gate's lock. -/
def lockFree (call : RuntimeCall) : Bool :=
  s.calls.all fun other =>
    other.gate ≠ call.gate || !other.holding || other.thread = call.thread

/-- A later call of the key has begun. -/
def superseded (call : RuntimeCall) : Bool :=
  s.calls.any fun later => later.key = call.key && call.began < later.began

def setCall (index : Nat) (call : RuntimeCall) : GateState :=
  { s with calls := s.calls.set index call }

/-- `_accepts_update` -/
def acceptsUpdate (call : RuntimeCall) : Bool :=
  call.isOpen && s.generations.get? call.key = some call.generation

/-- `_key_guard`, up to the lock. -/
def enter (thread : Nat) (key : RecordKey) : GateState :=
  match s.keyGates.get? key with
  | some gate =>
    { s with
      users := Function.update s.users gate (s.users gate + 1)
      calls := s.calls ++ [{ thread := thread, key := key, gate := gate }] }
  | none =>
    { s with
      keyGates := s.keyGates.set key s.nextGate
      users := Function.update s.users s.nextGate 1
      nextGate := s.nextGate + 1
      calls := s.calls ++ [{ thread := thread, key := key, gate := s.nextGate }] }

/-- `_begin`; the view of earlier attempts is in `RuntimeState`. -/
def begin (index : Nat) (call : RuntimeCall) : GateState :=
  let generation := (s.generations.get? call.key).getD 0 + 1
  { s with
    generations := s.generations.set call.key generation
    begins := s.begins + 1
    calls := s.calls.set index { call with
      phase := .running
      generation := generation
      isOpen := true
      upsertReason := if enabled then "l0_not_ready" else "history_disabled"
      began := s.begins + 1 } }

/-- `_publish_initial`, up to the write. -/
def publishInitial (index : Nat) (call : RuntimeCall) (attempt : Attempt) : GateState :=
  let record := attempt.initialRecord
  let call := { call with record := some record, initial := some record }
  if !enabled then s.setCall index { call with upsertReason := "history_disabled" }
  else if !truthy record.deterministic.rootFingerprint then
    s.setCall index { call with upsertReason := "missing_root_fingerprint" }
  else if !s.acceptsUpdate call then
    s.setCall index { call with ignoredUpdates := call.ignoredUpdates + 1 }
  else s.setCall index { call with phase := .writing (.initial record) }

/-- What is remembered of a delivery. -/
def deliver (call : RuntimeCall) (routeId : String) (facts : AttemptFailureFacts) : RuntimeCall :=
  if call.isOpen && !s.superseded call && call.initialUpserted && routeId ≠ "" &&
      facts.faultOutcome.isSome then
    { call with delivered := call.delivered ++ [(routeId, facts)] }
  else call

/-- `_publish_enriched`, up to the write; `with_enriched` raises without a route id. -/
def publishEnriched (index : Nat) (call : RuntimeCall) (routeId : String)
    (routeRecord : AttemptRecord) : GateState :=
  match routeRecord.enriched.find? fun entry => entry.routeId = routeId with
  | none => s
  | some entry =>
    let delivered := s.deliver call routeId entry.facts
    match call.record with
    | none => s.setCall index delivered
    | some record =>
      if !call.initialUpserted then s.setCall index delivered
      else if !s.acceptsUpdate call then
        s.setCall index { delivered with ignoredUpdates := call.ignoredUpdates + 1 }
      else if routeId = "" then s.setCall index delivered
      else
        s.setCall index { delivered with
          phase := .writing (.enriched routeId (record.withEnriched routeId entry.facts)) }

/-- `self._store.upsert_attempt(…)`, and what comes after it unless it raises. -/
def upsert (index : Nat) (call : RuntimeCall) : AcceptedWrite → GateState
  | .initial record =>
    match s.store.upsertAttempt record with
    | .error _ => s.setCall index { call with phase := .running }
    | .ok store =>
      { s.setCall index { call with
          phase := .running
          record := some record
          initialUpserted := true
          upsertReason := "stored" } with store := store }
  | .enriched routeId record =>
    match s.store.upsertAttempt record with
    | .error _ => s.setCall index { call with phase := .running }
    | .ok store =>
      { s.setCall index { call with
          phase := .running
          record := some record
          enrichedUpdates := call.enrichedUpdates + 1
          enrichedRouteUpdates := call.enrichedRouteUpdates ++ [routeId] } with
        store := store }

/-- The end of `_key_guard`. -/
def leave (index : Nat) (call : RuntimeCall) : GateState :=
  let users := s.users call.gate - 1
  let s := { s with
    users := Function.update s.users call.gate users
    calls := s.calls.set index { call with phase := .left } }
  if users = 0 ∧ s.keyGates.get? call.key = some call.gate then
    { s with
      keyGates := s.keyGates.erase call.key
      generations := s.generations.erase call.key }
  else s

/-- A step of the call at a place, which is the last one of its thread. -/
def onTop (index : Nat) (next : RuntimeCall → Option GateState) : Option GateState :=
  match s.calls[index]? with
  | some call => if s.isTop index call then next call else none
  | none => none

/-- A delivery to a call: in a callback, or when the call is closed already. -/
def onDelivery (index : Nat) (next : RuntimeCall → Option GateState) : Option GateState :=
  match s.calls[index]? with
  | some call =>
    if call.settled && (call.phase ≠ .running || s.isTop index call) then next call else none
  | none => none

end GateState

/-- The runtime with its gates, over any store. -/
def gates : System GateState GateAction where
  init s := s = { store := s.store }
  step s
    | .enter thread key => if s.canEnter thread then some (s.enter thread key) else none
    | .acquire index => s.onTop index fun call =>
      if call.phase = .entered ∧ s.lockFree call then
        some (s.setCall index { call with phase := .locked })
      else none
    | .begin index => s.onTop index fun call =>
      if call.phase = .locked then some (s.begin enabled index call) else none
    | .publishInitial index attempt => s.onDelivery index fun call =>
      if attempt.key = call.key ∧ call.record = none then
        some (s.publishInitial enabled index call attempt)
      else none
    | .publishEnriched index routeId routeRecord => s.onDelivery index fun call =>
      some (s.publishEnriched index call routeId routeRecord)
    | .upsert index => s.onTop index fun call =>
      match call.phase with
      | .writing write => some (s.upsert index call write)
      | _ => none
    | .close index => s.onTop index fun call =>
      if call.phase = .running then
        some (s.setCall index { call with phase := .closed, isOpen := false })
      else none
    | .release index => s.onTop index fun call =>
      if call.phase = .closed then some (s.setCall index { call with phase := .released })
      else none
    | .leave index => s.onTop index fun call =>
      if call.phase = .released then some (s.leave index call) else none

end ResiliencyExt.Attribution.RestartAgent
