import Mathlib.Logic.Function.Basic
import ResiliencyExt.Foundation.System
set_option autoImplicit false

/-!
# Log aggregation: the leaf aggregator

`LeafLogServicer` puts what its `StreamLogs` handlers receive on one bounded queue, from
which the generator of the forwarder's upstream call takes it.  `shutdown_leaf` sets the
reject flag, waits until no downstream stream is left, sets the stop flag and puts a
sentinel behind the chunks.

One action is one access to what the threads share: a flag, the queue, or the count of the
clients.  A `put` on a full queue ends with `Full` when its time is up; while it waits the
action does not happen.  A `get` times out only on an empty queue.  The upstream call does
not fail, so that there is one generator, and the wait for the downstream streams ends
with none left.
-/

namespace ResiliencyExt.LogAggregation.Leaf

open Foundation

/-- `log_aggregation_pb2.LogChunk` -/
structure LogChunk where
  nodeId : String
  data : List UInt8
  filePath : String
  deriving DecidableEq, Repr

/-- `_copy_chunk` -/
def copyChunk (chunk : LogChunk) : LogChunk where
  nodeId := chunk.nodeId
  data := chunk.data
  filePath := chunk.filePath

/-- A chunk with the stream that it came from. -/
structure Queued where
  stream : Nat
  chunk : LogChunk
  deriving DecidableEq, Repr

/-- An item of `_LeafChunkQueue`. -/
inductive Item
  | chunk (queued : Queued)
  /-- `_STOP` -/
  | stop
  deriving DecidableEq, Repr

/-- The chunk that an item is. -/
def Item.queued? : Item → Option Queued
  | .chunk queued => some queued
  | .stop => none

/-- How a `StreamLogs` call ends. -/
inductive Outcome
  /-- `StreamResponse(status="OK", bytes_received=...)`. -/
  | ok (bytesReceived : Nat)
  /-- `context.abort(UNAVAILABLE, ...)`. -/
  | unavailable
  /-- The iterator raised. -/
  | raised
  deriving DecidableEq, Repr

/-- Where a `StreamLogs` handler is. -/
inductive HandlerPc
  | notCalled
  /-- Past its first test of the reject flag, before it is counted as a client. -/
  | admitted
  /-- At `for chunk in request_iterator`. -/
  | receiving
  /-- In `put_chunk`, before the test of the reject flag. -/
  | testing (chunk : LogChunk)
  /-- In `self._q.put`. -/
  | putting (chunk : LogChunk)
  /-- `put_chunk` has returned `True`. -/
  | accepted (chunk : LogChunk)
  /-- Before the `finally` clause. -/
  | leaving (outcome : Outcome)
  | left (outcome : Outcome)
  deriving DecidableEq, Repr

/-- A `StreamLogs` handler.  `counted` lists the chunks that `total` and `nchunks` count. -/
structure Handler where
  pc : HandlerPc
  total : Nat
  nchunks : Nat
  counted : List LogChunk
  deriving DecidableEq, Repr

/-- The handler's counters after one more chunk. -/
def Handler.count (handler : Handler) (chunk : LogChunk) : Handler where
  pc := .receiving
  total := handler.total + chunk.data.length
  nchunks := handler.nchunks + 1
  counted := handler.counted ++ [chunk]

/-- Where the generator is. -/
inductive GeneratorPc
  /-- At `self._q.get_upstream`. -/
  | getting
  /-- In the handler of `queue.Empty`, before the test of the stop flag. -/
  | timedOut
  | returned
  deriving DecidableEq, Repr

/-- Where `shutdown_leaf` is. -/
inductive ShutdownPc
  | notCalled
  /-- The reject flag is set; in the loop that waits for the clients. -/
  | waiting
  /-- No client was connected; before the stop flag is set. -/
  | alone
  /-- Before `put_stop`. -/
  | stopping
  /-- The sentinel is on the queue, or the queue was full for too long. -/
  | stopped
  deriving DecidableEq, Repr

structure LeafServer where
  maxChunks : Nat
  queue : List Item
  rejectNewStreams : Bool
  stopForwarder : Bool
  connectedClients : Nat
  handlers : Nat → Handler
  generator : GeneratorPc
  /-- What the generator has yielded, in order. -/
  yielded : List Queued
  shutdown : ShutdownPc

/-- The next access of one of the threads. -/
inductive Action
  /-- `StreamLogs` is called for a stream. -/
  | call (stream : Nat)
  /-- The handler counts itself as a client. -/
  | connect (stream : Nat)
  /-- The iterator yields a chunk, and the handler tests the reject flag. -/
  | receive (stream : Nat) (chunk : LogChunk)
  /-- The iterator ends. -/
  | finish (stream : Nat)
  /-- The iterator raises. -/
  | interrupt (stream : Nat)
  /-- The test in `put_chunk`. -/
  | test (stream : Nat)
  /-- `self._q.put` returns or raises `Full`. -/
  | put (stream : Nat)
  /-- The handler counts the chunk. -/
  | count (stream : Nat)
  /-- The `finally` clause. -/
  | disconnect (stream : Nat)
  /-- The generator's next access. -/
  | generate
  /-- The next step of `shutdown_leaf`. -/
  | shutdown
  deriving DecidableEq, Repr

namespace LeafServer

/-- A leaf whose upstream call has begun and that was not called yet. -/
def started (maxChunks : Nat) : LeafServer where
  maxChunks := maxChunks
  queue := []
  rejectNewStreams := false
  stopForwarder := false
  connectedClients := 0
  handlers _ := ⟨.notCalled, 0, 0, []⟩
  generator := .getting
  yielded := []
  shutdown := .notCalled

def setHandler (s : LeafServer) (stream : Nat) (handler : Handler) : LeafServer :=
  { s with handlers := Function.update s.handlers stream handler }

/-- A handler goes on to another point, with its counters unchanged. -/
def goTo (s : LeafServer) (stream : Nat) (pc : HandlerPc) : LeafServer :=
  s.setHandler stream { s.handlers stream with pc := pc }

/-- `queue.Queue(maxsize=max_chunks)` has room. -/
def HasRoom (s : LeafServer) : Prop :=
  s.queue.length < s.maxChunks

instance (s : LeafServer) : Decidable s.HasRoom :=
  inferInstanceAs (Decidable (_ < _))

/-! ## `StreamLogs` and `put_chunk` -/

def call (s : LeafServer) (stream : Nat) : Option LeafServer :=
  match (s.handlers stream).pc with
  | .notCalled =>
    some (s.goTo stream (if s.rejectNewStreams then .left .unavailable else .admitted))
  | _ => none

def connect (s : LeafServer) (stream : Nat) : Option LeafServer :=
  match (s.handlers stream).pc with
  | .admitted =>
    some ({ s with connectedClients := s.connectedClients + 1 }.goTo stream .receiving)
  | _ => none

def receive (s : LeafServer) (stream : Nat) (chunk : LogChunk) : Option LeafServer :=
  match (s.handlers stream).pc with
  | .receiving =>
    some (s.goTo stream (if s.rejectNewStreams then .leaving (.ok (s.handlers stream).total)
      else .testing (copyChunk chunk)))
  | _ => none

def finish (s : LeafServer) (stream : Nat) : Option LeafServer :=
  match (s.handlers stream).pc with
  | .receiving => some (s.goTo stream (.leaving (.ok (s.handlers stream).total)))
  | _ => none

def interrupt (s : LeafServer) (stream : Nat) : Option LeafServer :=
  match (s.handlers stream).pc with
  | .receiving => some (s.goTo stream (.leaving .raised))
  | _ => none

def test (s : LeafServer) (stream : Nat) : Option LeafServer :=
  match (s.handlers stream).pc with
  | .testing chunk =>
    some (s.goTo stream (if s.rejectNewStreams then .leaving (.ok (s.handlers stream).total)
      else .putting chunk))
  | _ => none

def put (s : LeafServer) (stream : Nat) : Option LeafServer :=
  match (s.handlers stream).pc with
  | .putting chunk =>
    if s.HasRoom then
      some ({ s with queue := s.queue ++ [Item.chunk ⟨stream, chunk⟩] }.goTo stream
        (.accepted chunk))
    else some (s.goTo stream (.testing chunk))
  | _ => none

def count (s : LeafServer) (stream : Nat) : Option LeafServer :=
  match (s.handlers stream).pc with
  | .accepted chunk => some (s.setHandler stream ((s.handlers stream).count chunk))
  | _ => none

def disconnect (s : LeafServer) (stream : Nat) : Option LeafServer :=
  match (s.handlers stream).pc with
  | .leaving outcome =>
    some ({ s with connectedClients := s.connectedClients - 1 }.goTo stream (.left outcome))
  | _ => none

/-! ## The generator of the upstream call -/

def generate (s : LeafServer) : Option LeafServer :=
  match s.generator with
  | .getting =>
    match s.queue with
    | [] => some { s with generator := .timedOut }
    | .chunk queued :: rest => some { s with queue := rest, yielded := s.yielded ++ [queued] }
    | .stop :: rest => some { s with queue := rest, generator := .returned }
  | .timedOut =>
    some { s with generator := if s.stopForwarder then .returned else .getting }
  | .returned => none

/-! ## `shutdown_leaf` -/

/-- The next step; while clients are connected the loop only goes round. -/
def shutdownLeaf (s : LeafServer) : Option LeafServer :=
  match s.shutdown with
  | .notCalled => some { s with rejectNewStreams := true, shutdown := .waiting }
  | .waiting => some { s with shutdown := if s.connectedClients = 0 then .alone else .waiting }
  | .alone => some { s with stopForwarder := true, shutdown := .stopping }
  | .stopping =>
    if s.HasRoom then some { s with queue := s.queue ++ [Item.stop], shutdown := .stopped }
    else some { s with shutdown := .stopped }
  | .stopped => none

/-- One step of one of the threads. -/
def step (s : LeafServer) : Action → Option LeafServer
  | .call stream => s.call stream
  | .connect stream => s.connect stream
  | .receive stream chunk => s.receive stream chunk
  | .finish stream => s.finish stream
  | .interrupt stream => s.interrupt stream
  | .test stream => s.test stream
  | .put stream => s.put stream
  | .count stream => s.count stream
  | .disconnect stream => s.disconnect stream
  | .generate => s.generate
  | .shutdown => s.shutdownLeaf

/-- The leaf with its handlers, its forwarder and its shutdown; the queue's bound is positive,
which its constructor checks. -/
def system : System LeafServer Action where
  init s := ∃ maxChunks, 1 ≤ maxChunks ∧ s = started maxChunks
  step := step

end LeafServer

end ResiliencyExt.LogAggregation.Leaf
