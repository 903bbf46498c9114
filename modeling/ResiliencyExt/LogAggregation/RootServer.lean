import ResiliencyExt.Foundation.Dict
import ResiliencyExt.Foundation.System
set_option autoImplicit false

/-!
# Log aggregation: the log root

`LogAggregationServicer` keeps, for every file, a buffer that the `StreamLogs`
handlers append to and a file handle that the flush writes to.  Two locks
separate them: `buffer_lock` covers the append, the copy-and-clear of a flush
and the clear at shutdown; `io_lock` covers the writing of one copied buffer and
the closing of the handle.  One action of the model is one such section, or one
read that the code makes without a lock, so every interleaving of the handlers,
the flush thread and the thread that shuts the server down is a list of actions.

What the environment decides is in the actions too: which chunk a stream
delivers next and when it ends or breaks, whether the wait for the clients and
the join of the flush thread time out.  No write fails.  The heuristic lines
about completed cycle logs only go to the server's own log, and are left out
together with the times and flags they are made of.
-/

namespace ResiliencyExt.LogAggregation

open Foundation

/-- A `LogChunk`: bytes, and the path of the file they are for. -/
structure Chunk where
  filePath : String
  data : List UInt8
  deriving DecidableEq, Repr

/-- A chunk in a buffer or a file, with the stream that delivered it. -/
structure Received where
  stream : Nat
  chunk : Chunk
  deriving DecidableEq, Repr

/-- What the server keeps of one file, and what it has written to it. -/
structure FileState where
  /-- `file_handle` is not `None`. -/
  fileHandle : Bool
  buffer : List Received
  bufferSize : Nat
  written : List Received
  deriving DecidableEq, Repr

namespace FileState

/-- A file that `_get_or_create_file_state` has just opened. -/
def opened : FileState where
  fileHandle := true
  buffer := []
  bufferSize := 0
  written := []

/-- `file_state['buffer'].append(data)` and the size. -/
def append (file : FileState) (received : Received) : FileState :=
  { file with
    buffer := file.buffer ++ [received]
    bufferSize := file.bufferSize + received.chunk.data.length }

/-- `file_state['buffer'].clear()` and the size. -/
def clear (file : FileState) : FileState :=
  { file with buffer := [], bufferSize := 0 }

/-- The `io_lock` section of a flush: a closed file drops what was copied. -/
def write (file : FileState) (bufferCopy : List Received) : FileState :=
  if file.fileHandle then { file with written := file.written ++ bufferCopy } else file

/-- The `io_lock` section that closes the handle. -/
def close (file : FileState) : FileState :=
  { file with fileHandle := false }

end FileState

/-- How a `StreamLogs` call ends. -/
inductive Outcome
  /-- `StreamResponse(status="OK", bytes_received=...)`. -/
  | ok (bytesReceived : Nat)
  /-- `context.abort(INVALID_ARGUMENT, ...)`. -/
  | invalidArgument
  /-- The iterator raised, and the handler raised it again. -/
  | raised
  deriving DecidableEq, Repr

/-- Where a `StreamLogs` handler is. -/
inductive HandlerPc
  | notCalled
  /-- At `for chunk in request_iterator`. -/
  | receiving
  /-- Past the test of `shutdown_event`, before `_get_or_create_file_state`. -/
  | tested (chunk : Chunk)
  /-- With the file's state at hand, before the `buffer_lock` section. -/
  | located (chunk : Chunk)
  /-- Before the `finally` clause. -/
  | leaving (outcome : Outcome)
  | left (outcome : Outcome)
  deriving DecidableEq, Repr

/-- A `StreamLogs` handler.  `counted` lists the chunks that the two counters count. -/
structure Handler where
  pc : HandlerPc
  clientBytes : Nat
  clientChunks : Nat
  counted : List Chunk
  deriving DecidableEq, Repr

/-- The handler's counters after one more chunk. -/
def Handler.count (handler : Handler) (chunk : Chunk) : Handler where
  pc := .receiving
  clientBytes := handler.clientBytes + chunk.data.length
  clientChunks := handler.clientChunks + 1
  counted := handler.counted ++ [chunk]

/-- Where the flush thread is.  `todo` is the rest of its `files_snapshot`. -/
inductive FlushPc
  /-- In `shutdown_event.wait(timeout=...)`. -/
  | waiting
  /-- The wait timed out; about to take the snapshot. -/
  | ticked
  /-- Before the quick check of the next file. -/
  | checking (todo : List String)
  /-- In `_flush_file_buffer_locked`, before its `buffer_lock` section. -/
  | taking (path : String) (todo : List String)
  /-- In `_flush_file_buffer_locked`, before its `io_lock` section. -/
  | writing (path : String) (bufferCopy : List Received) (todo : List String)
  | exited
  deriving DecidableEq, Repr

/-- Where the thread is that calls `graceful_shutdown` or `shutdown`. -/
inductive ShutdownPc
  | notCalled
  /-- In the loop of `graceful_shutdown`. -/
  | graceful
  /-- In `shutdown`, before `shutdown_event.set()`. -/
  | called
  | joining
  /-- Past the join, before the snapshot of the final pass. -/
  | joined
  | checking (todo : List String)
  | taking (path : String) (todo : List String)
  | writing (path : String) (bufferCopy : List Received) (todo : List String)
  /-- Before the `io_lock` section that closes the handle. -/
  | closing (path : String) (todo : List String)
  /-- Before the `buffer_lock` section that clears the buffer. -/
  | clearing (path : String) (todo : List String)
  | returned
  deriving DecidableEq, Repr

/-- The servicer and the threads in it. -/
structure LogServer where
  files : Dict String FileState
  connectedClients : Nat
  gracefulShutdownInitiated : Bool
  shutdownEvent : Bool
  totalBytesReceived : Nat
  totalChunksReceived : Nat
  handlers : Nat → Handler
  flusher : FlushPc
  shutdown : ShutdownPc

/-- The next section, or unlocked read, of one of the threads. -/
inductive Action
  /-- `StreamLogs` is called for a stream. -/
  | connect (stream : Nat)
  /-- The iterator yields a chunk, which the handler tests. -/
  | receive (stream : Nat) (chunk : Chunk)
  /-- `_get_or_create_file_state`. -/
  | locate (stream : Nat)
  /-- The `buffer_lock` section of the handler. -/
  | append (stream : Nat)
  /-- The iterator ends. -/
  | finish (stream : Nat)
  /-- The iterator raises. -/
  | interrupt (stream : Nat)
  /-- The `finally` clause. -/
  | disconnect (stream : Nat)
  /-- The flush thread's wait returns. -/
  | tick
  | snapshot
  | check
  | take
  | write
  /-- `graceful_shutdown` is called. -/
  | gracefulShutdown
  /-- One round of its loop. -/
  | awaitClients (timedOut : Bool)
  /-- `shutdown` is called. -/
  | callShutdown
  | setEvent
  | join (timedOut : Bool)
  | finalSnapshot
  | finalCheck
  | finalTake
  | finalWrite
  | close
  | finalClear
  deriving DecidableEq, Repr

namespace LogServer

/-- A server before its first call, with the flush thread started. -/
def started : LogServer where
  files := .empty
  connectedClients := 0
  gracefulShutdownInitiated := false
  shutdownEvent := false
  totalBytesReceived := 0
  totalChunksReceived := 0
  handlers _ := ⟨.notCalled, 0, 0, []⟩
  flusher := .waiting
  shutdown := .notCalled

/-- The state object of a path.  Every path that a thread holds is a key of `files`. -/
def fileState (s : LogServer) (path : String) : FileState :=
  (s.files.get? path).getD .opened

def setFile (s : LogServer) (path : String) (file : FileState) : LogServer :=
  { s with files := s.files.set path file }

def setHandler (s : LogServer) (stream : Nat) (handler : Handler) : LogServer :=
  { s with handlers := Function.update s.handlers stream handler }

/-- A handler goes on to another point, with its counters unchanged. -/
def goTo (s : LogServer) (stream : Nat) (pc : HandlerPc) : LogServer :=
  s.setHandler stream { s.handlers stream with pc := pc }

/-! ## `StreamLogs` -/

def connect (s : LogServer) (stream : Nat) : Option LogServer :=
  match (s.handlers stream).pc with
  | .notCalled =>
    some ({ s with connectedClients := s.connectedClients + 1 }.goTo stream .receiving)
  | _ => none

/-- The body of the loop up to the file's state: a set event ends the stream, a chunk without
a path aborts it. -/
def receive (s : LogServer) (stream : Nat) (chunk : Chunk) : Option LogServer :=
  match (s.handlers stream).pc with
  | .receiving =>
    if s.shutdownEvent then
      some (s.goTo stream (.leaving (.ok (s.handlers stream).clientBytes)))
    else if chunk.filePath = "" then some (s.goTo stream (.leaving .invalidArgument))
    else some (s.goTo stream (.tested chunk))
  | _ => none

/-- `_get_or_create_file_state`, under `files_lock`. -/
def getOrCreateFileState (s : LogServer) (path : String) : LogServer :=
  if path ∈ s.files.keys then s else s.setFile path .opened

def locate (s : LogServer) (stream : Nat) : Option LogServer :=
  match (s.handlers stream).pc with
  | .tested chunk =>
    some ((s.getOrCreateFileState chunk.filePath).goTo stream (.located chunk))
  | _ => none

/-- The handler's `buffer_lock` section. -/
def append (s : LogServer) (stream : Nat) : Option LogServer :=
  match (s.handlers stream).pc with
  | .located chunk =>
    let appended := s.setFile chunk.filePath
      ((s.fileState chunk.filePath).append ⟨stream, chunk⟩)
    some ({ appended with
      totalBytesReceived := s.totalBytesReceived + chunk.data.length
      totalChunksReceived := s.totalChunksReceived + 1 }.setHandler stream
        ((s.handlers stream).count chunk))
  | _ => none

def finish (s : LogServer) (stream : Nat) : Option LogServer :=
  match (s.handlers stream).pc with
  | .receiving => some (s.goTo stream (.leaving (.ok (s.handlers stream).clientBytes)))
  | _ => none

def interrupt (s : LogServer) (stream : Nat) : Option LogServer :=
  match (s.handlers stream).pc with
  | .receiving => some (s.goTo stream (.leaving .raised))
  | _ => none

def disconnect (s : LogServer) (stream : Nat) : Option LogServer :=
  match (s.handlers stream).pc with
  | .leaving outcome =>
    some ({ s with connectedClients := s.connectedClients - 1 }.goTo stream (.left outcome))
  | _ => none

/-! ## `_periodic_flush` -/

def tick (s : LogServer) : Option LogServer :=
  match s.flusher with
  | .waiting => some { s with flusher := if s.shutdownEvent then .exited else .ticked }
  | _ => none

def snapshot (s : LogServer) : Option LogServer :=
  match s.flusher with
  | .ticked => some { s with flusher := .checking s.files.keys }
  | _ => none

/-- The quick check without a lock, and the end of the loop. -/
def check (s : LogServer) : Option LogServer :=
  match s.flusher with
  | .checking [] => some { s with flusher := .waiting }
  | .checking (path :: todo) =>
    some { s with
      flusher := if (s.fileState path).buffer = [] then .checking todo else .taking path todo }
  | _ => none

/-- Step 1 of `_flush_file_buffer_locked`. -/
def take (s : LogServer) : Option LogServer :=
  match s.flusher with
  | .taking path todo =>
    if (s.fileState path).buffer = [] then some { s with flusher := .checking todo }
    else some { s.setFile path (s.fileState path).clear with
      flusher := .writing path (s.fileState path).buffer todo }
  | _ => none

/-- Step 2 of `_flush_file_buffer_locked`. -/
def write (s : LogServer) : Option LogServer :=
  match s.flusher with
  | .writing path bufferCopy todo =>
    some { s.setFile path ((s.fileState path).write bufferCopy) with
      flusher := .checking todo }
  | _ => none

/-! ## `graceful_shutdown` and `shutdown` -/

def gracefulShutdown (s : LogServer) : Option LogServer :=
  match s.shutdown with
  | .notCalled => some { s with gracefulShutdownInitiated := true, shutdown := .graceful }
  | _ => none

/-- One round of the loop, which ends when no client is connected or the timeout is reached. -/
def awaitClients (s : LogServer) (timedOut : Bool) : Option LogServer :=
  match s.shutdown with
  | .graceful =>
    some (if s.connectedClients = 0 ∨ timedOut = true then { s with shutdown := .called } else s)
  | _ => none

def callShutdown (s : LogServer) : Option LogServer :=
  match s.shutdown with
  | .notCalled => some { s with shutdown := .called }
  | _ => none

def setEvent (s : LogServer) : Option LogServer :=
  match s.shutdown with
  | .called => some { s with shutdownEvent := true, shutdown := .joining }
  | _ => none

/-- `flush_thread.join(timeout=0.5)` returns when the thread has exited or the time is up. -/
def join (s : LogServer) (timedOut : Bool) : Option LogServer :=
  match s.shutdown with
  | .joining =>
    if s.flusher = .exited ∨ timedOut = true then some { s with shutdown := .joined } else none
  | _ => none

def finalSnapshot (s : LogServer) : Option LogServer :=
  match s.shutdown with
  | .joined => some { s with shutdown := .checking s.files.keys }
  | _ => none

/-- The quick check without a lock, and the end of the pass. -/
def finalCheck (s : LogServer) : Option LogServer :=
  match s.shutdown with
  | .checking [] => some { s with shutdown := .returned }
  | .checking (path :: todo) =>
    some { s with
      shutdown :=
        if (s.fileState path).buffer = [] then .closing path todo else .taking path todo }
  | _ => none

def finalTake (s : LogServer) : Option LogServer :=
  match s.shutdown with
  | .taking path todo =>
    if (s.fileState path).buffer = [] then some { s with shutdown := .closing path todo }
    else some { s.setFile path (s.fileState path).clear with
      shutdown := .writing path (s.fileState path).buffer todo }
  | _ => none

def finalWrite (s : LogServer) : Option LogServer :=
  match s.shutdown with
  | .writing path bufferCopy todo =>
    some { s.setFile path ((s.fileState path).write bufferCopy) with
      shutdown := .closing path todo }
  | _ => none

def close (s : LogServer) : Option LogServer :=
  match s.shutdown with
  | .closing path todo =>
    some { s.setFile path (s.fileState path).close with shutdown := .clearing path todo }
  | _ => none

def finalClear (s : LogServer) : Option LogServer :=
  match s.shutdown with
  | .clearing path todo =>
    some { s.setFile path (s.fileState path).clear with shutdown := .checking todo }
  | _ => none

/-- One step of one of the threads. -/
def step (s : LogServer) : Action → Option LogServer
  | .connect stream => s.connect stream
  | .receive stream chunk => s.receive stream chunk
  | .locate stream => s.locate stream
  | .append stream => s.append stream
  | .finish stream => s.finish stream
  | .interrupt stream => s.interrupt stream
  | .disconnect stream => s.disconnect stream
  | .tick => s.tick
  | .snapshot => s.snapshot
  | .check => s.check
  | .take => s.take
  | .write => s.write
  | .gracefulShutdown => s.gracefulShutdown
  | .awaitClients timedOut => s.awaitClients timedOut
  | .callShutdown => s.callShutdown
  | .setEvent => s.setEvent
  | .join timedOut => s.join timedOut
  | .finalSnapshot => s.finalSnapshot
  | .finalCheck => s.finalCheck
  | .finalTake => s.finalTake
  | .finalWrite => s.finalWrite
  | .close => s.close
  | .finalClear => s.finalClear

/-- The log root with its handlers, its flush thread and the thread that shuts it down. -/
def system : System LogServer Action where
  init s := s = started
  step := step

end LogServer

end ResiliencyExt.LogAggregation
