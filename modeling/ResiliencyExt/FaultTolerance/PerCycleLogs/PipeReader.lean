import ResiliencyExt.FaultTolerance.PerCycleLogs.CycleLines
import ResiliencyExt.Foundation.Dict

set_option autoImplicit false

/-!
# Per-cycle logs: the reader thread's state

`MultiplexingReaderThread` without its loop: the working state that a
configuration sets up, what one event of the poller does to it, and the clean-up
that a change of cycle makes.  The write queue is the list of all items that
have been put.  An item carries, besides the file and the data, the rank it is
for and how many configurations had been applied when it was put; the code has
no such fields, and nothing in the model reads them.

The poller and `fd_to_local_rank` are one field: each statement of the source
that registers or unregisters a descriptor also enters it there or takes it out.
-/

namespace ResiliencyExt.FaultTolerance.PerCycleLogs

open Foundation SplitLines List

/-- Who writes to a pipe; the launcher is the local rank -1. -/
inductive Writer
  | launcher
  | worker (localRank : Nat)
  deriving DecidableEq, Repr

/-- `ReaderConfig`.  Different open pipes have different descriptors. -/
structure ReaderConfig where
  pipes : Dict Nat Nat
  logFilePath : String
  worldSize : Option Nat
  localToGlobalRank : Dict Nat Nat
  launcherPipeFd : Option Nat
  launcherLogFilePath : Option String
  fds_nodup : (pipes.entries.map Prod.snd).Nodup
  launcher_apart : ∀ fd ∈ launcherPipeFd, fd ∉ pipes.entries.map Prod.snd

/-- An item of the write queue. -/
structure QueueItem where
  logFilePath : Option String
  data : Text
  writer : Writer
  generation : Nat
  deriving DecidableEq, Repr

/-- The working state of the reader thread. -/
structure Reader where
  pipes : Dict Nat Nat
  logFilePath : String
  localToGlobalRank : Dict Nat Nat
  launcherPipeFd : Option Nat
  launcherLogFilePath : Option String
  rankWidth : Nat
  lineBuffers : Dict Writer Text
  /-- `fd_to_local_rank`, with the registrations of the poller. -/
  fdToLocalRank : Dict Nat Writer
  writeQueue : List QueueItem
  /-- How many configurations have been applied. -/
  generation : Nat

/-- What `os.read` gives for an event. -/
inductive ReadResult
  | data (bytes : List UInt8)
  /-- `EINTR`. -/
  | interrupted
  /-- Any other `OSError`. -/
  | failed
  deriving DecidableEq, Repr

namespace Reader

/-- The prefix of a worker's lines. -/
def linePrefix (r : Reader) (localRank : Nat) : Text :=
  rankPrefix r.rankWidth ((r.localToGlobalRank.get? localRank).getD localRank)

/-- The file for the lines of a writer. -/
def targetPath (r : Reader) : Writer → Option String
  | .launcher => r.launcherLogFilePath
  | .worker _ => some r.logFilePath

/-- The item for data of a writer. -/
def item (r : Reader) (writer : Writer) (data : Text) : QueueItem where
  logFilePath := r.targetPath writer
  data := data
  writer := writer
  generation := r.generation

/-- `self._write_queue.put((log_file_path, data))` for some data in turn. -/
def put (r : Reader) (writer : Writer) (data : List Text) : Reader :=
  { r with writeQueue := r.writeQueue ++ data.map (r.item writer) }

/-- The lines that are kept, with their prefix. -/
def prefixedLines (r : Reader) (writer : Writer) (lines : List Text) : List Text :=
  match writer with
  | .launcher => lines
  | .worker localRank =>
    (lines.filter fun line => !shouldFilterLine line).map fun line =>
      r.linePrefix localRank ++ line

/-- `_queue_lines_for_write` -/
def queueLinesForWrite (r : Reader) (writer : Writer) (lines : List Text) : Reader :=
  r.put writer (queuedChunks (r.prefixedLines writer lines))

/-- `_flush_incomplete_line` -/
def flushIncompleteLine (r : Reader) (writer : Writer) (incomplete : Text) : Reader :=
  if incomplete.isEmpty then r
  else
    match writer with
    | .launcher => r.put writer [incomplete ++ ['\n']]
    | .worker localRank => r.put writer [r.linePrefix localRank ++ incomplete ++ ['\n']]

def setBuffer (r : Reader) (writer : Writer) (buffered : Option Text) : Reader :=
  { r with
    lineBuffers := match buffered with
      | some pending => r.lineBuffers.set writer pending
      | none => r.lineBuffers.erase writer }

/-- Take a descriptor out of the poller and of the dictionaries. -/
def unregister (r : Reader) (fd : Nat) (writer : Writer) : Reader :=
  { r with
    pipes := match writer with
      | .launcher => r.pipes
      | .worker localRank => r.pipes.erase localRank
    fdToLocalRank := r.fdToLocalRank.erase fd }

/-- The pipe is closed. -/
def hangUp (r : Reader) (fd : Nat) (writer : Writer) : Reader :=
  ((r.flushIncompleteLine writer ((r.lineBuffers.get? writer).getD [])).setBuffer writer
    none).unregister fd writer

/-- The pipe has data. -/
def readData (r : Reader) (writer : Writer) (bytes : List UInt8) : Reader :=
  let assembled := assembleLines (r.lineBuffers.get? writer) (readText bytes)
  (r.setBuffer writer assembled.2).queueLinesForWrite writer assembled.1

/-- One round of the loop of `_process_pipe_events`. -/
def processPipeEvent (r : Reader) (fd : Nat) (result : ReadResult) : Reader :=
  match r.fdToLocalRank.get? fd with
  | none => r
  | some writer =>
    match result with
    | .interrupted => r
    | .failed => r.hangUp fd writer
    | .data bytes => if bytes.isEmpty then r.hangUp fd writer else r.readData writer bytes

/-- `_process_pipe_events` -/
def processPipeEvents (r : Reader) (events : List (Nat × ReadResult)) : Reader :=
  events.foldl (fun r event => r.processPipeEvent event.1 event.2) r

/-! ## Configurations -/

/-- `len(str(world_size - 1))` for more than one rank. -/
def rankWidthOf (worldSize : Option Nat) : Nat :=
  match worldSize with
  | some size => if 1 < size then (Text.decimal (size - 1)).length else 0
  | none => 0

/-- The registrations after those of the worker pipes and of the launcher's pipe. -/
def register (registered : Dict Nat Writer) (config : ReaderConfig) : Dict Nat Writer :=
  let workers := config.pipes.entries.foldl
    (fun registered entry => registered.set entry.2 (.worker entry.1)) registered
  match config.launcherPipeFd with
  | some fd => if fd ∈ workers.keys then workers else workers.set fd .launcher
  | none => workers

/-- `_initialize_state_from_config` -/
def initializeStateFromConfig (r : Reader) (config : ReaderConfig) : Reader where
  pipes := config.pipes
  logFilePath := config.logFilePath
  localToGlobalRank := config.localToGlobalRank
  launcherPipeFd := config.launcherPipeFd
  launcherLogFilePath := config.launcherLogFilePath
  rankWidth := rankWidthOf config.worldSize
  lineBuffers := .empty
  fdToLocalRank := register r.fdToLocalRank config
  writeQueue := r.writeQueue
  generation := r.generation + 1

/-- The attributes before `__init__` comes to the configuration. -/
def blank : Reader where
  pipes := .empty
  logFilePath := ""
  localToGlobalRank := .empty
  launcherPipeFd := none
  launcherLogFilePath := none
  rankWidth := 0
  lineBuffers := .empty
  fdToLocalRank := .empty
  writeQueue := []
  generation := 0

/-- A reader thread that has just been created. -/
def create (config : ReaderConfig) : Reader :=
  blank.initializeStateFromConfig config

/-- `_cleanup_resources`: the incomplete lines are queued, and all descriptors but the
launcher's are unregistered. -/
def cleanupResources (r : Reader) : Reader :=
  let flushed := r.lineBuffers.entries.foldl
    (fun r entry => r.flushIncompleteLine entry.1 entry.2) r
  { flushed with
    pipes := .empty
    lineBuffers := .empty
    fdToLocalRank := flushed.fdToLocalRank.keys.foldl
      (fun registered fd =>
        if some fd = r.launcherPipeFd then registered else registered.erase fd)
      flushed.fdToLocalRank }

/-- `_apply_config` -/
def applyConfig (r : Reader) (config : ReaderConfig) : Reader :=
  r.cleanupResources.initializeStateFromConfig config

end Reader

/-! ## Chunks -/

variable (maxChunkSize : Nat) (lines : List Text)

theorem flatten_chunkLines :
    ∀ (chunk : List Text) (size : Nat),
      (chunkLines maxChunkSize chunk size lines).flatten = chunk ++ lines := by
  induction lines with
  | nil =>
    intro chunk size
    cases chunk with
    | nil => rfl
    | cons line rest => simp [chunkLines]
  | cons line lines ih =>
    intro chunk size
    rw [chunkLines]
    split
    · rw [flatten_cons, ih]
      rfl
    · rw [ih, append_assoc]
      rfl

/-- The chunks hold the lines, in order. -/
theorem flatten_queuedChunks : (queuedChunks lines).flatten = lines.flatten := by
  rw [queuedChunks, ← flatten_flatten, flatten_chunkLines]
  rfl

theorem utf8Size_flatten : utf8Size lines.flatten = (lines.map utf8Size).sum := by
  induction lines with
  | nil => rfl
  | cons line lines ih =>
    simp only [flatten_cons, utf8Size, map_append, sum_append, map_cons,
      sum_cons] at ih ⊢
    rw [ih]

theorem fits_of_mem_chunkLines :
    ∀ (chunk : List Text) (size : Nat), size = (chunk.map utf8Size).sum →
      (size ≤ maxChunkSize ∨ chunk.length ≤ 1) → (∀ line ∈ chunk ++ lines, 0 < utf8Size line) →
      ∀ c ∈ chunkLines maxChunkSize chunk size lines,
        c ≠ [] ∧ ((c.map utf8Size).sum ≤ maxChunkSize ∨ c.length ≤ 1) := by
  induction lines with
  | nil =>
    intro chunk size hsize hfits _ c hc
    rw [chunkLines] at hc
    split at hc
    · exact absurd hc not_mem_nil
    · rename_i hne
      rw [mem_singleton.mp hc, ← hsize]
      exact ⟨fun hnil => hne (by rw [hnil]; rfl), hfits⟩
  | cons line lines ih =>
    intro chunk size hsize hfits hpos c hc
    have hline : 0 < utf8Size line :=
      hpos line (mem_append_right chunk mem_cons_self)
    have hrest : ∀ l ∈ [line] ++ lines, 0 < utf8Size l := fun l hl =>
      hpos l (mem_append_right chunk hl)
    rw [chunkLines] at hc
    split at hc
    · rename_i hfull
      rcases mem_cons.mp hc with rfl | hc
      · refine ⟨fun hnil => ?_, hsize ▸ hfits⟩
        rw [hnil] at hsize
        simp only [map_nil, sum_nil] at hsize
        omega
      · exact ih [line] (utf8Size line) (by simp) (.inr (Nat.le_refl 1)) hrest c hc
    · rename_i hfull
      refine ih (chunk ++ [line]) (size + utf8Size line) ?_ ?_ ?_ c hc
      · rw [hsize, map_append, sum_append]
        simp
      · by_cases hempty : chunk = []
        · subst hempty
          exact .inr (Nat.le_refl 1)
        · left
          have hzero : 0 < size := by
            obtain ⟨l, hl⟩ := exists_mem_of_ne_nil chunk hempty
            have hl0 := hpos l (mem_append_left _ hl)
            obtain ⟨front, back, rfl⟩ := append_of_mem hl
            rw [hsize, map_append, sum_append, map_cons, sum_cons]
            omega
          omega
      · intro l hl
        rw [append_assoc] at hl
        exact hpos l hl

end ResiliencyExt.FaultTolerance.PerCycleLogs
