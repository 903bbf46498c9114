import ResiliencyExt.Checkpointing.Local.CkptFiles
import ResiliencyExt.Foundation.System

set_option autoImplicit false

/-!
# Local checkpoints: saving, finalizing and cleaning up

The training processes of all ranks make the same calls in the same order, and the
calls that matter here are collective, so one step stands for the call on all ranks.
What runs beside them is rank by rank: `_save_fn` writes the shards of a save one
file operation after the other, and a clean-up lists its directory once and then
removes the files one by one, in the executor's thread after an asynchronous save
and in the training process after a synchronous one.

A restart loses what the processes know, and leaves the directories as they are.
The content of a file is the number of the save call that wrote it.
-/

namespace ResiliencyExt.Checkpointing.Local

open Foundation Function

/-! ## State -/

/-- `_save_fn` of one rank: the shards that are still to be written. -/
structure Writer where
  todo : List Nat
  /-- The dirty file of the next shard is open. -/
  opened : Bool
  failed : Bool
  deriving DecidableEq, Repr

/-- `save_fn` has returned or raised. -/
def Writer.atRest (writer : Writer) : Bool :=
  writer.failed || writer.todo.isEmpty

/-- A save that is not finalized. -/
structure PendingSave where
  /-- The number of the save call. -/
  attempt : Nat
  iteration : Nat
  isAsync : Bool
  writer : Nat → Writer

/-- The file that the writer of the rank has open. -/
def PendingSave.openFile (save : PendingSave) (r : Nat) : Option FileName :=
  match save.writer r with
  | ⟨p :: _, true, false⟩ => some ⟨save.iteration, p, true⟩
  | _ => none

/-- `_cleanup` or `_cleanup_failed_save` of one rank. -/
structure CleanupTask where
  iteration : Nat
  failedSave : Bool
  /-- `rm_ckpts`, once the directory is listed. -/
  rmCkpts : Option (List FileName)
  deriving DecidableEq, Repr

/-- The file is one that the clean-up lists. -/
def CleanupTask.removes (task : CleanupTask) (name : FileName) : Bool :=
  if task.failedSave then name.iteration = task.iteration else name.iteration < task.iteration

/-- The clean-up may still remove the file. -/
def CleanupTask.mayRemove (task : CleanupTask) (name : FileName) : Bool :=
  match task.rmCkpts with
  | none => task.removes name
  | some names => name ∈ names

/-- Where the training processes stand. -/
inductive Control where
  | idle
  /-- In `save_fn` and the barrier of a synchronous save. -/
  | saving
  /-- In the clean-up of a synchronous save: whether it is to raise at the end, and whether
  its checkpoint was lost when `finalize_fn` looked. -/
  | cleaning (iteration : Nat) (raises lost : Bool)
  deriving DecidableEq, Repr

/-- How a rank's `finalize_fn` ended. -/
structure Outcome where
  rank : Nat
  iteration : Nat
  raised : Bool
  /-- When it looked, a shard of the iteration was missing, and no newer one was complete. -/
  lost : Bool
  deriving DecidableEq, Repr

structure LocalState where
  dirs : Nat → CkptDir Nat
  /-- `latest_iteration` -/
  latestIteration : Int
  control : Control
  /-- In the order of the save calls. -/
  saves : List PendingSave
  /-- The clean-ups in the executors of every rank. -/
  tasks : Nat → List CleanupTask
  /-- The clean-up in the training process. -/
  inline : Nat → Option CleanupTask
  /-- The iterations of all save calls so far. -/
  attempts : List Nat
  outcomes : List Outcome

/-- The processes have just started. -/
def LocalState.fresh (dirs : Nat → CkptDir Nat) : LocalState where
  dirs := dirs
  latestIteration := -1
  control := .idle
  saves := []
  tasks := fun _ => []
  inline := fun _ => none
  attempts := []
  outcomes := []

/-- The clean-up in the training process, or that of an executor. -/
abbrev Place :=
  Option Nat

inductive Event where
  | findLatest
  | load
  | save (iteration : Nat) (isAsync : Bool)
  /-- The next file operation of `_save_fn`. -/
  | write (attempt r : Nat)
  /-- `_save_fn` raises for a reason of its own. -/
  | ioError (attempt r : Nat)
  | finalize
  /-- A clean-up lists the directory. -/
  | list (r : Nat) (place : Place)
  | unlink (r : Nat) (place : Place) (name : FileName)
  /-- A clean-up has removed its files. -/
  | finish (r : Nat) (place : Place)
  /-- A synchronous save returns or raises on all ranks. -/
  | leave
  | restart
  deriving DecidableEq, Repr

namespace LocalState

variable (cfg : Config)

/-- The value of `find_latest`: the cached one if there is one. -/
def findLatest (s : LocalState) : Int :=
  if s.latestIteration ≠ -1 then s.latestIteration else cfg.latest s.dirs

/-! ## The calls of the training processes -/

/-- `save` up to `save_fn`; an iteration that is not newer than the cached one fails the
assertion and starts nothing. -/
def save (s : LocalState) (iteration : Nat) (isAsync : Bool) : Option LocalState :=
  if s.control = .idle ∧ s.latestIteration < iteration then
    some { s with
      latestIteration := -1
      control := if isAsync then .idle else .saving
      saves := s.saves ++ [⟨s.attempts.length, iteration, isAsync,
        fun r => ⟨cfg.shards r, false, false⟩⟩]
      attempts := s.attempts ++ [iteration] }
  else none

/-- The save whose `finalize_fn` is next: the first asynchronous one, or the synchronous one
that is being made. -/
def nextToFinalize (s : LocalState) : Option PendingSave :=
  match s.control with
  | .idle => s.saves.head?
  | .saving => s.saves.getLast?
  | .cleaning _ _ _ => none

/-- `save_fn` has ended on all ranks; a rank on which a synchronous one raised does not come
to the barrier. -/
def readyToFinalize (save : PendingSave) : Bool :=
  (List.range cfg.worldSize).all fun r =>
    (save.writer r).atRest && (save.isAsync || !(save.writer r).failed)

/-- `finalize_fn` on all ranks, up to the clean-up. -/
def finalizeSave (s : LocalState) (save : PendingSave) : LocalState :=
  let validatedLatestIteration := s.findLatest cfg
  let raises : Bool := validatedLatestIteration < save.iteration
  let others := s.saves.filter fun other => other.attempt ≠ save.attempt
  let task : CleanupTask := ⟨save.iteration, raises, none⟩
  if save.isAsync then
    { s with
      latestIteration := -1
      saves := others
      tasks := fun r => s.tasks r ++ [task]
      outcomes := s.outcomes ++ (List.range cfg.worldSize).map fun r =>
        ⟨r, save.iteration, raises, cfg.Lost s.dirs save.iteration⟩ }
  else
    { s with
      latestIteration := -1
      control := .cleaning save.iteration raises (cfg.Lost s.dirs save.iteration)
      saves := others
      inline := fun _ => some task }

/-- `finalize_fn` of the save that is next. -/
def finalize (s : LocalState) : Option LocalState :=
  match s.nextToFinalize with
  | none => none
  | some save => if readyToFinalize cfg save then some (s.finalizeSave cfg save) else none

/-- A synchronous save ends when the clean-up has ended on all ranks. -/
def leave (s : LocalState) : Option LocalState :=
  match s.control with
  | .cleaning _ _ _ =>
    if (List.range cfg.worldSize).all fun r => (s.inline r).isNone then
      some { s with control := .idle }
    else none
  | _ => none

/-! ## Writers -/

/-- The writer of the rank goes on as `writer`. -/
def setWriter (s : LocalState) (attempt r : Nat) (writer : Writer) : LocalState :=
  { s with saves := s.saves.map fun save =>
      if save.attempt = attempt then
        { save with writer := update save.writer r writer }
      else save }

def setDir (s : LocalState) (r : Nat) (dir : CkptDir Nat) : LocalState :=
  { s with dirs := update s.dirs r dir }

/-- The next file operation of the writer: opening the dirty file, which must not exist, or
renaming it once it is written. -/
def writeNext (s : LocalState) (save : PendingSave) (r : Nat) : Option LocalState :=
  match save.writer r with
  | ⟨_, _, true⟩ | ⟨[], _, false⟩ => none
  | ⟨p :: todo, false, false⟩ =>
    if fitsDigits save.iteration = true ∧ ⟨save.iteration, p, true⟩ ∉ (s.dirs r).keys then
      some ((s.setDir r ((s.dirs r).set ⟨save.iteration, p, true⟩ save.attempt)).setWriter
        save.attempt r ⟨p :: todo, true, false⟩)
    else some (s.setWriter save.attempt r ⟨p :: todo, false, true⟩)
  | ⟨p :: todo, true, false⟩ =>
    match (s.dirs r).get? ⟨save.iteration, p, true⟩ with
    | none => some (s.setWriter save.attempt r ⟨p :: todo, true, true⟩)
    | some content =>
      some ((s.setDir r (((s.dirs r).erase ⟨save.iteration, p, true⟩).set
        ⟨save.iteration, p, false⟩ content)).setWriter save.attempt r ⟨todo, false, false⟩)

def findSave (s : LocalState) (attempt : Nat) : Option PendingSave :=
  s.saves.find? fun save => save.attempt = attempt

def write (s : LocalState) (attempt r : Nat) : Option LocalState :=
  if r < cfg.worldSize then (s.findSave attempt).bind fun save => s.writeNext save r else none

def ioError (s : LocalState) (attempt r : Nat) : Option LocalState :=
  if r < cfg.worldSize then
    (s.findSave attempt).bind fun save =>
      if (save.writer r).atRest then none
      else some (s.setWriter attempt r { save.writer r with failed := true })
  else none

/-! ## Clean-ups -/

def getTask (s : LocalState) (r : Nat) : Place → Option CleanupTask
  | none => s.inline r
  | some i => (s.tasks r)[i]?

def putTask (s : LocalState) (r : Nat) (place : Place) (task : CleanupTask) : LocalState :=
  match place with
  | none => { s with inline := update s.inline r (some task) }
  | some i => { s with tasks := update s.tasks r ((s.tasks r).set i task) }

/-- The clean-up ends, with an error of its own or without one.  In an executor's thread
nobody looks; in the training process `finalize_fn` ends. -/
def endTask (s : LocalState) (r : Nat) (place : Place) (error : Bool) : LocalState :=
  match place with
  | none =>
    { s with
      inline := update s.inline r none
      outcomes := match s.control with
        | .cleaning iteration raises lost =>
          s.outcomes ++ [⟨r, iteration, raises || error, lost⟩]
        | _ => s.outcomes }
  | some i => { s with tasks := update s.tasks r ((s.tasks r).eraseIdx i) }

/-- `glob`; the pattern of a failed save has the digits of its iteration. -/
def listTask (s : LocalState) (r : Nat) (place : Place) (task : CleanupTask) :
    Option LocalState :=
  match task.rmCkpts with
  | some _ => none
  | none =>
    if task.failedSave = true ∧ fitsDigits task.iteration = false then
      some (s.endTask r place true)
    else some (s.putTask r place
      { task with rmCkpts := some ((s.dirs r).keys.filter task.removes) })

/-- `ckpt.unlink()` -/
def unlinkFile (s : LocalState) (r : Nat) (place : Place) (name : FileName)
    (task : CleanupTask) : Option LocalState :=
  match task.rmCkpts with
  | none => none
  | some names =>
    if name ∉ names then none
    else if name ∈ (s.dirs r).keys then
      some ((s.setDir r ((s.dirs r).erase name)).putTask r place
        { task with rmCkpts := some (names.erase name) })
    else some (s.endTask r place true)

def finishTask (s : LocalState) (r : Nat) (place : Place) (task : CleanupTask) :
    Option LocalState :=
  if task.rmCkpts = some [] then some (s.endTask r place false) else none

/-- What a rank does with one of its clean-ups. -/
def withTask (s : LocalState) (r : Nat) (place : Place)
    (f : CleanupTask → Option LocalState) : Option LocalState :=
  if r < cfg.worldSize then (s.getTask r place).bind f else none

/-! ## Steps -/

def step (s : LocalState) : Event → Option LocalState
  | .findLatest =>
    if s.control = .idle then some { s with latestIteration := s.findLatest cfg } else none
  | .load => if s.control = .idle then some s else none
  | .save iteration isAsync => s.save cfg iteration isAsync
  | .write attempt r => s.write cfg attempt r
  | .ioError attempt r => s.ioError cfg attempt r
  | .finalize => s.finalize cfg
  | .list r place => s.withTask cfg r place (s.listTask r place)
  | .unlink r place name => s.withTask cfg r place (s.unlinkFile r place name)
  | .finish r place => s.withTask cfg r place (s.finishTask r place)
  | .leave => s.leave cfg
  | .restart =>
    some { s with
      latestIteration := -1
      control := .idle
      saves := []
      tasks := fun _ => []
      inline := fun _ => none }

end LocalState

/-- The saves of all ranks, from directories with `D`. -/
def localSaves (cfg : Config) (D : (Nat → CkptDir Nat) → Prop) : System LocalState Event where
  init s := ∃ dirs, D dirs ∧ s = .fresh dirs
  step s e := s.step cfg e

end ResiliencyExt.Checkpointing.Local
