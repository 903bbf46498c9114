import ResiliencyExt.FaultTolerance.CycleInfo.Directory
import ResiliencyExt.Foundation.System

set_option autoImplicit false

/-!
# Cycle info: the writer and its thread

`CycleInfoWriter` with the thread that works its queue off.  The calls come from one
thread, one after another; between any two of their steps the worker may take any number
of its own.  `shutdown` sets its flag, puts the last update into the queue and then the
shutdown task, while the worker ends as soon as it finds the flag set and the queue empty.
-/

namespace ResiliencyExt.FaultTolerance.CycleInfo

open Foundation

/-- `_CycleInfoTask` -/
inductive Task where
  | create (p : CyclePayload)
  | update (id : CycleId) (cycleEndTime : IsoTime)
  | shutdown

/-- A call of the writer; `now` is what `utc_iso_now` returns in it. -/
inductive WriterCall where
  | writeCycleStart (p : CyclePayload)
  | updateCycleEnd (id : CycleId) (cycleEndTime : IsoTime)
  | shutdown (now : IsoTime)

/-- Where the calling thread is. -/
inductive Phase where
  /-- Before the next call. -/
  | ready
  /-- In `shutdown`, after the flag has been set. -/
  | closing (now : IsoTime)
  /-- In `shutdown`, before the shutdown task is put. -/
  | signalling
  /-- In `shutdown`, at `join`. -/
  | joining

/-- Where the thread of the writer is. -/
inductive WorkerPhase where
  /-- At the top of the loop. -/
  | checking
  /-- In `get`. -/
  | waiting
  /-- In `get_nowait`. -/
  | polling
  | busy (task : Task)
  | exited

structure State where
  calls : List WriterCall
  phase : Phase
  shutdownRequested : Bool
  currentCycle : Option CycleId
  queue : List Task
  worker : WorkerPhase
  dir : Directory
  /-- Whether a `shutdown` has returned. -/
  returned : Bool
  /-- The cycles whose start was accepted. -/
  started : List CyclePayload
  /-- The writes that the calls have asked for, in their order. -/
  requested : List Write
  /-- The writes of the thread, in their order. -/
  log : List Write

def State.start (calls : List WriterCall) (dir : Directory) : State where
  calls := calls
  phase := .ready
  shutdownRequested := false
  currentCycle := none
  queue := []
  worker := .checking
  dir := dir
  returned := false
  started := []
  requested := []
  log := []

namespace State

/-! ## The calls -/

/-- `write_cycle_start` -/
def writeCycleStart (s : State) (p : CyclePayload) : State :=
  if s.shutdownRequested then s
  else
    { s with
      currentCycle := some p.id
      queue := s.queue ++ [.create p]
      started := s.started ++ [p]
      requested := s.requested ++ [.created p] }

/-- `update_cycle_end` -/
def updateCycleEnd (s : State) (id : CycleId) (cycleEndTime : IsoTime) : State :=
  if s.shutdownRequested then s
  else
    { s with
      currentCycle := if s.currentCycle = some id then none else s.currentCycle
      queue := s.queue ++ [.update id cycleEndTime]
      requested := s.requested ++ [.updated id cycleEndTime] }

/-- The last update, which `shutdown` puts for a cycle that has not ended. -/
def closeCycle (s : State) (now : IsoTime) : State :=
  match s.currentCycle with
  | none => s
  | some id =>
    { s with
      currentCycle := none
      queue := s.queue ++ [.update id now]
      requested := s.requested ++ [.updated id now] }

/-- The next step of the calling thread. -/
def main (s : State) : Option State :=
  match s.phase with
  | .ready =>
    match s.calls with
    | [] => none
    | .writeCycleStart p :: rest => some { s.writeCycleStart p with calls := rest }
    | .updateCycleEnd id cycleEndTime :: rest =>
      some { s.updateCycleEnd id cycleEndTime with calls := rest }
    | .shutdown now :: rest =>
      some { s with shutdownRequested := true, phase := .closing now, calls := rest }
  | .closing now => some { s.closeCycle now with phase := .signalling }
  | .signalling => some { s with queue := s.queue ++ [.shutdown], phase := .joining }
  | .joining =>
    match s.worker with
    | .exited => some { s with phase := .ready, returned := true }
    | _ => none

/-! ## The thread -/

/-- A task of the queue. -/
def perform (s : State) : Task → State
  | .create p =>
    { s with dir := (doCreate s.dir p).1, log := s.log ++ (doCreate s.dir p).2 }
  | .update id cycleEndTime =>
    { s with
      dir := (doUpdate s.dir id cycleEndTime).1
      log := s.log ++ (doUpdate s.dir id cycleEndTime).2 }
  | .shutdown => s

/-- The next step of `_worker`. -/
def work (s : State) : Option State :=
  match s.worker with
  | .checking => some { s with worker := if s.shutdownRequested then .polling else .waiting }
  | .waiting =>
    match s.queue with
    | [] => none
    | task :: rest => some { s with queue := rest, worker := .busy task }
  | .polling =>
    match s.queue with
    | [] => some { s with worker := .exited }
    | task :: rest => some { s with queue := rest, worker := .busy task }
  | .busy task => some { s.perform task with worker := .checking }
  | .exited => none

end State

inductive Thread where
  | main
  | worker
  deriving DecidableEq, Repr

def State.step (s : State) : Thread → Option State
  | .main => s.main
  | .worker => s.work

/-! ## The callers -/

/-- The calls have distinct cycle numbers, and each cycle is ended at most once and, unless it is
the last, before the next one starts.  Where `closes` is set, no cycle is open at `shutdown`. -/
def Orderly (closes : Bool) : Option CycleId → List Int → List WriterCall → Prop
  | _, _, [] => True
  | current, numbers, .writeCycleStart p :: rest =>
    current = none ∧ p.id.cycleNumber ∉ numbers ∧
      Orderly closes (some p.id) (p.id.cycleNumber :: numbers) rest
  | current, numbers, .updateCycleEnd id _ :: rest =>
    current = some id ∧ Orderly closes none numbers rest
  | current, _, .shutdown _ :: _ => closes = true → current = none

/-- `CycleInfoRoundSnapshot`, with the job id and the attempt index that
`_resolve_file_namespace` returns for it and the texts that are made of its addresses. -/
structure CycleInfoRoundSnapshot where
  id : CycleId
  cycleLogFile : String
  activeNodes : String
  standbyNodes : String
  activeRanks : String

inductive ReporterCall where
  /-- The times are those of the end of the previous cycle and of the start. -/
  | reportCycleStart (snapshot : CycleInfoRoundSnapshot) (endNow startNow : IsoTime)
  | reportCycleEnd (now : IsoTime)
  | shutdown (endNow now : IsoTime)

/-- `CycleInfoReporter` -/
structure Reporter where
  currentCycle : Option CycleId
  startedCycles : List Int
  shutdown : Bool

namespace Reporter

def new : Reporter :=
  ⟨none, [], false⟩

/-- `report_cycle_end` -/
def reportCycleEnd (r : Reporter) (now : IsoTime) : Reporter × List WriterCall :=
  if r.shutdown then (r, [])
  else
    match r.currentCycle with
    | none => (r, [])
    | some id => ({ r with currentCycle := none }, [.updateCycleEnd id now])

def payload (snapshot : CycleInfoRoundSnapshot) (now : IsoTime) : CyclePayload where
  id := snapshot.id
  cycleStartTime := now
  cycleLogFile := snapshot.cycleLogFile
  activeNodes := snapshot.activeNodes
  standbyNodes := snapshot.standbyNodes
  activeRanks := snapshot.activeRanks

/-- `report_cycle_start` -/
def reportCycleStart (r : Reporter) (snapshot : CycleInfoRoundSnapshot)
    (endNow startNow : IsoTime) : Reporter × List WriterCall :=
  if r.shutdown then (r, [])
  else if snapshot.id.cycleNumber ∈ r.startedCycles then (r, [])
  else
    let ended := if r.currentCycle.isSome then r.reportCycleEnd endNow else (r, [])
    ({ ended.1 with
        currentCycle := some snapshot.id
        startedCycles := snapshot.id.cycleNumber :: ended.1.startedCycles },
      ended.2 ++ [.writeCycleStart (payload snapshot startNow)])

/-- One call, with the calls of the writer that it makes. -/
def call (r : Reporter) : ReporterCall → Reporter × List WriterCall
  | .reportCycleStart snapshot endNow startNow => r.reportCycleStart snapshot endNow startNow
  | .reportCycleEnd now => r.reportCycleEnd now
  | .shutdown endNow now =>
    if r.shutdown then (r, [])
    else
      let ended := r.reportCycleEnd endNow
      ({ ended.1 with shutdown := true }, ended.2 ++ [.shutdown now])

def writerCalls (r : Reporter) : List ReporterCall → List WriterCall
  | [] => []
  | c :: rest => (r.call c).2 ++ (r.call c).1.writerCalls rest

end Reporter

/-- Who makes the calls. -/
inductive Client where
  | writer (calls : List WriterCall) (orderly : Orderly false none [] calls)
  | reporter (calls : List ReporterCall)

namespace Client

def writerCalls : Client → List WriterCall
  | .writer calls _ => calls
  | .reporter calls => Reporter.new.writerCalls calls

/-- The reporter ends the current cycle itself before it shuts the writer down. -/
def closes : Client → Bool
  | .writer .. => false
  | .reporter _ => true

/-- The writer of a client, in a directory with any content. -/
def system (client : Client) : System State Thread where
  init s := ∃ dir, s = .start client.writerCalls dir
  step := State.step

end Client

/-! ## What the reporter ensures -/

theorem Reporter.orderly_writerCalls (calls : List ReporterCall) :
    ∀ {r : Reporter}, r.shutdown = false →
      Orderly true r.currentCycle r.startedCycles (r.writerCalls calls) := by
  induction calls with
  | nil => exact fun _ => trivial
  | cons c rest ih =>
    intro r h
    have hnot : ¬ r.shutdown = true := by simp [h]
    cases c with
    | reportCycleStart snapshot endNow startNow =>
      rw [writerCalls, call]
      by_cases hknown : snapshot.id.cycleNumber ∈ r.startedCycles
      · rw [reportCycleStart, if_neg hnot, if_pos hknown]
        exact ih h
      · let next : Reporter := { r with
          currentCycle := some snapshot.id
          startedCycles := snapshot.id.cycleNumber :: r.startedCycles }
        have hnext := ih (r := next) h
        rw [reportCycleStart, if_neg hnot, if_neg hknown]
        cases hcurrent : r.currentCycle with
        | none => exact ⟨rfl, hknown, hnext⟩
        | some id =>
          simp only [Option.isSome_some, if_true, reportCycleEnd, if_neg hnot, hcurrent]
          exact ⟨rfl, rfl, hknown, hnext⟩
    | reportCycleEnd now =>
      rw [writerCalls, call, reportCycleEnd, if_neg hnot]
      cases hcurrent : r.currentCycle with
      | none =>
        have hrest := ih h
        rw [hcurrent] at hrest
        exact hrest
      | some id => exact ⟨rfl, ih (r := { r with currentCycle := none }) h⟩
    | shutdown endNow now =>
      rw [writerCalls, call, if_neg hnot, reportCycleEnd, if_neg hnot]
      cases hcurrent : r.currentCycle with
      | none => exact fun _ => rfl
      | some id => exact ⟨rfl, fun _ => rfl⟩

/-- The calls of every client are orderly. -/
theorem Client.orderly (client : Client) :
    Orderly client.closes none [] client.writerCalls := by
  cases client with
  | writer calls orderly => exact orderly
  | reporter calls => exact Reporter.orderly_writerCalls calls (r := .new) rfl

end ResiliencyExt.FaultTolerance.CycleInfo
