import ResiliencyExt.Foundation.Counting
import ResiliencyExt.Foundation.Dict
import ResiliencyExt.Foundation.System

set_option autoImplicit false

/-!
# Tracked jobs: submits, analyses and pending checks

`TrackedJobs` with the parts of `LogAnalyzer.submit` and `Analyzer.analyze` that
classify jobs.  Any number of threads run these; one step is one section under
`_jobs_lock`, or one access to shared state outside it, or one call.  The log
files, the directories and the clock are the environment, which chooses what a
thread finds: whether a pending job is too old, and whether its log names a
directory that can be read.  Thread 0 is the polling thread of the split-log
tracker, the only one that removes old jobs.

A job is known by its number, the order of creation.  How it was created, what
has been made of it since and how often `initialize_job` has finished for it are
recorded for the statements; no step reads these records.  The counters of
permission errors are left out.
-/

namespace ResiliencyExt.Attribution.Tracking

open Foundation

inductive JobMode
  | pending
  | single
  | splitlog
  deriving DecidableEq, Repr

/-- What becomes of a pending job. -/
inductive Outcome
  | splitlog
  | single
  | expired
  deriving DecidableEq, Repr

/-- The fields of a `Job` that decide about its mode, and the records. -/
structure Job where
  path : String
  mode : JobMode
  origin : JobMode
  outcomes : List Outcome
  initialized : Nat
  deriving DecidableEq, Repr

/-- The jobs that were created, and `_jobs`. -/
structure JobTable where
  jobs : List Job
  registered : Dict String Nat

namespace JobTable

def empty : JobTable where
  jobs := []
  registered := .empty

def modeOf (d : JobTable) (j : Nat) : Option JobMode :=
  d.jobs[j]?.map Job.mode

def initializedOf (d : JobTable) (j : Nat) : Nat :=
  (d.jobs[j]?.map Job.initialized).getD 0

/-- `self._jobs.get(job.path) is job` -/
def IsRegistered (d : JobTable) (j : Nat) : Prop :=
  (d.jobs[j]?.bind fun job => d.registered.get? job.path) = some j

instance (d : JobTable) (j : Nat) : Decidable (d.IsRegistered j) :=
  inferInstanceAs (Decidable (_ = _))

/-- A split-log job is registered for the path. -/
def HoldsSplitlog (d : JobTable) (path : String) : Prop :=
  (d.registered.get? path).bind d.modeOf = some .splitlog

instance (d : JobTable) (path : String) : Decidable (d.HoldsSplitlog path) :=
  inferInstanceAs (Decidable (_ = _))

/-- `[j for j in self._jobs.values() if j.is_pending()]` -/
def pendingJobs (d : JobTable) : List Nat :=
  (d.registered.entries.map Prod.snd).filter fun j => d.modeOf j = some .pending

/-- `pending_job_count` -/
def pendingJobCount (d : JobTable) : Nat :=
  d.pendingJobs.length

/-- `self._jobs[validated] = job` for a new job. -/
def register (d : JobTable) (path : String) (mode : JobMode) : JobTable where
  jobs := d.jobs ++ [⟨path, mode, mode, [], 0⟩]
  registered := d.registered.set path d.jobs.length

/-- The mode of a job is set: `promote_to_splitlog` and `demote_to_single`. -/
def classify (d : JobTable) (j : Nat) (mode : JobMode) (outcome : Outcome) : JobTable :=
  { d with jobs := d.jobs.modify j fun job =>
      { job with mode := mode, outcomes := job.outcomes ++ [outcome] } }

/-- `del self._jobs[job.path]` for a job that has expired. -/
def expire (d : JobTable) (j : Nat) : JobTable where
  jobs := d.jobs.modify j fun job => { job with outcomes := job.outcomes ++ [.expired] }
  registered := match d.jobs[j]? with
    | some job => d.registered.erase job.path
    | none => d.registered

/-- `initialize_job` has finished. -/
def initializeJob (d : JobTable) (j : Nat) : JobTable :=
  { d with jobs := d.jobs.modify j fun job => { job with initialized := job.initialized + 1 } }

/-- `cleanup_job` -/
def cleanupJob (d : JobTable) (path : String) : JobTable :=
  { d with registered := d.registered.erase path }

end JobTable

/-- What follows a pending check. -/
inductive After
  | finish
  /-- `Analyzer.analyze` looks the job up again. -/
  | analyze (path : String)
  deriving DecidableEq, Repr

/-- Where a thread is. -/
inductive Pc
  | idle
  /-- `handle_existing_job` tests `job.is_splitlog()`. -/
  | existing (j : Nat)
  /-- `handle_existing_job` tests `job.is_pending()`. -/
  | existingPending (j : Nat)
  | creating (path : String)
  /-- `create_new_job` has counted a job that is not pending. -/
  | registering (path : String) (mode : JobMode)
  | initializingNew (j : Nat)
  /-- At the beginning of `check_pending_jobs`. -/
  | snapshot (after : After)
  /-- In its loop, with `expired_count`. -/
  | checking (remaining : List Nat) (expired : Nat) (after : After)
  | expiring (j : Nat) (remaining : List Nat) (expired : Nat) (after : After)
  | promoting (j : Nat) (remaining : List Nat) (expired : Nat) (after : After)
  | initializing (j : Nat) (remaining : List Nat) (expired : Nat) (after : After)
  | counting (remaining : List Nat) (expired : Nat) (after : After)
  /-- `analyze` has looked up the job and reads its mode. -/
  | reading (j : Nat) (path : String)
  | looking (path : String)
  | rereading (j : Nat)
  | demoting (j : Nat)
  | recording
  /-- `_cleanup_expired_jobs` -/
  | cleaning (paths : List String)
  deriving DecidableEq, Repr

/-- What the environment chooses for a thread. -/
inductive Choice
  | submit (path : String)
  | analyze (path : String)
  | check
  | cleanUp (paths : List String)
  | go
  /-- A job is created with this mode; no job when the logs directory cannot be read. -/
  | create (mode : Option JobMode)
  | expire
  | keep
  | promote
  /-- `initialize_job` raises. -/
  | fail
  deriving DecidableEq, Repr

structure TrackedJobs where
  table : JobTable
  totalSplitlog : Nat
  totalSingle : Nat
  deferredSplitlog : Nat
  deferredSingle : Nat
  pendingExpired : Nat
  threads : Nat → Pc

namespace TrackedJobs

def move (t : TrackedJobs) (p : Nat) (pc : Pc) : TrackedJobs :=
  { t with threads := Function.update t.threads p pc }

def withTable (t : TrackedJobs) (table : JobTable) : TrackedJobs :=
  { t with table := table }

/-- A job with this mode is counted before it is registered, unless it is pending. -/
def countNew (t : TrackedJobs) : JobMode → TrackedJobs
  | .splitlog => { t with totalSplitlog := t.totalSplitlog + 1 }
  | .single => { t with totalSingle := t.totalSingle + 1 }
  | .pending => t

def countPromoted (t : TrackedJobs) : TrackedJobs :=
  { t with totalSplitlog := t.totalSplitlog + 1, deferredSplitlog := t.deferredSplitlog + 1 }

/-- `record_deferred_single_demotion` -/
def recordDeferredSingleDemotion (t : TrackedJobs) : TrackedJobs :=
  { t with totalSingle := t.totalSingle + 1, deferredSingle := t.deferredSingle + 1 }

def countExpired (t : TrackedJobs) (expired : Nat) : TrackedJobs :=
  { t with pendingExpired := t.pendingExpired + expired }

/-- The jobs whose paths are to be cleaned up are split-log jobs. -/
def MayCleanUp (t : TrackedJobs) (paths : List String) : Prop :=
  paths.Nodup ∧ ∀ path ∈ paths, t.table.HoldsSplitlog path

instance (t : TrackedJobs) (paths : List String) : Decidable (t.MayCleanUp paths) :=
  inferInstanceAs (Decidable (_ ∧ _))

/-- A thread begins an operation. -/
def start (t : TrackedJobs) (p : Nat) : Choice → Option TrackedJobs
  | .submit path =>
    match t.table.registered.get? path with
    | some j => some (t.move p (.existing j))
    | none => some (t.move p (.creating path))
  | .analyze path =>
    match t.table.registered.get? path with
    | some j => some (t.move p (.reading j path))
    | none => some t
  | .check => some (t.move p (.snapshot .finish))
  | .cleanUp paths =>
    if p = 0 ∧ t.MayCleanUp paths then some (t.move p (.cleaning paths)) else none
  | _ => none

/-- The step of a thread that does not depend on the environment. -/
def go (t : TrackedJobs) (p : Nat) : Option TrackedJobs :=
  match t.threads p with
  | .existing j =>
    some (t.move p (if t.table.modeOf j = some .splitlog then .idle else .existingPending j))
  | .existingPending j =>
    some (t.move p (if t.table.modeOf j = some .pending then .snapshot .finish else .idle))
  | .registering path mode =>
    some ((t.withTable (t.table.register path mode)).move p
      (if mode = .splitlog then .initializingNew t.table.jobs.length else .idle))
  | .initializingNew j => some ((t.withTable (t.table.initializeJob j)).move p .idle)
  | .snapshot after => some (t.move p (.checking t.table.pendingJobs 0 after))
  | .checking [] expired after =>
    some ((t.countExpired expired).move p (match after with
      | .finish => .idle
      | .analyze path => .looking path))
  | .expiring j remaining expired after =>
    some (if t.table.IsRegistered j then
      (t.withTable (t.table.expire j)).move p (.checking remaining (expired + 1) after)
    else t.move p (.checking remaining expired after))
  | .promoting j remaining expired after =>
    some (if t.table.IsRegistered j then
      (t.withTable (t.table.classify j .splitlog .splitlog)).move p
        (.initializing j remaining expired after)
    else t.move p (.checking remaining expired after))
  | .initializing j remaining expired after =>
    some ((t.withTable (t.table.initializeJob j)).move p (.counting remaining expired after))
  | .counting remaining expired after =>
    some (t.countPromoted.move p (.checking remaining expired after))
  | .reading j path =>
    some (t.move p (if t.table.modeOf j = some .pending then .snapshot (.analyze path)
      else .idle))
  | .looking path =>
    some (t.move p (match t.table.registered.get? path with
      | some j => .rereading j
      | none => .idle))
  | .rereading j =>
    some (t.move p (if t.table.modeOf j = some .pending then .demoting j else .idle))
  | .demoting j => some ((t.withTable (t.table.classify j .single .single)).move p .recording)
  | .recording => some (t.recordDeferredSingleDemotion.move p .idle)
  | .cleaning [] => some (t.move p .idle)
  | .cleaning (path :: paths) =>
    some ((t.withTable (t.table.cleanupJob path)).move p (.cleaning paths))
  | _ => none

/-- One step of a thread. -/
def stepThread (t : TrackedJobs) (p : Nat) (choice : Choice) : Option TrackedJobs :=
  match choice, t.threads p with
  | .go, _ => t.go p
  | .create none, .creating _ => some (t.move p .idle)
  | .create (some mode), .creating path =>
    some ((t.countNew mode).move p (.registering path mode))
  | .expire, .checking (j :: remaining) expired after =>
    some (t.move p (.expiring j remaining expired after))
  | .keep, .checking (_ :: remaining) expired after =>
    some (t.move p (.checking remaining expired after))
  | .promote, .checking (j :: remaining) expired after =>
    some (t.move p (.promoting j remaining expired after))
  | .fail, .initializingNew _ => some (t.move p .idle)
  | .fail, .initializing _ _ _ _ => some (t.move p .idle)
  | choice, .idle => t.start p choice
  | _, _ => none

/-- Nothing has been submitted yet. -/
def fresh : TrackedJobs where
  table := .empty
  totalSplitlog := 0
  totalSingle := 0
  deferredSplitlog := 0
  deferredSingle := 0
  pendingExpired := 0
  threads _ := .idle

/-- The threads `members` at work on the jobs. -/
def system (members : Finset Nat) : System TrackedJobs (Nat × Choice) where
  init t := t = fresh
  step t action := if action.1 ∈ members then t.stepThread action.1 action.2 else none

end TrackedJobs

/-! ## Classification -/

/-- A job that was created pending has left that mode at most once and keeps its new mode; while
it is pending it is registered, and when it has expired it is not.  Any other job keeps the
mode that it was created with. -/
def Job.Classified (job : Job) (isRegistered : Prop) : Prop :=
  match job.origin with
  | .pending =>
    job.outcomes = [] ∧ job.mode = .pending ∧ isRegistered ∨
      job.outcomes = [.splitlog] ∧ job.mode = .splitlog ∨
      job.outcomes = [.single] ∧ job.mode = .single ∨
      job.outcomes = [.expired] ∧ job.mode = .pending ∧ ¬ isRegistered
  | mode => job.outcomes = [] ∧ job.mode = mode

/-- How often `initialize_job` is due for a job. -/
def JobTable.splitlogOf (d : JobTable) (j : Nat) : Nat :=
  if d.modeOf j = some .splitlog then 1 else 0

namespace TrackedJobs

/-- No thread is in the middle of an operation. -/
def Quiescent (members : Finset Nat) (t : TrackedJobs) : Prop :=
  ∀ p ∈ members, t.threads p = .idle

/-- Each job is classified once, and initialized once if it is a split-log job; when no
operation is under way the counters add up. -/
structure ClassifiedOnce (members : Finset Nat) (t : TrackedJobs) : Prop where
  classified : ∀ (j : Nat) (job : Job), t.table.jobs[j]? = some job →
    job.Classified (t.table.IsRegistered j)
  initialized_le : ∀ j, t.table.initializedOf j ≤ t.table.splitlogOf j
  initialized : t.Quiescent members → ∀ j, t.table.initializedOf j = t.table.splitlogOf j
  counted : t.Quiescent members →
    t.totalSplitlog + t.totalSingle + t.table.pendingJobCount + t.pendingExpired =
      t.table.jobs.length

/-- The tests that the code leaves out: a job that is promoted, expired or demoted is still
pending, the demoted one still registered, no job is registered in another's place, and
`initialize_job` does not raise. -/
def Rechecked (t : TrackedJobs) (action : Nat × Choice) : Prop :=
  match action.2, t.threads action.1 with
  | .go, .registering path _ => t.table.registered.get? path = none
  | .go, .promoting j _ _ _ => t.table.IsRegistered j → t.table.modeOf j = some .pending
  | .go, .expiring j _ _ _ => t.table.IsRegistered j → t.table.modeOf j = some .pending
  | .go, .demoting j => t.table.IsRegistered j ∧ t.table.modeOf j = some .pending
  | .fail, _ => False
  | _, _ => True

instance (t : TrackedJobs) (action : Nat × Choice) : Decidable (t.Rechecked action) := by
  unfold Rechecked
  split <;> infer_instance

end TrackedJobs

end ResiliencyExt.Attribution.Tracking
