import Mathlib.Data.List.Infix
import ResiliencyExt.Foundation.Dict
import ResiliencyExt.Foundation.System

set_option autoImplicit false

/-!
# The SLURM job monitor

`SlurmJobMonitor._poll_and_process` with the handlers of its requests.  A poll is one
function of one thread: the job records are replaced while it reads the snapshot of
squeue, and the requests for the records it has collected come after that, so that a
record is told by the id of its job.
-/

namespace ResiliencyExt.Services.Smonsvc

open Foundation

inductive JobState where
  | pending
  | running
  | completing
  | completed
  | failed
  | cancelled
  | timeout
  | nodeFail
  | preempted
  | outOfMemory
  | suspended
  | unknown
  /-- The job has left squeue and its final state is not known. -/
  | finished
  deriving DecidableEq, Repr

/-- `is_terminal` -/
def JobState.isTerminal (state : JobState) : Bool :=
  state ∈ [.completed, .failed, .cancelled, .timeout, .nodeFail, .preempted, .outOfMemory,
    .finished]

/-- The fields of `SLURM_JOB_TRACKING_FIELDS`. -/
structure Tracking where
  logSubmitted : Bool
  postSuccess : Bool
  resultFetched : Bool
  terminalSignaled : Bool
  pathFetchAttempted : Bool
  getAttempts : Nat
  deriving DecidableEq, Repr

def Tracking.fresh : Tracking :=
  ⟨false, false, false, false, false, 0⟩

structure SlurmJob where
  jobId : String
  name : String
  user : String
  partition : String
  state : JobState
  stdoutPath : String
  stderrPath : String
  tracking : Tracking
  lastState : Option JobState
  deriving DecidableEq, Repr

/-- What a snapshot of squeue says of a job. -/
structure JobInfo where
  name : String
  user : String
  partition : String
  state : JobState
  stdoutPath : String
  stderrPath : String
  deriving DecidableEq, Repr

/-- The fresh record of `_get_slurm_jobs`. -/
def JobInfo.record (jobId : String) (info : JobInfo) : SlurmJob where
  jobId := jobId
  name := info.name
  user := info.user
  partition := info.partition
  state := info.state
  stdoutPath := info.stdoutPath
  stderrPath := info.stderrPath
  tracking := .fresh
  lastState := none

/-- `copy_tracking_fields` -/
def copyTrackingFields (prev into : SlurmJob) : SlurmJob :=
  { into with tracking := prev.tracking, lastState := some prev.state }

/-- The counters of `MonitorState` that the polls and the handlers change. -/
structure Counters where
  jobsSeen : Nat
  withOutputPath : Nat
  logsSubmitted : Nat
  postSuccess : Nat
  resultsFetched : Nat
  pathErrorsPermission : Nat
  pathErrorsNotFound : Nat
  pathErrorsEmpty : Nat
  pathErrorsUnexpanded : Nat
  pathErrorsOther : Nat
  httpRateLimited : Nat
  deriving DecidableEq, Repr

def Counters.zero : Counters :=
  ⟨0, 0, 0, 0, 0, 0, 0, 0, 0, 0, 0⟩

/-- The counters of which a job has at most one each. -/
inductive Counter where
  | logsSubmitted
  | postSuccess
  | resultsFetched
  deriving DecidableEq, Repr

def Counters.increment (c : Counters) : Counter → Counters
  | .logsSubmitted => { c with logsSubmitted := c.logsSubmitted + 1 }
  | .postSuccess => { c with postSuccess := c.postSuccess + 1 }
  | .resultsFetched => { c with resultsFetched := c.resultsFetched + 1 }

inductive Callback where
  | success
  | clientError
  | notFound
  deriving DecidableEq, Repr

/-- What happens to a job while it is tracked. -/
inductive Event where
  | submission
  | submissionEnded (callback : Callback)
  | collected (state : JobState)
  | terminal
  | get
  /-- `result_fetched` is set. -/
  | recorded
  | counted (counter : Counter)
  deriving DecidableEq, Repr

structure Monitor where
  jobs : Dict String SlurmJob
  counters : Counters
  /-- The number of the next request. -/
  requests : Nat
  /-- The events of each job since it is tracked. -/
  history : String → List Event

def Monitor.start : Monitor where
  jobs := .empty
  counters := .zero
  requests := 0
  history _ := []

structure Config where
  maxAttempts : Nat
  maxCompletedJobs : Nat
  maxGetAttempts : Nat
  matchesFilters : SlurmJob → Bool
  /-- `expand_slurm_patterns`, and whether patterns remain in the result. -/
  expandSlurmPatterns : SlurmJob → String × Bool

namespace Monitor

/-- Change the record of a tracked job. -/
def modify (m : Monitor) (jobId : String) (f : SlurmJob → SlurmJob) : Monitor :=
  match m.jobs.get? jobId with
  | none => m
  | some job => { m with jobs := m.jobs.set jobId (f job) }

def track (m : Monitor) (jobId : String) (f : Tracking → Tracking) : Monitor :=
  m.modify jobId fun job => { job with tracking := f job.tracking }

def happen (m : Monitor) (jobId : String) (event : Event) : Monitor :=
  { m with history := fun id => if id = jobId then m.history id ++ [event] else m.history id }

/-- Increment a counter for a job. -/
def count (m : Monitor) (jobId : String) (counter : Counter) : Monitor :=
  { m with counters := m.counters.increment counter }.happen jobId (.counted counter)

end Monitor

/-! ## Requests -/

/-- The JSON of a response. -/
inductive Json where
  | invalid
  | object
  | other
  deriving DecidableEq, Repr

/-- How one attempt of a request ends. -/
inductive Attempt where
  | connectError
  /-- Any other exception. -/
  | raised
  /-- The error message may be no string; the wait of a `Retry-After` may raise. -/
  | response (statusCode : Nat) (json : Json) (errorMsg : Option String) (waitRaises : Bool)
  deriving DecidableEq, Repr

/-- The callbacks of a request. -/
structure Callbacks where
  onSuccess : Json → Monitor → Monitor
  onClientError : Option String → Monitor → Monitor
  on404 : Option (Monitor → Monitor)

/-- `request_with_retry` from one of its attempts on; an exception in a callback ends it like a
return. -/
def requestWithRetry (callbacks : Callbacks) (attempts : Nat → Attempt) :
    Nat → Nat → Monitor → Monitor
  | 0, _, m => callbacks.onClientError (some "max retries exceeded") m
  | remaining + 1, attempt, m =>
    match attempts attempt with
    | .connectError => requestWithRetry callbacks attempts remaining (attempt + 1) m
    | .raised => m
    | .response statusCode json errorMsg waitRaises =>
      if statusCode = 200 then callbacks.onSuccess json m
      else if statusCode = 429 then
        let m := { m with counters :=
          { m.counters with httpRateLimited := m.counters.httpRateLimited + 1 } }
        if waitRaises then m
        else requestWithRetry callbacks attempts remaining (attempt + 1) m
      else if 500 ≤ statusCode then
        requestWithRetry callbacks attempts remaining (attempt + 1) m
      else
        match statusCode, callbacks.on404 with
        | 404, some on404 => on404 m
        | _, _ => callbacks.onClientError errorMsg m

/-- The replies to all requests, by their numbers. -/
abbrev Replies :=
  Nat → Nat → Attempt

/-- A request with the next number. -/
def request (cfg : Config) (replies : Replies) (callbacks : Callbacks) (m : Monitor) : Monitor :=
  requestWithRetry callbacks (replies m.requests) cfg.maxAttempts 0
    { m with requests := m.requests + 1 }

/-- `categorize_path_error`; where the message is no string it raises. -/
def categorizePathError (errorMsg : Option String) (m : Monitor) : Monitor :=
  match errorMsg with
  | none => m
  | some text =>
    let lower := text.toLower.toList
    let c := m.counters
    { m with counters :=
        if "permission denied".toList <:+: lower then
          { c with pathErrorsPermission := c.pathErrorsPermission + 1 }
        else if "not found".toList <:+: lower then
          { c with pathErrorsNotFound := c.pathErrorsNotFound + 1 }
        else if "empty".toList <:+: lower then
          { c with pathErrorsEmpty := c.pathErrorsEmpty + 1 }
        else { c with pathErrorsOther := c.pathErrorsOther + 1 } }

/-! ## Handlers -/

/-- What all callbacks of a submission do first. -/
def endSubmission (jobId : String) (callback : Callback) (m : Monitor) : Monitor :=
  ((m.happen jobId (.submissionEnded callback)).track jobId
    fun tr => { tr with logSubmitted := true }).count jobId .logsSubmitted

def submitCallbacks (jobId : String) : Callbacks where
  onSuccess json m :=
    let m := endSubmission jobId .success m
    match json with
    | .object => (m.track jobId fun tr => { tr with postSuccess := true }).count jobId .postSuccess
    -- the JSON does not parse, or has no `get`
    | _ => m
  onClientError errorMsg m := categorizePathError errorMsg (endSubmission jobId .clientError m)
  on404 := some fun m =>
    let m := endSubmission jobId .notFound m
    { m with counters :=
      { m.counters with pathErrorsNotFound := m.counters.pathErrorsNotFound + 1 } }

/-- `submit_log` -/
def submitLog (cfg : Config) (replies : Replies) (m : Monitor) (jobId : String) : Monitor :=
  request cfg replies (submitCallbacks jobId) (m.happen jobId .submission)

/-- The callbacks of the terminal request only log. -/
def terminalCallbacks : Callbacks where
  onSuccess _ m := m
  onClientError _ m := m
  on404 := none

def recordResult (jobId : String) (m : Monitor) : Monitor :=
  ((m.happen jobId .recorded).track jobId
    fun tr => { tr with resultFetched := true }).count jobId .resultsFetched

def fetchCallbacks (jobId : String) : Callbacks where
  onSuccess _ m := recordResult jobId m
  onClientError errorMsg m := categorizePathError errorMsg (recordResult jobId m)
  on404 := none

/-- `fetch_results` -/
def fetchResults (cfg : Config) (replies : Replies) (m : Monitor) (jobId : String) : Monitor :=
  let signaled : Monitor :=
    match m.jobs.get? jobId with
    | none => m
    | some job =>
      if job.tracking.terminalSignaled then m
      else
        request cfg replies terminalCallbacks
          ((m.track jobId fun tr => { tr with terminalSignaled := true }).happen jobId .terminal)
  request cfg replies (fetchCallbacks jobId) (signaled.happen jobId .get)

/-! ## Polls -/

/-- `_get_log_path`, with the counter of the patterns that remain. -/
def getLogPath (cfg : Config) (m : Monitor) (job : SlurmJob) : Monitor × Option String :=
  if job.stdoutPath ≠ "" then
    let expanded := cfg.expandSlurmPatterns job
    let counted := { m with counters :=
      { m.counters with pathErrorsUnexpanded := m.counters.pathErrorsUnexpanded + 1 } }
    (if expanded.2 then counted else m, if expanded.1 ≠ "" then some expanded.1 else none)
  else (m, none)

/-- One job of `_mark_disappeared_jobs_finished`. -/
def markDisappeared (current : Dict String JobInfo) (m : Monitor) (jobId : String) : Monitor :=
  match m.jobs.get? jobId with
  | none => m
  | some job =>
    if jobId ∉ current.keys ∧ job.state.isTerminal = false then
      m.modify jobId fun job => { job with lastState := some job.state, state := .finished }
    else m

/-- The record of a job after its snapshot was read. -/
def syncRecord (m : Monitor) (jobId : String) (job : SlurmJob) : Monitor :=
  match m.jobs.get? jobId with
  | none =>
    { m with
      jobs := m.jobs.set jobId job
      counters := { m.counters with
        jobsSeen := m.counters.jobsSeen + 1
        withOutputPath :=
          m.counters.withOutputPath + if job.stdoutPath ≠ "" then 1 else 0 }
      history := fun id => if id = jobId then [] else m.history id }
  | some prev =>
    if prev.state ≠ job.state then
      let copied := copyTrackingFields prev job
      m.modify jobId fun _ => { copied with
        stdoutPath := if copied.stdoutPath = "" then prev.stdoutPath else copied.stdoutPath
        stderrPath := if copied.stderrPath = "" then prev.stderrPath else copied.stderrPath }
    else m

/-- One job of `_sync_jobs_from_slurm`, with the jobs to submit so far. -/
def syncJob (cfg : Config) (acc : Monitor × List String) (entry : String × JobInfo) :
    Monitor × List String :=
  let job := entry.2.record entry.1
  if cfg.matchesFilters job then
    let m := syncRecord acc.1 entry.1 job
    match m.jobs.get? entry.1 with
    | none => (m, acc.2)
    | some tracked =>
      if tracked.tracking.logSubmitted = false ∧ tracked.tracking.resultFetched = false then
        let path := getLogPath cfg m tracked
        (path.1, if path.2.isSome then acc.2 ++ [entry.1] else acc.2)
      else (m, acc.2)
  else acc

/-- The jobs of `_fetch_paths_for_terminal_jobs`. -/
def needsPath (entry : String × SlurmJob) : Bool :=
  entry.2.state.isTerminal && !entry.2.tracking.resultFetched && entry.2.stdoutPath == "" &&
    !entry.2.tracking.pathFetchAttempted && '[' ∉ entry.1.toList && '+' ∉ entry.1.toList

/-- One job of `_fetch_paths_for_terminal_jobs`, with the paths that SLURM has returned. -/
def fetchPath (fetched : Dict String (String × String)) (m : Monitor) (jobId : String) :
    Monitor :=
  let m := m.track jobId fun tr => { tr with pathFetchAttempted := true }
  match fetched.get? jobId, m.jobs.get? jobId with
  | some (stdout, stderr), some job =>
    if stdout = "" then m
    else
      let counted := { m with counters := { m.counters with
        withOutputPath :=
          m.counters.withOutputPath + if job.stdoutPath = "" then 1 else 0 } }
      counted.modify jobId fun job => { job with stdoutPath := stdout, stderrPath := stderr }
  | _, _ => m

/-- `_mark_get_exhausted` -/
def markGetExhausted (m : Monitor) (jobId : String) : Monitor :=
  (m.happen jobId .recorded).track jobId fun tr => { tr with resultFetched := true }

/-- A job is collected for a fetch if it has a log path. -/
def collect (cfg : Config) (acc : Monitor × List String) (job : SlurmJob) (jobId : String) :
    Monitor × List String :=
  let path := getLogPath cfg acc.1 job
  if path.2.isSome then
    ((path.1.happen jobId (.collected job.state)).track jobId
      fun tr => { tr with getAttempts := tr.getAttempts + 1 }, acc.2 ++ [jobId])
  else (path.1, acc.2)

/-- One job of `_collect_jobs_for_fetch`. -/
def collectJob (cfg : Config) (acc : Monitor × List String) (jobId : String) :
    Monitor × List String :=
  match acc.1.jobs.get? jobId with
  | none => acc
  | some job =>
    if job.state.isTerminal ∧ job.tracking.postSuccess ∧ job.tracking.resultFetched = false then
      if cfg.maxGetAttempts ≤ job.tracking.getAttempts then
        (markGetExhausted acc.1 jobId, acc.2)
      else collect cfg acc job jobId
    else acc

/-- One job of `_fetch_pending_results`. -/
def collectPending (cfg : Config) (acc : Monitor × List String) (jobId : String) :
    Monitor × List String :=
  match acc.1.jobs.get? jobId with
  | none => acc
  | some job =>
    if job.state.isTerminal ∧ job.tracking.postSuccess ∧ job.tracking.resultFetched = false ∧
        job.tracking.getAttempts < cfg.maxGetAttempts then collect cfg acc job jobId
    else if cfg.maxGetAttempts ≤ job.tracking.getAttempts then
      (markGetExhausted acc.1 jobId, acc.2)
    else acc

/-- The jobs that `_cleanup_old_jobs` may remove. -/
def isDone (entry : String × SlurmJob) : Bool :=
  entry.2.state.isTerminal && (entry.2.tracking.resultFetched ||
    (entry.2.tracking.logSubmitted && !entry.2.tracking.postSuccess))

/-- `_cleanup_old_jobs` -/
def cleanupOldJobs (cfg : Config) (m : Monitor) : Monitor :=
  let done := m.jobs.entries.filter isDone
  let removed := (done.take (done.length - cfg.maxCompletedJobs)).map Prod.fst
  { m with jobs := removed.foldl Dict.erase m.jobs }

/-- What SLURM says in a poll. -/
structure Poll where
  /-- The snapshot of squeue, if it did not fail. -/
  snapshot : Option (Dict String JobInfo)
  /-- The paths of jobs without a path, if the commands did not raise. -/
  fetchedPaths : Option (Dict String (String × String))

/-- `_fetch_pending_results` -/
def fetchPendingResults (cfg : Config) (replies : Replies) (m : Monitor) : Monitor :=
  let collected := m.jobs.keys.foldl (collectPending cfg) (m, [])
  collected.2.foldl (fetchResults cfg replies) collected.1

/-- The part of a poll under the lock, with the jobs to submit; in it the paths of terminal jobs
are fetched, which ends the poll when it raises. -/
def syncJobs (cfg : Config) (current : Dict String JobInfo) (m : Monitor) :
    Monitor × List String :=
  let marked := m.jobs.keys.foldl (markDisappeared current) m
  current.entries.foldl (syncJob cfg) (marked, [])

/-- `_poll_and_process` -/
def pollAndProcess (cfg : Config) (replies : Replies) (m : Monitor) (poll : Poll) : Monitor :=
  match poll.snapshot with
  | none => fetchPendingResults cfg replies m
  | some current =>
    let synced := syncJobs cfg current m
    let needing := (synced.1.jobs.entries.filter needsPath).map Prod.fst
    match needing, poll.fetchedPaths with
    | _ :: _, none => synced.1
    | _, fetched =>
      let located := needing.foldl (fetchPath (fetched.getD .empty)) synced.1
      let collected := located.jobs.keys.foldl (collectJob cfg) (located, [])
      let submitted := synced.2.foldl (submitLog cfg replies) collected.1
      cleanupOldJobs cfg (collected.2.foldl (fetchResults cfg replies) submitted)

/-- The monitor, with arbitrary polls and replies. -/
def system (cfg : Config) (replies : Replies) : System Monitor Poll where
  init m := m = .start
  step m poll := some (pollAndProcess cfg replies m poll)

end ResiliencyExt.Services.Smonsvc
