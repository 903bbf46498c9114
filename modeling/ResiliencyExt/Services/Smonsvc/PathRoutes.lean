import ResiliencyExt.Services.Smonsvc.JobRecords
import ResiliencyExt.Services.Smonsvc.Resubmission

set_option autoImplicit false

/-!
# How the log path of a job becomes known

`SlurmClient.get_running_jobs` takes the paths of the tracked jobs, looks up those of other
running jobs and puts them into the snapshot.  Paths of terminal jobs are looked up on their own.
A path in the snapshot is kept only with a record that is new or whose state has changed.

`Located` goes on beside the monitor with the paths that the lookups have found.  A poll in which
the lookup of the running jobs raises changes nothing, and is left out.
-/

namespace ResiliencyExt.Services.Smonsvc

open Foundation List
open Option (bind_some map_some none_or some)

/-- `JobState.from_str` -/
def JobState.fromStr (stateStr : String) : JobState :=
  match stateStr with
  | "R" => .running
  | "PD" => .pending
  | "CG" => .completing
  | "CD" => .completed
  | "F" => .failed
  | "CA" => .cancelled
  | "TO" => .timeout
  | "NF" => .nodeFail
  | "PR" => .preempted
  | "OOM" => .outOfMemory
  | "S" => .suspended
  | _ =>
    match stateStr.toUpper with
    | "PENDING" => .pending
    | "RUNNING" => .running
    | "COMPLETING" => .completing
    | "COMPLETED" => .completed
    | "FAILED" => .failed
    | "CANCELLED" => .cancelled
    | "TIMEOUT" => .timeout
    | "NODE_FAIL" => .nodeFail
    | "PREEMPTED" => .preempted
    | "OUT_OF_MEMORY" => .outOfMemory
    | "SUSPENDED" => .suspended
    | "FINISHED" => .finished
    | _ => .unknown

/-- The fields of a line of squeue. -/
structure ParsedJob where
  jobId : String
  name : String
  user : String
  partition : String
  state : String
  deriving DecidableEq, Repr

/-- The stdout and stderr paths of jobs. -/
abbrev OutputPaths : Type :=
  Dict String (String × String)

/-- The second pass of `get_running_jobs` -/
def getRunningJobs (existingPaths fetchedPaths : OutputPaths) (parsedJobs : List ParsedJob) :
    Dict String JobInfo :=
  parsedJobs.foldl (fun jobs job =>
    let paths := (existingPaths.get? job.jobId).getD ((fetchedPaths.get? job.jobId).getD ("", ""))
    jobs.set job.jobId
      ⟨job.name, job.user, job.partition, .fromStr job.state, paths.1, paths.2⟩) Dict.empty

/-- The paths that `_get_slurm_jobs` knows. -/
def existingPaths (m : Monitor) : OutputPaths where
  entries := (m.jobs.entries.filter fun entry => entry.2.stdoutPath ≠ "").map fun entry =>
    (entry.1, entry.2.stdoutPath, entry.2.stderrPath)
  nodup := by
    rw [map_map]
    exact m.jobs.nodup.sublist (filter_sublist.map _)

/-- What SLURM answers in a poll. -/
structure SlurmReply where
  /-- The jobs of squeue, if it did not fail. -/
  parsedJobs : Option (List ParsedJob)
  runningPaths : OutputPaths
  /-- The paths of the terminal jobs, if the lookup did not raise. -/
  terminalPaths : Option OutputPaths

def pollOf (m : Monitor) (reply : SlurmReply) : Poll where
  snapshot := reply.parsedJobs.map (getRunningJobs (existingPaths m) reply.runningPaths)
  fetchedPaths := reply.terminalPaths

/-! ## The paths that are found -/

/-- The stdout path of a job, unless it is empty. -/
def pathIn (paths : OutputPaths) (jobId : String) : Option String :=
  (paths.get? jobId).bind fun path => if path.1 = "" then none else some path.1

def SlurmJob.path (job : SlurmJob) : Option String :=
  if job.stdoutPath = "" then none else some job.stdoutPath

/-- The jobs whose paths are looked up after their end. -/
def needing (cfg : Config) (current : Dict String JobInfo) (m : Monitor) : List String :=
  ((syncJobs cfg current m).1.jobs.entries.filter needsPath).map Prod.fst

/-- What the lookup finds for a job that squeue reports and that has no path yet. -/
def foundForReported (m : Monitor) (reply : SlurmReply) (jobId : String) : Option String :=
  match reply.parsedJobs with
  | none => none
  | some parsedJobs =>
    if jobId ∈ parsedJobs.map ParsedJob.jobId ∧ (existingPaths m).get? jobId = none then
      pathIn reply.runningPaths jobId
    else none

/-- What the lookup finds for a terminal job that has no path yet. -/
def foundForTerminal (cfg : Config) (m : Monitor) (reply : SlurmReply) (jobId : String) :
    Option String :=
  match (pollOf m reply).snapshot, reply.terminalPaths with
  | some current, some fetched =>
    if jobId ∈ needing cfg current m then pathIn fetched jobId else none
  | _, _ => none

/-- The monitor, and for each tracked job the path that was found for it. -/
structure Located where
  monitor : Monitor
  learned : String → Option String

def locate (cfg : Config) (replies : Replies) : System Located SlurmReply where
  init s := s = ⟨.start, fun _ => none⟩
  step s reply :=
    let after := pollAndProcess cfg replies s.monitor (pollOf s.monitor reply)
    some ⟨after, fun jobId =>
      if (after.jobs.get? jobId).isSome then
        (foundForTerminal cfg s.monitor reply jobId).or
          ((foundForReported s.monitor reply jobId).or (s.learned jobId))
      else none⟩

/-! ## Submitting jobs with a known path -/

/-- Squeue reports a job that matches the filters. -/
def ReportedAs (cfg : Config) (poll : Poll) (jobId : String) (info : JobInfo) : Prop :=
  ∃ current, poll.snapshot = some current ∧ current.get? jobId = some info ∧
    cfg.matchesFilters (info.record jobId) = true

/-- No submission of the job was answered, and no result of it is recorded. -/
def Unanswered (m : Monitor) (jobId : String) : Prop :=
  ∀ job, m.jobs.get? jobId = some job →
    job.tracking.logSubmitted = false ∧ job.tracking.resultFetched = false

/-- The path of a job after the lookup of the running jobs. -/
def knownPath (s : Located) (reply : SlurmReply) (jobId : String) : Option String :=
  (foundForReported s.monitor reply jobId).or (s.learned jobId)

/-- The poll submits what it should. -/
structure SubmitsKnown (cfg : Config) (s : Located) (reply : SlurmReply) : Prop where
  reported : ∀ jobId info path, ReportedAs cfg (pollOf s.monitor reply) jobId info →
    Unanswered s.monitor jobId → knownPath s reply jobId = some path →
    (cfg.expandSlurmPatterns { synced (s.monitor.jobs.get? jobId) (info.record jobId) with
      stdoutPath := path }).1 ≠ "" →
    jobId ∈ submissions cfg s.monitor (pollOf s.monitor reply)
  terminal : ∀ jobId path, foundForTerminal cfg s.monitor reply jobId = some path →
    jobId ∈ submissions cfg s.monitor (pollOf s.monitor reply)

/-- The lookups find the paths in time. -/
structure FindsInTime (cfg : Config) (s : Located) (reply : SlurmReply) : Prop where
  /-- A path that is found for a tracked job comes with a new state. -/
  reported : ∀ jobId path job, foundForReported s.monitor reply jobId = some path →
    s.monitor.jobs.get? jobId = some job →
    ∃ info, ReportedAs cfg (pollOf s.monitor reply) jobId info ∧ info.state ≠ job.state
  /-- No path is found only after the end of a job. -/
  terminal : ∀ jobId, foundForTerminal cfg s.monitor reply jobId = none
  /-- The lookup of the terminal jobs does not raise. -/
  lookup : ∀ current, (pollOf s.monitor reply).snapshot = some current →
    needing cfg current s.monitor ≠ [] → reply.terminalPaths ≠ none

/-! ## Snapshots -/

theorem get?_existingPaths (m : Monitor) (jobId : String) :
    (existingPaths m).get? jobId = (m.jobs.get? jobId).bind fun job =>
      if job.stdoutPath = "" then none else some (job.stdoutPath, job.stderrPath) := by
  cases hjob : m.jobs.get? jobId with
  | none =>
    refine Option.not_isSome_iff_eq_none.mp fun hsome => ?_
    obtain ⟨entry, hentry, heq⟩ := mem_map.mp (Dict.get?_isSome_iff.mp hsome)
    obtain ⟨old, hold, rfl⟩ := mem_map.mp hentry
    have hget := Dict.get?_eq_some_of_mem (mem_of_mem_filter hold)
    rw [show old.1 = jobId from heq, hjob] at hget
    cases hget
  | some job =>
    rw [bind_some]
    split
    · next hempty =>
      refine Option.not_isSome_iff_eq_none.mp fun hsome => ?_
      obtain ⟨entry, hentry, heq⟩ := mem_map.mp (Dict.get?_isSome_iff.mp hsome)
      obtain ⟨old, hold, rfl⟩ := mem_map.mp hentry
      obtain ⟨hold, hpath⟩ := mem_filter.mp hold
      have hget := Dict.get?_eq_some_of_mem hold
      rw [show old.1 = jobId from heq, hjob] at hget
      cases hget
      exact of_decide_eq_true hpath hempty
    · next hpath =>
      have hmem : (jobId, job.stdoutPath, job.stderrPath) ∈ (existingPaths m).entries :=
        mem_map.mpr ⟨(jobId, job), mem_filter.mpr
          ⟨Dict.mem_of_get?_eq_some hjob, decide_eq_true hpath⟩, rfl⟩
      exact Dict.get?_eq_some_of_mem hmem

/-- What is under a key was there before, or was set by one of the items. -/
theorem of_get?_foldl_set {α κ ν : Type} [DecidableEq κ] (key : α → κ) (value : α → ν) {k : κ}
    {v : ν} (items : List α) : ∀ {d : Dict κ ν},
      (items.foldl (fun d item => d.set (key item) (value item)) d).get? k = some v →
        (∃ item ∈ items, key item = k ∧ value item = v) ∨ d.get? k = some v := by
  induction items with
  | nil => exact fun h => .inr h
  | cons item items ih =>
    intro d h
    rcases ih h with ⟨other, hother, hkey⟩ | hset
    · exact .inl ⟨other, mem_cons_of_mem _ hother, hkey⟩
    · rw [Dict.get?_set] at hset
      split at hset
      · next heq => exact .inl ⟨item, mem_cons_self, heq.symm, some.inj hset⟩
      · exact .inr hset

/-- The path of a job in the snapshot. -/
theorem stdoutPath_of_reported {m : Monitor} {reply : SlurmReply} {current : Dict String JobInfo}
    {jobId : String} {info : JobInfo} (hcurrent : (pollOf m reply).snapshot = some current)
    (hinfo : current.get? jobId = some info) :
    (∃ parsedJobs, reply.parsedJobs = some parsedJobs ∧
      jobId ∈ parsedJobs.map ParsedJob.jobId) ∧
    info.stdoutPath = (((existingPaths m).get? jobId).getD
      ((reply.runningPaths.get? jobId).getD ("", ""))).1 := by
  obtain ⟨parsedJobs, hparsed, rfl⟩ := Option.map_eq_some_iff.mp hcurrent
  rcases of_get?_foldl_set ParsedJob.jobId _ parsedJobs hinfo with
    ⟨job, hjob, rfl, rfl⟩ | hnone
  · exact ⟨⟨parsedJobs, hparsed, mem_map_of_mem hjob⟩, rfl⟩
  · cases hnone

/-! ## One poll -/

section Polls

variable {cfg : Config} {replies : Replies} {m : Monitor} {jobId : String}

/-- A lookup that finds no path changes no record. -/
theorem records_fetchPath {fetched : OutputPaths} (h : pathIn fetched jobId = none) :
    (fetchPath fetched m jobId).records = m.records := by
  have htried := m.records_track jobId fun tr => { tr with pathFetchAttempted := true }
  unfold fetchPath
  dsimp only
  split
  · next stdout stderr job hfetched _ =>
    split
    · exact htried
    · next hpath =>
      rw [pathIn, hfetched, bind_some, if_neg hpath] at h
      cases h
  · exact htried

theorem records_foldl_fetchPath {fetched : OutputPaths} (ids : List String) : ∀ m : Monitor,
    (∀ id ∈ ids, pathIn fetched id = none) →
      (ids.foldl (fetchPath fetched) m).records = m.records := by
  induction ids with
  | nil => exact fun _ _ => rfl
  | cons id ids ih =>
    intro m h
    rw [foldl_cons, ih _ fun other hother => h other (mem_cons_of_mem _ hother)]
    exact records_fetchPath (h id mem_cons_self)

/-- The records after the requests of a poll and the cleanup. -/
theorem records_requests {toSubmit toFetch : List String} {job' : SlurmJob}
    (h : (cleanupOldJobs cfg (toFetch.foldl (fetchResults cfg replies)
      (toSubmit.foldl (submitLog cfg replies) m))).jobs.get? jobId = some job') :
    m.records jobId = some job'.untracked := by
  have hbefore := cleanupOldJobs_get? jobId h
  have hsame : (toFetch.foldl (fetchResults cfg replies)
      (toSubmit.foldl (submitLog cfg replies) m)).records = m.records :=
    (foldl_unchanged Monitor.records records_fetchResults _ _).trans
      (foldl_unchanged Monitor.records records_submitLog _ _)
  rw [← hsame, Monitor.records, hbefore, map_some]

/-- What a poll without late paths does to the records and submits. -/
theorem pollAndProcess_located {s : Located} {reply : SlurmReply}
    (h : FindsInTime cfg s reply) :
    (reply.parsedJobs = none ∧ submissions cfg s.monitor (pollOf s.monitor reply) = [] ∧
      (pollAndProcess cfg replies s.monitor (pollOf s.monitor reply)).records =
        s.monitor.records) ∨
    ∃ current, (pollOf s.monitor reply).snapshot = some current ∧
      submissions cfg s.monitor (pollOf s.monitor reply) =
        (syncJobs cfg current s.monitor).2 ∧
      ∀ jobId job', (pollAndProcess cfg replies s.monitor (pollOf s.monitor reply)).jobs.get?
          jobId = some job' →
        (syncJobs cfg current s.monitor).1.records jobId = some job'.untracked := by
  have hterminal := h.terminal
  have hlookup := h.lookup
  unfold foundForTerminal at hterminal
  unfold submissions pollAndProcess
  cases hsnapshot : (pollOf s.monitor reply).snapshot with
  | none =>
    exact .inl ⟨Option.map_eq_none_iff.mp hsnapshot, rfl, records_fetchPendingResults _⟩
  | some current =>
    refine .inr ⟨current, rfl, ?_⟩
    have hneeding := hlookup current hsnapshot
    rw [hsnapshot] at hterminal
    dsimp only [pollOf]
    have hfold : ((syncJobs cfg current s.monitor).1.jobs.entries.filter needsPath).map
        Prod.fst = needing cfg current s.monitor := rfl
    rw [hfold]
    generalize hids : needing cfg current s.monitor = ids at hneeding ⊢
    have hlocated : ∀ fetched : OutputPaths, (∀ id ∈ ids, pathIn fetched id = none) →
        ∀ jobId job', (cleanupOldJobs cfg
          (((ids.foldl (fetchPath fetched) (syncJobs cfg current s.monitor).1).jobs.keys.foldl
            (collectJob cfg)
            (ids.foldl (fetchPath fetched) (syncJobs cfg current s.monitor).1, [])).2.foldl
              (fetchResults cfg replies)
            ((syncJobs cfg current s.monitor).2.foldl (submitLog cfg replies)
              ((ids.foldl (fetchPath fetched)
                (syncJobs cfg current s.monitor).1).jobs.keys.foldl (collectJob cfg)
                (ids.foldl (fetchPath fetched)
                  (syncJobs cfg current s.monitor).1, [])).1))).jobs.get? jobId = some job' →
          (syncJobs cfg current s.monitor).1.records jobId = some job'.untracked := by
      intro fetched hnone jobId job' hjob'
      rw [← records_foldl_fetchPath ids _ hnone, ← @records_collectJobs cfg]
      exact records_requests hjob'
    rcases ids with _ | ⟨first, rest⟩
    · exact ⟨rfl, hlocated _ fun _ hid => absurd hid not_mem_nil⟩
    · cases hpaths : reply.terminalPaths with
      | none => exact absurd hpaths (hneeding (cons_ne_nil _ _))
      | some fetched =>
        rw [hpaths] at hterminal
        refine ⟨rfl, hlocated fetched fun id hid => ?_⟩
        have hnone := hterminal id
        dsimp only at hnone
        rwa [if_pos (hids ▸ hid)] at hnone

end Polls

/-! ## The stored paths are those that were found -/

/-- Between polls the records have the paths that were found. -/
def PathsStored (s : Located) : Prop :=
  ∀ jobId, s.learned jobId = (s.monitor.records jobId).bind SlurmJob.path

section Stored

variable {cfg : Config} {replies : Replies} {s : Located} {reply : SlurmReply} {jobId : String}
  {info : JobInfo}

theorem learned_of_get? (h : PathsStored s) {job : SlurmJob}
    (hjob : s.monitor.jobs.get? jobId = some job) : s.learned jobId = job.path := by
  rw [h, Monitor.records, hjob]
  rfl

theorem learned_of_none (h : PathsStored s) (hjob : s.monitor.jobs.get? jobId = none) :
    s.learned jobId = none := by
  rw [h, Monitor.records, hjob]
  rfl

theorem foundForReported_of_stored {m : Monitor} {job : SlurmJob}
    (hjob : m.jobs.get? jobId = some job) (hpath : job.stdoutPath ≠ "") :
    foundForReported m reply jobId = none := by
  unfold foundForReported
  split
  · rfl
  · rw [if_neg]
    rintro ⟨-, hnone⟩
    rw [get?_existingPaths, hjob, bind_some, if_neg hpath] at hnone
    cases hnone

/-- A reported job without a stored path has in the snapshot what the lookup has found. -/
theorem foundForReported_of_reported {m : Monitor}
    (h : ReportedAs cfg (pollOf m reply) jobId info)
    (hnone : (existingPaths m).get? jobId = none) :
    foundForReported m reply jobId = if info.stdoutPath = "" then none else some info.stdoutPath := by
  obtain ⟨current, hcurrent, hinfo, -⟩ := h
  obtain ⟨⟨parsedJobs, hparsed, hmem⟩, hpath⟩ := stdoutPath_of_reported hcurrent hinfo
  rw [hnone, Option.getD_none] at hpath
  unfold foundForReported
  rw [hparsed]
  dsimp only
  rw [if_pos ⟨hmem, hnone⟩, hpath, pathIn]
  cases reply.runningPaths.get? jobId <;> rfl

theorem reportedAs_unique {poll : Poll} {info' : JobInfo} (h : ReportedAs cfg poll jobId info)
    (h' : ReportedAs cfg poll jobId info') : info = info' := by
  obtain ⟨current, hcurrent, hinfo, -⟩ := h
  obtain ⟨current', hcurrent', hinfo', -⟩ := h'
  rw [hcurrent] at hcurrent'
  cases hcurrent'
  rw [hinfo] at hinfo'
  exact some.inj hinfo'

/-- The record of a reported job has its known path. -/
theorem path_synced (h : PathsStored s) (htime : FindsInTime cfg s reply)
    (hreported : ReportedAs cfg (pollOf s.monitor reply) jobId info) :
    (synced (s.monitor.jobs.get? jobId) (info.record jobId)).path = knownPath s reply jobId := by
  unfold knownPath
  cases hjob : s.monitor.jobs.get? jobId with
  | none =>
    have hnone : (existingPaths s.monitor).get? jobId = none := by
      rw [get?_existingPaths, hjob, Option.bind_none]
    rw [learned_of_none h hjob, Option.or_none, foundForReported_of_reported hreported hnone]
    rfl
  | some prev =>
    rw [learned_of_get? h hjob]
    by_cases hpath : prev.stdoutPath = ""
    · have hnone : (existingPaths s.monitor).get? jobId = none := by
        rw [get?_existingPaths, hjob, bind_some, if_pos hpath]
      have hprev : prev.path = none := if_pos hpath
      have hfound := foundForReported_of_reported hreported hnone
      rw [hprev, Option.or_none]
      by_cases hstate : prev.state ≠ (info.record jobId).state
      · have hsynced : (synced (some prev) (info.record jobId)).stdoutPath =
            info.stdoutPath := by
          rw [synced, if_pos hstate]
          dsimp only [copyTrackingFields, JobInfo.record]
          split
          · next hempty => rw [hpath, hempty]
          · rfl
        rw [SlurmJob.path, hsynced, hfound]
      · rw [synced, if_neg hstate, hprev]
        -- A path that was found would come with a new state.
        cases hlate : foundForReported s.monitor reply jobId with
        | none => rfl
        | some path =>
          obtain ⟨info', hreported', hnew⟩ := htime.reported jobId path prev hlate hjob
          cases reportedAs_unique hreported hreported'
          exact absurd (not_not.mp hstate).symm hnew
    · rw [foundForReported_of_stored hjob hpath, none_or]
      obtain ⟨current, hcurrent, hinfo, -⟩ := hreported
      have hkept := (stdoutPath_of_reported hcurrent hinfo).2
      rw [get?_existingPaths, hjob, bind_some, if_neg hpath, Option.getD_some] at hkept
      have hsynced : (synced (some prev) (info.record jobId)).stdoutPath = prev.stdoutPath := by
        unfold synced
        dsimp only
        split
        · dsimp only [copyTrackingFields, JobInfo.record]
          by_cases hempty : info.stdoutPath = ""
          · exact if_pos hempty
          · exact (if_neg hempty).trans hkept
        · rfl
      rw [SlurmJob.path, hsynced, SlurmJob.path]

/-- A poll submits the jobs with a known path, when the lookups find the paths in time. -/
theorem submitsKnown_of_findsInTime (h : PathsStored s) (htime : FindsInTime cfg s reply) :
    SubmitsKnown cfg s reply where
  reported := by
    intro jobId info path hreported hunanswered hknown hlog
    rcases @pollAndProcess_located cfg (fun _ _ => .raised) _ _ htime with
      ⟨hnone, -, -⟩ | ⟨current, hcurrent, hsubmissions, -⟩
    · obtain ⟨current, hcurrent, -, -⟩ := hreported
      obtain ⟨parsedJobs, hparsed, -⟩ := Option.map_eq_some_iff.mp hcurrent
      rw [hnone] at hparsed
      cases hparsed
    · have hpath := path_synced h htime hreported
      obtain ⟨current', hcurrent', hinfo, hmatch⟩ := hreported
      cases hcurrent.symm.trans hcurrent'
      rw [hsubmissions]
      refine mem_syncJobs_iff.mpr ⟨info, hinfo, hmatch, ?_, ?_⟩
      · cases hjob : s.monitor.jobs.get? jobId with
        | none => exact ⟨rfl, rfl⟩
        | some prev =>
          obtain ⟨hsubmitted, hfetched⟩ := hunanswered prev hjob
          unfold synced
          dsimp only
          split
          · exact ⟨hsubmitted, hfetched⟩
          · exact ⟨hsubmitted, hfetched⟩
      · rw [hknown, SlurmJob.path] at hpath
        split at hpath
        · cases hpath
        · next hstored =>
          refine ⟨hstored, ?_⟩
          rwa [← some.inj hpath] at hlog
  terminal := by
    intro jobId path hfound
    rw [htime.terminal jobId] at hfound
    cases hfound

theorem path_untracked (job : SlurmJob) : job.untracked.path = job.path := rfl

/-- A poll in which the lookups find the paths in time stores them. -/
theorem pathsStored_step (h : PathsStored s) (htime : FindsInTime cfg s reply) {t : Located}
    (hstep : (locate cfg replies).step s reply = some t) : PathsStored t := by
  cases hstep
  intro jobId
  cases hjob' : (pollAndProcess cfg replies s.monitor (pollOf s.monitor reply)).jobs.get?
      jobId with
  | none => simp [Monitor.records, hjob']
  | some job' =>
    have hrecords' : ((pollAndProcess cfg replies s.monitor (pollOf s.monitor reply)).records
        jobId).bind SlurmJob.path = job'.path := by
      rw [Monitor.records, hjob']
      rfl
    dsimp only
    rw [hrecords', hjob', Option.isSome_some, if_pos rfl, htime.terminal, none_or]
    rcases @pollAndProcess_located cfg replies _ _ htime with
      ⟨hnone, -, hsame⟩ | ⟨current, hcurrent, -, hsame⟩
    · have hfound : foundForReported s.monitor reply jobId = none := by
        rw [foundForReported, hnone]
      rw [hfound, none_or, h, ← hsame]
      exact hrecords'
    · have hsynced := hsame jobId job' hjob'
      by_cases hreported : ∃ info, ReportedAs cfg (pollOf s.monitor reply) jobId info
      · obtain ⟨info, hreported⟩ := hreported
        have hpath := path_synced h htime hreported
        obtain ⟨current', hcurrent', hinfo, hmatch⟩ := hreported
        cases hcurrent.symm.trans hcurrent'
        rw [Monitor.records, get?_syncJobs_of_reported hinfo hmatch, map_some] at hsynced
        rw [← path_untracked job', ← some.inj hsynced, path_untracked, hpath]
        rfl
      · have hother := @get?_syncJobs_of_not_matching cfg s.monitor current jobId
          fun info hinfo hmatch =>
            hreported ⟨info, current, hcurrent, hinfo, hmatch⟩
        rw [Monitor.records, hother] at hsynced
        cases hjob : s.monitor.jobs.get? jobId with
        | none =>
          rw [hjob] at hsynced
          cases hsynced
        | some prev =>
          have hfound : foundForReported s.monitor reply jobId = none := by
            cases hlate : foundForReported s.monitor reply jobId with
            | none => rfl
            | some path =>
              obtain ⟨info, hlate, -⟩ := htime.reported jobId path prev hlate hjob
              exact absurd ⟨info, hlate⟩ hreported
          rw [hjob, map_some, map_some] at hsynced
          rw [hfound, none_or, learned_of_get? h hjob, ← path_untracked job',
            ← some.inj hsynced, path_untracked, disappeared]
          split <;> rfl

end Stored

/-! ## Runs -/

/-- In a run in which the lookups find the paths in time, every poll submits the jobs with a known
path. -/
theorem submitsKnown_of_reachable (cfg : Config) (replies : Replies) (s : Located)
    (hreach : (locate cfg replies).Reachable (FindsInTime cfg) s) (reply : SlurmReply)
    (htime : FindsInTime cfg s reply) : SubmitsKnown cfg s reply := by
  refine submitsKnown_of_findsInTime ?_ htime
  refine hreach.invariant (P := PathsStored) ?_ ?_
  · rintro s rfl jobId
    rfl
  · exact fun s reply t hstored hfinds hstep => pathsStored_step hstored hfinds hstep

/-! ## A path that is found by the second lookup -/

def runningReply (paths : OutputPaths) : SlurmReply where
  parsedJobs := some [⟨"7", "train", "user", "batch", "RUNNING"⟩]
  runningPaths := paths
  terminalPaths := some Dict.empty

def lateReply : SlurmReply :=
  runningReply (Dict.empty.set "7" ("/logs/7.out", ""))

theorem exists_unlocated : ∃ s, (locate oneJobConfig objectReplies).Reachable (fun _ _ => True) s ∧
    (s.monitor.jobs.get? "7" = some ((JobInfo.mk "train" "user" "batch" .running "" "").record "7") ∧
      submissions oneJobConfig s.monitor (pollOf s.monitor lateReply) = [] ∧
      knownPath s lateReply "7" = some "/logs/7.out") := by
  have hrun : ((locate oneJobConfig objectReplies).execute (fun _ _ => True)
      ⟨.start, fun _ => none⟩ [runningReply Dict.empty]).any (fun s => decide
        (s.monitor.jobs.get? "7" =
          some ((JobInfo.mk "train" "user" "batch" .running "" "").record "7") ∧
        submissions oneJobConfig s.monitor (pollOf s.monitor lateReply) = [] ∧
        knownPath s lateReply "7" = some "/logs/7.out")) = true := by
    decide +kernel
  obtain ⟨s, hreach, htest⟩ := System.exists_reachable_of_execute rfl hrun
  exact ⟨s, hreach, of_decide_eq_true htest⟩

/-- The job runs on, and so its record stays without the path. -/
theorem not_all_submitsKnown : ¬ ∀ (cfg : Config) (replies : Replies) (s : Located),
    (locate cfg replies).Reachable (fun _ _ => True) s → ∀ reply, SubmitsKnown cfg s reply := by
  intro h
  obtain ⟨s, hreach, hjob, hnone, hknown⟩ := exists_unlocated
  have hreported : ReportedAs oneJobConfig (pollOf s.monitor lateReply) "7"
      ⟨"train", "user", "batch", .running, "/logs/7.out", ""⟩ := by
    refine ⟨_, rfl, ?_, rfl⟩
    simp only [getRunningJobs, foldl_cons, foldl_nil, Dict.get?_set_self,
      get?_existingPaths, hjob]
    decide +kernel
  have hsubmits := (h _ _ s hreach lateReply).reported "7" _ _ hreported
    (fun job hsome => by rw [hjob] at hsome; cases hsome; exact ⟨rfl, rfl⟩) hknown
    (by rw [hjob]; decide)
  rw [hnone] at hsubmits
  cases hsubmits

/-- The path of a job that is new in the poll. -/
theorem submitsKnown_of_reachable_first :
    SubmitsKnown oneJobConfig ⟨.start, fun _ => none⟩ lateReply := by
  refine submitsKnown_of_reachable oneJobConfig objectReplies _ (.init rfl) lateReply
    ⟨fun _ _ _ _ hjob => ?_, fun jobId => ?_, fun _ _ _ hnone => ?_⟩
  · cases hjob
  · unfold foundForTerminal
    split
    · next hcurrent hfetched =>
      cases hfetched
      split <;> rfl
    · rfl
  · cases hnone

end ResiliencyExt.Services.Smonsvc
