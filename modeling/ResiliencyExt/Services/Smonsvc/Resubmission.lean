import ResiliencyExt.Services.Smonsvc.JobLifecycle

set_option autoImplicit false

/-!
# Submissions that are refused

A submission that is answered with status 400 is expected while a job runs: the log does not exist
yet, or is still empty.  `request_with_retry` says that this is resolved by the next poll, but the
callback marks the job as submitted all the same, so that no later poll submits it again.

`Watched` goes on beside the monitor and says of which jobs the last submission was refused so.
-/

namespace ResiliencyExt.Services.Smonsvc

open Foundation List

/-- How a submission is answered. -/
inductive Answer where
  | accepted
  | refused (statusCode : Nat)
  | notFound
  | exhausted
  | raised
  deriving DecidableEq, Repr

/-- The answer to a submission, from one of its attempts on. -/
def answer (attempts : Nat → Attempt) : Nat → Nat → Answer
  | 0, _ => .exhausted
  | remaining + 1, attempt =>
    match attempts attempt with
    | .connectError => answer attempts remaining (attempt + 1)
    | .raised => .raised
    | .response statusCode _ _ waitRaises =>
      if statusCode = 200 then .accepted
      else if statusCode = 429 then
        if waitRaises then .raised else answer attempts remaining (attempt + 1)
      else if 500 ≤ statusCode then answer attempts remaining (attempt + 1)
      else if statusCode = 404 then .notFound
      else .refused statusCode

/-- Whether a job waits for its log after a submission; without an answer it waits as before. -/
def Answer.staysRefused (answer : Answer) (before : Bool) : Bool :=
  match answer with
  | .refused statusCode => statusCode = 400
  | .raised => before
  | .accepted | .notFound | .exhausted => false

/-- The jobs that a poll submits, in order. -/
def submissions (cfg : Config) (m : Monitor) (poll : Poll) : List String :=
  match poll.snapshot with
  | none => []
  | some current =>
    let synced := syncJobs cfg current m
    match (synced.1.jobs.entries.filter needsPath).map Prod.fst, poll.fetchedPaths with
    | _ :: _, none => []
    | _, _ => synced.2

/-- The answer to the submission of a job in a poll: submissions are the first requests of it. -/
def answerTo (cfg : Config) (replies : Replies) (m : Monitor) (poll : Poll) (jobId : String) :
    Answer :=
  answer (replies (m.requests + (submissions cfg m poll).idxOf jobId)) cfg.maxAttempts 0

/-- The monitor, and the tracked jobs of which the last submission was answered with an expected
error. -/
structure Watched where
  monitor : Monitor
  refused : String → Bool

def watch (cfg : Config) (replies : Replies) : System Watched Poll where
  init s := s = ⟨.start, fun _ => false⟩
  step s poll :=
    let after := pollAndProcess cfg replies s.monitor poll
    some ⟨after, fun jobId => (after.jobs.get? jobId).isSome &&
      if jobId ∈ submissions cfg s.monitor poll then
        (answerTo cfg replies s.monitor poll jobId).staysRefused (s.refused jobId)
      else s.refused jobId⟩

/-- The job runs, as squeue says in this poll. -/
def Reported (cfg : Config) (poll : Poll) (jobId : String) : Prop :=
  ∃ current info, poll.snapshot = some current ∧ current.get? jobId = some info ∧
    cfg.matchesFilters (info.record jobId) = true ∧ info.state ∈ [.running, .completing]

/-- The poll submits the running jobs that were refused. -/
def Resubmits (cfg : Config) (s : Watched) (poll : Poll) : Prop :=
  ∀ jobId, s.refused jobId = true → Reported cfg poll jobId →
    jobId ∈ submissions cfg s.monitor poll

/-! ## A submission that is answered -/

/-- What is tracked of the job says that it was submitted. -/
def JobView.LogSubmitted (v : JobView) : Prop :=
  ∀ tr ∈ v.tracking, tr.logSubmitted = true

theorem JobView.LogSubmitted.event {v : JobView} (h : v.LogSubmitted) (e : Event) :
    (v.event e).LogSubmitted := by
  intro tr' htr'
  obtain ⟨tr, htr, rfl⟩ := Option.map_eq_some_iff.mp htr'
  exact (tr.grows_after e).logSubmitted (h tr htr)

section Answers

variable {cfg : Config} {replies : Replies} {m : Monitor} {jobId : String}

variable (callback : Callback) (ids : List String) (current : Dict String JobInfo)
    (acc : Monitor × List String)

theorem endSubmission_logSubmitted :
    ((endSubmission jobId callback m).view jobId).LogSubmitted := by
  rw [view_endSubmission, Function.update_self]
  intro tr htr
  obtain ⟨_, hended, rfl⟩ := Option.map_eq_some_iff.mp htr
  obtain ⟨_, -, rfl⟩ := Option.map_eq_some_iff.mp hended
  rfl

/-- A request that is answered ends in one of its callbacks. -/
theorem requestWithRetry_answered {callbacks : Callbacks} {Q : Monitor → Prop}
    (hsuccess : ∀ json m, Q (callbacks.onSuccess json m))
    (hclient : ∀ errorMsg m, Q (callbacks.onClientError errorMsg m))
    (h404 : ∀ on404, callbacks.on404 = some on404 → ∀ m, Q (on404 m))
    (attempts : Nat → Attempt) (remaining : Nat) :
    ∀ attempt m, answer attempts remaining attempt ≠ .raised →
      Q (requestWithRetry callbacks attempts remaining attempt m) := by
  induction remaining with
  | zero => exact fun _ m _ => hclient _ m
  | succ remaining ih =>
    intro attempt m hanswer
    unfold answer at hanswer
    unfold requestWithRetry
    split
    · next hconnect =>
      rw [hconnect] at hanswer
      exact ih _ m hanswer
    · next hraised =>
      rw [hraised] at hanswer
      exact absurd rfl hanswer
    · next statusCode json errorMsg waitRaises hresponse =>
      rw [hresponse] at hanswer
      dsimp only at hanswer
      split_ifs at hanswer ⊢ with hok hlimited hwait hserver hnotFound
      · exact hsuccess json m
      · exact absurd rfl hanswer
      · exact ih _ _ hanswer
      · exact ih _ m hanswer
      all_goals
        split
        · exact h404 _ (by assumption) m
        · exact hclient _ m

/-- Every callback of a submission marks the job as submitted. -/
theorem requestWithRetry_logSubmitted (attempts : Nat → Attempt) (remaining : Nat) :
    ∀ attempt m, answer attempts remaining attempt ≠ .raised →
      ((requestWithRetry (submitCallbacks jobId) attempts remaining attempt m).view
        jobId).LogSubmitted := by
  refine requestWithRetry_answered (Q := fun m => (m.view jobId).LogSubmitted) ?_ ?_ ?_ _ _
  · intro json m
    cases json with
    | invalid | other => exact endSubmission_logSubmitted _
    | object =>
      change ((((endSubmission jobId .success m).track jobId _).happen jobId _).view
        jobId).LogSubmitted
      rw [Monitor.view_track_happen, Function.update_self]
      · exact (endSubmission_logSubmitted _).event _
      · exact fun _ => rfl
  · intro errorMsg m
    change ((categorizePathError errorMsg (endSubmission jobId .clientError m)).view
      jobId).LogSubmitted
    rw [view_categorizePathError]
    exact endSubmission_logSubmitted _
  · rintro _ ⟨⟩ m
    exact endSubmission_logSubmitted _

theorem requests_track (m : Monitor) (jobId : String) (f : Tracking → Tracking) :
    (m.track jobId f).requests = m.requests := by
  unfold Monitor.track Monitor.modify
  split <;> rfl

theorem requests_endSubmission : (endSubmission jobId callback m).requests = m.requests :=
  requests_track _ _ _

theorem requests_requestWithRetry (callbacks : Callbacks)
    (hsuccess : ∀ json m, (callbacks.onSuccess json m).requests = m.requests)
    (hclient : ∀ errorMsg m, (callbacks.onClientError errorMsg m).requests = m.requests)
    (h404 : ∀ on404, callbacks.on404 = some on404 → ∀ m, (on404 m).requests = m.requests)
    (attempts : Nat → Attempt) (remaining attempt : Nat) (m : Monitor) :
    (requestWithRetry callbacks attempts remaining attempt m).requests = m.requests :=
  requestWithRetry_rule (P := fun m' => m'.requests = m.requests)
    (Q := fun m' => m'.requests = m.requests) (fun _ _ h => h) (fun _ h => h)
    (fun json m' h => (hsuccess json m').trans h)
      (fun errorMsg m' h => (hclient errorMsg m').trans h)
    (fun on404 heq m' h => (h404 on404 heq m').trans h) attempts remaining attempt m rfl

theorem requests_submitLog (m : Monitor) (jobId : String) :
    (submitLog cfg replies m jobId).requests = m.requests + 1 := by
  refine requests_requestWithRetry (submitCallbacks jobId) ?_ ?_ ?_ _ _ _ _
  · intro json m
    cases json with
    | invalid | other => exact requests_endSubmission _
    | object => exact (requests_track _ _ _).trans (requests_endSubmission _)
  · intro errorMsg m
    cases errorMsg <;> exact requests_endSubmission _
  · rintro _ ⟨⟩ m
    exact requests_endSubmission _

theorem requests_foldl_submitLog : ∀ m : Monitor,
    (ids.foldl (submitLog cfg replies) m).requests = m.requests + ids.length := by
  induction ids with
  | nil => exact fun _ => rfl
  | cons id ids ih =>
    intro m
    rw [foldl_cons, ih, requests_submitLog, length_cons]
    omega

/-- Among different jobs, one whose submission is answered is marked as submitted. -/
theorem foldl_submitLog_logSubmitted {ids : List String} (hnodup : ids.Nodup) (hid : jobId ∈ ids)
    (hanswer : answer (replies (m.requests + ids.idxOf jobId)) cfg.maxAttempts 0 ≠ .raised) :
    ((ids.foldl (submitLog cfg replies) m).view jobId).LogSubmitted := by
  obtain ⟨front, back, rfl⟩ := append_of_mem hid
  obtain ⟨-, hback, hdisjoint⟩ := nodup_append.mp hnodup
  have hfront : jobId ∉ front := fun hmem => hdisjoint _ hmem _ mem_cons_self rfl
  rw [idxOf_append_of_notMem hfront, idxOf_cons_self, Nat.add_zero] at hanswer
  have hother := (keyedStep_submitLog cfg replies).foldl_other back
    (submitLog cfg replies (front.foldl (submitLog cfg replies) m) jobId) (k := jobId)
    ((map_id back).symm ▸ (nodup_cons.mp hback).1)
  rw [foldl_append, foldl_cons, hother, submitLog, request]
  refine requestWithRetry_logSubmitted _ _ _ _ ?_
  change answer (replies (front.foldl (submitLog cfg replies) m).requests) _ _ ≠ _
  rwa [requests_foldl_submitLog]

/-! ## The rest of a poll -/

theorem fetchResults_logSubmitted (fetched : String)
    (h : (m.view jobId).LogSubmitted) :
    ((fetchResults cfg replies m fetched).view jobId).LogSubmitted := by
  obtain ⟨v', hview, hfetched⟩ := fetchResults_view cfg replies m fetched
  rw [hview]
  by_cases heq : jobId = fetched
  · subst heq
    rw [Function.update_self]
    have hsignal : (m.view jobId).signal.LogSubmitted := by
      unfold JobView.signal
      split
      · exact h
      · split
        · exact h
        · exact h.event _
    cases hfetched with
    | withoutCallback => exact hsignal.event _
    | recorded => exact ((hsignal.event _).event _).event _
  · rw [Function.update_of_ne heq]
    exact h

theorem foldl_fetchResults_logSubmitted : ∀ m : Monitor,
    (m.view jobId).LogSubmitted →
      ((ids.foldl (fetchResults cfg replies) m).view jobId).LogSubmitted := by
  induction ids with
  | nil => exact fun _ h => h
  | cons id ids ih => exact fun m h => ih _ (fetchResults_logSubmitted id h)

theorem cleanupOldJobs_logSubmitted (h : (m.view jobId).LogSubmitted) :
    ((cleanupOldJobs cfg m).view jobId).LogSubmitted := by
  intro tr htr
  obtain ⟨job, hjob, rfl⟩ := Option.map_eq_some_iff.mp htr
  exact h _ (Option.map_eq_some_iff.mpr ⟨job, cleanupOldJobs_get? jobId hjob, rfl⟩)

/-! ## Polls -/

theorem requests_getLogPath (m : Monitor) (job : SlurmJob) :
    (getLogPath cfg m job).1.requests = m.requests := by
  unfold getLogPath
  split
  · dsimp only
    split <;> rfl
  · rfl

theorem requests_modify (m : Monitor) (jobId : String) (f : SlurmJob → SlurmJob) :
    (m.modify jobId f).requests = m.requests := by
  unfold Monitor.modify
  split <;> rfl

theorem requests_markDisappeared (m : Monitor) (jobId : String) :
    (markDisappeared current m jobId).requests = m.requests := by
  unfold markDisappeared
  split
  · rfl
  · split
    · exact requests_modify _ _ _
    · rfl

theorem requests_syncRecord (m : Monitor) (jobId : String) (job : SlurmJob) :
    (syncRecord m jobId job).requests = m.requests := by
  unfold syncRecord
  split
  · rfl
  · split
    · exact requests_modify _ _ _
    · rfl

theorem requests_syncJob (entry : String × JobInfo) :
    (syncJob cfg acc entry).1.requests = acc.1.requests := by
  unfold syncJob
  dsimp only
  split
  · split
    · exact requests_syncRecord _ _ _
    · split
      · exact (requests_getLogPath _ _).trans (requests_syncRecord _ _ _)
      · exact requests_syncRecord _ _ _
  · rfl

theorem requests_fetchPath (fetched : Dict String (String × String)) (m : Monitor)
    (jobId : String) : (fetchPath fetched m jobId).requests = m.requests := by
  unfold fetchPath
  dsimp only
  split
  · split
    · exact requests_track _ _ _
    · exact (requests_modify _ _ _).trans (requests_track _ _ _)
  · exact requests_track _ _ _

theorem requests_collectJob (jobId : String) :
    (collectJob cfg acc jobId).1.requests = acc.1.requests := by
  unfold collectJob
  split
  · rfl
  · split
    · split
      · exact requests_track _ _ _
      · unfold collect
        dsimp only
        split
        · exact (requests_track _ _ _).trans (requests_getLogPath _ _)
        · exact requests_getLogPath _ _
    · rfl

theorem requests_syncJobs (m : Monitor) : (syncJobs cfg current m).1.requests = m.requests :=
  (foldl_unchanged (fun acc : Monitor × List String => acc.1.requests) requests_syncJob _ _).trans
    (foldl_unchanged Monitor.requests (requests_markDisappeared current) _ _)

/-- A poll submits nothing, or it submits the jobs that it has synchronized before any other
request. -/
theorem submissions_cases (cfg : Config) (replies : Replies) (m : Monitor) (poll : Poll) :
    submissions cfg m poll = [] ∨
    ∃ (current : Dict String JobInfo) (collected : Monitor × List String),
      poll.snapshot = some current ∧
      submissions cfg m poll = (syncJobs cfg current m).2 ∧ collected.1.requests = m.requests ∧
      pollAndProcess cfg replies m poll = cleanupOldJobs cfg
        (collected.2.foldl (fetchResults cfg replies)
          ((submissions cfg m poll).foldl (submitLog cfg replies) collected.1)) := by
  have hrequests : ∀ (current : Dict String JobInfo) (needing : List String)
      (fetched : Dict String (String × String)) (keys : List String),
      (keys.foldl (collectJob cfg)
        (needing.foldl (fetchPath fetched) (syncJobs cfg current m).1, [])).1.requests =
          m.requests := by
    intro current needing fetched keys
    refine (foldl_unchanged (fun acc : Monitor × List String => acc.1.requests)
      requests_collectJob _ _).trans ?_
    exact (foldl_unchanged Monitor.requests (requests_fetchPath _) _ _).trans
      (requests_syncJobs current m)
  unfold submissions pollAndProcess
  cases poll.snapshot with
  | none => exact .inl rfl
  | some current =>
    dsimp only
    generalize (((syncJobs cfg current m).1.jobs.entries.filter needsPath).map Prod.fst) = needing
    rcases needing with _ | ⟨first, rest⟩
    · exact .inr ⟨current, _, rfl, rfl, hrequests _ [] _ _, rfl⟩
    · cases poll.fetchedPaths with
      | none => exact .inl rfl
      | some fetched => exact .inr ⟨current, _, rfl, rfl, hrequests _ _ _ _, rfl⟩

theorem pollAndProcess_logSubmitted (hsafe : ∀ id, (m.view id).Safe cfg.maxGetAttempts)
    {poll : Poll} (hid : jobId ∈ submissions cfg m poll)
    (hanswer : answerTo cfg replies m poll jobId ≠ .raised) :
    ((pollAndProcess cfg replies m poll).view jobId).LogSubmitted := by
  rcases submissions_cases cfg replies m poll with
    hnone | ⟨current, collected, -, hsubmissions, hrequests, hpoll⟩
  · rw [hnone] at hid
    cases hid
  · have hnodup : (submissions cfg m poll).Nodup :=
      hsubmissions ▸ (syncJobs_keeps hsafe current).2.1
    rw [answerTo, ← hrequests] at hanswer
    rw [hpoll]
    exact cleanupOldJobs_logSubmitted (foldl_fetchResults_logSubmitted _ _
      (foldl_submitLog_logSubmitted hnodup hid hanswer))

/-- A job that is marked as submitted is not submitted. -/
theorem not_mem_submissions (hsafe : ∀ id, (m.view id).Safe cfg.maxGetAttempts) {job : SlurmJob}
    (hjob : m.jobs.get? jobId = some job) (hlog : job.tracking.logSubmitted = true)
    (poll : Poll) : jobId ∉ submissions cfg m poll := by
  intro hid
  rcases submissions_cases cfg (fun _ _ => .raised) m poll with
    hnone | ⟨current, -, -, hsubmissions, -, -⟩
  · rw [hnone] at hid
    cases hid
  · obtain ⟨hkeeps, -, hunsubmitted⟩ := syncJobs_keeps hsafe current
    obtain ⟨tr, htr, hnot⟩ := hunsubmitted jobId (hsubmissions ▸ hid)
    obtain ⟨tr', htr', hgrows, -⟩ := (hkeeps jobId).2.1 job.tracking
      (Option.map_eq_some_iff.mpr ⟨job, hjob, rfl⟩)
    obtain rfl := Option.mem_unique htr htr'
    exact absurd (hnot.symm.trans (hgrows.logSubmitted hlog)) Bool.false_ne_true

end Answers

/-! ## Runs -/

section Runs

variable {cfg : Config} {replies : Replies} {s : Watched}

theorem monitor_reachable (h : (watch cfg replies).Reachable (fun _ _ => True) s) :
    (system cfg replies).Reachable (fun _ _ => True) s.monitor := by
  induction h with
  | init hinit =>
    subst hinit
    exact .init rfl
  | step _ _ hstep ih =>
    cases hstep
    exact .step ih trivial rfl

/-- A job that was refused is tracked and marked as submitted. -/
theorem refused_logSubmitted (h : (watch cfg replies).Reachable (fun _ _ => True) s) :
    ∀ jobId, s.refused jobId = true →
      ∃ job, s.monitor.jobs.get? jobId = some job ∧ job.tracking.logSubmitted = true := by
  induction h with
  | init hinit =>
    subst hinit
    exact fun _ hrefused => absurd hrefused Bool.false_ne_true
  | @step s t poll hreach _ hstep ih =>
    cases hstep
    intro jobId hrefused
    have hsafe := safe_of_reachable (monitor_reachable hreach)
    obtain ⟨htracked, hrefused⟩ := Bool.and_eq_true_iff.mp hrefused
    obtain ⟨job', hjob'⟩ := Option.isSome_iff_exists.mp htracked
    refine ⟨job', hjob', ?_⟩
    have hview' : job'.tracking ∈
        ((pollAndProcess cfg replies s.monitor poll).view jobId).tracking :=
      Option.map_eq_some_iff.mpr ⟨job', hjob', rfl⟩
    have hbefore : s.refused jobId = true → job'.tracking.logSubmitted = true := by
      intro hold
      obtain ⟨job, hjob, hlog⟩ := ih jobId hold
      have hview : job.tracking ∈ (s.monitor.view jobId).tracking :=
        Option.map_eq_some_iff.mpr ⟨job, hjob, rfl⟩
      exact ((pollAndProcess_keeps hsafe poll jobId).2 _ hview _ hview').1.logSubmitted hlog
    split at hrefused
    · next hid =>
      cases hanswer : answerTo cfg replies s.monitor poll jobId with
      | refused statusCode =>
        refine pollAndProcess_logSubmitted hsafe hid ?_ _ hview'
        rw [hanswer]
        exact Answer.noConfusion
      | raised =>
        rw [hanswer] at hrefused
        exact hbefore hrefused
      | accepted | notFound | exhausted =>
        rw [hanswer] at hrefused
        cases hrefused
    · exact hbefore hrefused

/-- A poll submits the refused jobs that it should if and only if there are none. -/
theorem resubmits_iff (cfg : Config) (replies : Replies) (s : Watched)
    (hreach : (watch cfg replies).Reachable (fun _ _ => True) s) (poll : Poll) :
    Resubmits cfg s poll ↔ ∀ jobId, s.refused jobId = true → ¬ Reported cfg poll jobId := by
  have hsafe := safe_of_reachable (monitor_reachable hreach)
  constructor
  · intro hresubmits jobId hrefused hreported
    obtain ⟨job, hjob, hlog⟩ := refused_logSubmitted hreach jobId hrefused
    exact not_mem_submissions hsafe hjob hlog poll (hresubmits jobId hrefused hreported)
  · exact fun hnone jobId hrefused hreported => absurd hreported (hnone jobId hrefused)

end Runs

/-! ## A log that is written after the first poll -/

/-- The first request is refused, all others are accepted. -/
def refusedOnce : Replies :=
  fun request _ => if request = 0 then .response 400 .object (some "Log file is empty") false
    else .response 200 .object none false

def runningPoll : Poll :=
  ⟨some (oneJobSnapshot .running), some Dict.empty⟩

theorem exists_refused : ∃ s, (watch oneJobConfig refusedOnce).Reachable (fun _ _ => True) s ∧
    s.refused "7" = true := by
  have hrun : ((watch oneJobConfig refusedOnce).execute (fun _ _ => True) ⟨.start, fun _ => false⟩
      [runningPoll]).any (fun s => s.refused "7") = true := by
    decide +kernel
  exact System.exists_reachable_of_execute rfl hrun

theorem reported_runningPoll : Reported oneJobConfig runningPoll "7" :=
  ⟨oneJobSnapshot .running, ⟨"train", "user", "batch", .running, "/logs/7.out", ""⟩, rfl, rfl, rfl,
    by decide⟩

theorem not_all_resubmitted : ¬ ∀ (cfg : Config) (replies : Replies) (s : Watched),
    (watch cfg replies).Reachable (fun _ _ => True) s → ∀ poll, Resubmits cfg s poll := by
  intro h
  obtain ⟨s, hreach, hrefused⟩ := exists_refused
  obtain ⟨job, hjob, hlog⟩ := refused_logSubmitted hreach "7" hrefused
  exact not_mem_submissions (safe_of_reachable (monitor_reachable hreach)) hjob hlog runningPoll
    (h _ _ s hreach runningPoll "7" hrefused reported_runningPoll)

theorem resubmits_iff_refusedOnce : ∃ s, s.refused "7" = true ∧
    (Resubmits oneJobConfig s runningPoll ↔
      ∀ jobId, s.refused jobId = true → ¬ Reported oneJobConfig runningPoll jobId) := by
  obtain ⟨s, hreach, hrefused⟩ := exists_refused
  exact ⟨s, hrefused, resubmits_iff oneJobConfig refusedOnce s hreach runningPoll⟩

end ResiliencyExt.Services.Smonsvc
