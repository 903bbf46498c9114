import ResiliencyExt.Services.Smonsvc.JobLifecycle

set_option autoImplicit false

/-!
# The records of the tracked jobs

What each part of a poll makes of the record of a job.  Under the lock the state and the paths of
a record change; after that only its tracking fields do, until the record is removed.
-/

namespace ResiliencyExt.Services.Smonsvc

open Foundation List

/-- A record without its tracking fields. -/
def SlurmJob.untracked (job : SlurmJob) : SlurmJob :=
  { job with tracking := .fresh }

/-- The records without their tracking fields. -/
def Monitor.records (m : Monitor) (jobId : String) : Option SlurmJob :=
  (m.jobs.get? jobId).map SlurmJob.untracked

variable {cfg : Config} {replies : Replies} {m : Monitor}

theorem get?_modify (m : Monitor) (jobId key : String) (f : SlurmJob → SlurmJob) :
    (m.modify jobId f).jobs.get? key =
      if key = jobId then (m.jobs.get? key).map f else m.jobs.get? key := by
  unfold Monitor.modify
  split
  · next hnone =>
    split
    · next heq => rw [heq, hnone, Option.map_none]
    · rfl
  · next job hjob =>
    split
    · next heq =>
      subst heq
      rw [Dict.get?_set_self, hjob, Option.map_some]
    · next hne => exact Dict.get?_set_of_ne _ _ hne

/-! ## Under the lock -/

/-- The record of a job that squeue no longer reports. -/
def disappeared (current : Dict String JobInfo) (jobId : String) (job : SlurmJob) : SlurmJob :=
  if jobId ∉ current.keys ∧ job.state.isTerminal = false then
    { job with lastState := some job.state, state := .finished }
  else job

theorem get?_markDisappeared (current : Dict String JobInfo) (m : Monitor) (jobId key : String) :
    (markDisappeared current m jobId).jobs.get? key =
      if key = jobId then (m.jobs.get? key).map (disappeared current key) else m.jobs.get? key := by
  unfold markDisappeared
  split
  · next hnone =>
    split
    · next heq => rw [heq, hnone, Option.map_none]
    · rfl
  · next job hjob =>
    by_cases hgone : jobId ∉ current.keys ∧ job.state.isTerminal = false
    · rw [if_pos hgone, get?_modify]
      split
      · next heq =>
        subst heq
        rw [hjob, Option.map_some, Option.map_some, disappeared, if_pos hgone]
      · rfl
    · rw [if_neg hgone]
      split
      · next heq =>
        subst heq
        rw [hjob, Option.map_some, disappeared, if_neg hgone]
      · rfl

theorem keyedStep_get?_markDisappeared (current : Dict String JobInfo) :
    KeyedStep (fun (m : Monitor) => m.jobs.get?) id (fun _ => True) (fun _ => True)
      (fun _ _ => True) (markDisappeared current) where
  other m jobId key hne := by
    rw [get?_markDisappeared]
    exact if_neg hne
  own _ _ _ _ := ⟨trivial, trivial⟩

theorem get?_foldl_markDisappeared (current : Dict String JobInfo) (m : Monitor) (key : String) :
    (m.jobs.keys.foldl (markDisappeared current) m).jobs.get? key =
      (m.jobs.get? key).map (disappeared current key) := by
  have hstep := keyedStep_get?_markDisappeared current
  have hkeys : m.jobs.keys.map id = m.jobs.keys := map_id _
  by_cases hmem : key ∈ m.jobs.keys
  · obtain ⟨m', hsame, hfold⟩ := hstep.foldl_at (hkeys.symm ▸ m.jobs.nodup_keys) hmem m
    dsimp only [id] at hsame hfold
    rw [hfold, get?_markDisappeared, if_pos rfl, hsame]
  · have hnone : m.jobs.get? key = none := by
      refine Option.not_isSome_iff_eq_none.mp fun hsome => hmem ?_
      exact Dict.get?_isSome_iff.mp hsome
    rw [hstep.foldl_other m.jobs.keys m (hkeys.symm ▸ hmem), hnone]
    rfl

/-- The record of a job that squeue reports. -/
def synced (prev : Option SlurmJob) (job : SlurmJob) : SlurmJob :=
  match prev with
  | none => job
  | some prev =>
    if prev.state ≠ job.state then
      let copied := copyTrackingFields prev job
      { copied with
        stdoutPath := if copied.stdoutPath = "" then prev.stdoutPath else copied.stdoutPath
        stderrPath := if copied.stderrPath = "" then prev.stderrPath else copied.stderrPath }
    else prev

theorem get?_syncRecord (m : Monitor) (jobId key : String) (job : SlurmJob) :
    (syncRecord m jobId job).jobs.get? key =
      if key = jobId then some (synced (m.jobs.get? key) job) else m.jobs.get? key := by
  unfold syncRecord
  split
  · next hnone =>
    dsimp only
    by_cases heq : key = jobId
    · subst heq
      rw [if_pos rfl, hnone]
      exact Dict.get?_set_self _ _ _
    · rw [if_neg heq]
      exact Dict.get?_set_of_ne _ _ heq
  · next prev hprev =>
    by_cases hstate : prev.state ≠ job.state
    · rw [if_pos hstate, get?_modify]
      split
      · next heq =>
        subst heq
        rw [hprev, Option.map_some, synced, if_pos hstate]
      · rfl
    · rw [if_neg hstate]
      split
      · next heq =>
        subst heq
        rw [hprev, synced, if_neg hstate]
      · rfl

theorem jobs_getLogPath (m : Monitor) (job : SlurmJob) :
    (getLogPath cfg m job).1.jobs = m.jobs := by
  unfold getLogPath
  split
  · dsimp only
    split <;> rfl
  · rfl

/-- The job has a log path. -/
def HasLogPath (cfg : Config) (job : SlurmJob) : Prop :=
  job.stdoutPath ≠ "" ∧ (cfg.expandSlurmPatterns job).1 ≠ ""

theorem getLogPath_isSome (m : Monitor) (job : SlurmJob) :
    (getLogPath cfg m job).2.isSome = true ↔ HasLogPath cfg job := by
  unfold getLogPath HasLogPath
  split
  · next hpath =>
    dsimp only
    split
    · next hlog => exact iff_of_true rfl ⟨hpath, hlog⟩
    · next hnone => exact iff_of_false Bool.false_ne_true fun h => hnone h.2
  · next hpath => exact iff_of_false Bool.false_ne_true fun h => hpath h.1

/-- The job may be submitted. -/
def Eligible (cfg : Config) (job : SlurmJob) : Prop :=
  (job.tracking.logSubmitted = false ∧ job.tracking.resultFetched = false) ∧ HasLogPath cfg job

theorem get?_syncJob (acc : Monitor × List String) (entry : String × JobInfo) (key : String) :
    (syncJob cfg acc entry).1.jobs.get? key =
      if key = entry.1 ∧ cfg.matchesFilters (entry.2.record entry.1) = true then
        some (synced (acc.1.jobs.get? key) (entry.2.record entry.1))
      else acc.1.jobs.get? key := by
  have hrecord := get?_syncRecord acc.1 entry.1 key (entry.2.record entry.1)
  have hrest : (syncJob cfg acc entry).1.jobs.get? key =
      if cfg.matchesFilters (entry.2.record entry.1) = true then
        (syncRecord acc.1 entry.1 (entry.2.record entry.1)).jobs.get? key
      else acc.1.jobs.get? key := by
    unfold syncJob
    dsimp only
    split
    · split
      · rfl
      · split
        · rw [jobs_getLogPath]
        · rfl
    · rfl
  rw [hrest, hrecord]
  by_cases heq : key = entry.1 <;>
    by_cases hmatch : cfg.matchesFilters (entry.2.record entry.1) = true <;> simp [heq, hmatch]

theorem mem_syncJob (acc : Monitor × List String) (entry : String × JobInfo) (key : String) :
    key ∈ (syncJob cfg acc entry).2 ↔ key ∈ acc.2 ∨
      key = entry.1 ∧ cfg.matchesFilters (entry.2.record entry.1) = true ∧
        Eligible cfg (synced (acc.1.jobs.get? key) (entry.2.record entry.1)) := by
  have hrecord := get?_syncRecord acc.1 entry.1 entry.1 (entry.2.record entry.1)
  rw [if_pos rfl] at hrecord
  unfold syncJob
  dsimp only
  by_cases hmatch : cfg.matchesFilters (entry.2.record entry.1) = true
  · rw [if_pos hmatch, hrecord]
    dsimp only
    split
    · next hopen =>
      dsimp only
      by_cases hpath : (getLogPath cfg (syncRecord acc.1 entry.1 (entry.2.record entry.1))
          (synced (acc.1.jobs.get? entry.1) (entry.2.record entry.1))).2.isSome = true
      · rw [if_pos hpath, mem_append, mem_singleton]
        refine or_congr_right ⟨fun heq => ⟨heq, hmatch, ?_⟩, fun h => h.1⟩
        rw [heq]
        exact ⟨hopen, (getLogPath_isSome _ _).mp hpath⟩
      · rw [if_neg hpath]
        refine (or_iff_left fun h => ?_).symm
        obtain ⟨rfl, -, -, hlog⟩ := h
        exact hpath ((getLogPath_isSome _ _).mpr hlog)
    · next hclosed =>
      refine (or_iff_left fun h => ?_).symm
      obtain ⟨rfl, -, hopen, -⟩ := h
      exact hclosed hopen
  · rw [if_neg hmatch]
    exact (or_iff_left fun h => hmatch h.2.1).symm

theorem keyedStep_get?_syncJob (cfg : Config) :
    KeyedStep (fun (acc : Monitor × List String) => acc.1.jobs.get?) Prod.fst (fun _ => True)
      (fun _ => True) (fun _ _ => True) (syncJob cfg) where
  other acc entry key hne := by rw [get?_syncJob, if_neg fun h => hne h.1]
  own _ _ _ _ := ⟨trivial, trivial⟩

theorem foldl_syncJob_reported {entries : List (String × JobInfo)}
    (hnodup : (entries.map Prod.fst).Nodup) {entry : String × JobInfo} (hentry : entry ∈ entries)
    (hmatch : cfg.matchesFilters (entry.2.record entry.1) = true) (acc : Monitor × List String) :
    (entries.foldl (syncJob cfg) acc).1.jobs.get? entry.1 =
      some (synced (acc.1.jobs.get? entry.1) (entry.2.record entry.1)) := by
  obtain ⟨acc', hsame, hfold⟩ := (keyedStep_get?_syncJob cfg).foldl_at hnodup hentry acc
  rw [hfold, get?_syncJob, if_pos ⟨rfl, hmatch⟩, hsame]

theorem mem_foldl_syncJob (entries : List (String × JobInfo)) (key : String) :
    ∀ acc : Monitor × List String, (entries.map Prod.fst).Nodup →
      (key ∈ (entries.foldl (syncJob cfg) acc).2 ↔ key ∈ acc.2 ∨ ∃ info, (key, info) ∈ entries ∧
        cfg.matchesFilters (info.record key) = true ∧
        Eligible cfg (synced (acc.1.jobs.get? key) (info.record key))) := by
  induction entries with
  | nil => exact fun acc _ => ⟨.inl, fun h => h.elim id fun ⟨_, hmem, _⟩ => nomatch hmem⟩
  | cons entry entries ih =>
    intro acc hnodup
    obtain ⟨hnew, hnodup⟩ := nodup_cons.mp hnodup
    rw [foldl_cons, ih _ hnodup, mem_syncJob, or_assoc]
    refine or_congr_right ?_
    constructor
    · rintro (⟨rfl, hmatch, heligible⟩ | ⟨info, hmem, hmatch, heligible⟩)
      · exact ⟨entry.2, mem_cons_self, hmatch, heligible⟩
      · have hne : key ≠ entry.1 := fun heq => hnew (heq ▸ mem_map_of_mem hmem)
        rw [get?_syncJob, if_neg fun h => hne h.1] at heligible
        exact ⟨info, mem_cons_of_mem _ hmem, hmatch, heligible⟩
    · rintro ⟨info, hmem, hmatch, heligible⟩
      rcases mem_cons.mp hmem with rfl | hmem
      · exact .inl ⟨rfl, hmatch, heligible⟩
      · have hne : key ≠ entry.1 := fun heq => hnew (heq ▸ mem_map_of_mem hmem)
        refine .inr ⟨info, hmem, hmatch, ?_⟩
        rwa [get?_syncJob, if_neg fun h => hne h.1]

section Synced

variable {current : Dict String JobInfo} {jobId : String} {info : JobInfo}

theorem disappeared_of_reported (h : current.get? jobId = some info) :
    disappeared current jobId = id := by
  funext job
  exact if_neg fun hgone => hgone.1 (Dict.mem_keys_of_get? h)

/-- A job that squeue reports and that matches the filters. -/
theorem get?_syncJobs_of_reported (h : current.get? jobId = some info)
    (hmatch : cfg.matchesFilters (info.record jobId) = true) :
    (syncJobs cfg current m).1.jobs.get? jobId =
      some (synced (m.jobs.get? jobId) (info.record jobId)) := by
  have hfold := foldl_syncJob_reported current.nodup (Dict.mem_of_get?_eq_some h) hmatch
    (m.jobs.keys.foldl (markDisappeared current) m, [])
  rw [get?_foldl_markDisappeared, disappeared_of_reported h, Option.map_id] at hfold
  exact hfold

/-- Any other job. -/
theorem get?_syncJobs_of_not_matching (h : ∀ info, current.get? jobId = some info →
    cfg.matchesFilters (info.record jobId) ≠ true) :
    (syncJobs cfg current m).1.jobs.get? jobId =
      (m.jobs.get? jobId).map (disappeared current jobId) := by
  rw [← get?_foldl_markDisappeared]
  unfold syncJobs
  have hsame : ∀ (entries : List (String × JobInfo)) (acc : Monitor × List String),
      (∀ entry ∈ entries, entry.1 = jobId →
        cfg.matchesFilters (entry.2.record entry.1) ≠ true) →
      (entries.foldl (syncJob cfg) acc).1.jobs.get? jobId = acc.1.jobs.get? jobId := by
    intro entries
    induction entries with
    | nil => exact fun _ _ => rfl
    | cons entry entries ih =>
      intro acc hnot
      rw [foldl_cons, ih _ fun other hother => hnot other (mem_cons_of_mem _ hother),
        get?_syncJob, if_neg]
      rintro ⟨rfl, hmatch⟩
      exact hnot entry mem_cons_self rfl hmatch
  refine hsame _ _ fun entry hentry heq => ?_
  subst heq
  exact h entry.2 (Dict.get?_eq_some_of_mem hentry)

/-- The jobs that are to be submitted. -/
theorem mem_syncJobs_iff : jobId ∈ (syncJobs cfg current m).2 ↔
    ∃ info, current.get? jobId = some info ∧ cfg.matchesFilters (info.record jobId) = true ∧
      Eligible cfg (synced (m.jobs.get? jobId) (info.record jobId)) := by
  unfold syncJobs
  rw [mem_foldl_syncJob _ _ _ current.nodup, or_iff_right not_mem_nil]
  refine exists_congr fun info => ?_
  rw [get?_foldl_markDisappeared]
  constructor
  · rintro ⟨hmem, hmatch, heligible⟩
    have hget := Dict.get?_eq_some_of_mem hmem
    rw [disappeared_of_reported hget, Option.map_id] at heligible
    exact ⟨hget, hmatch, heligible⟩
  · rintro ⟨hget, hmatch, heligible⟩
    rw [disappeared_of_reported hget, Option.map_id]
    exact ⟨Dict.mem_of_get?_eq_some hget, hmatch, heligible⟩

end Synced

/-! ## After the lock -/

namespace Monitor

theorem records_modify (m : Monitor) (jobId : String) {f : SlurmJob → SlurmJob}
    (hf : ∀ job, (f job).untracked = job.untracked) : (m.modify jobId f).records = m.records := by
  funext key
  unfold records
  rw [get?_modify]
  split
  · rw [Option.map_map]
    exact congrArg (Option.map · _) (funext hf)
  · rfl

theorem records_track (m : Monitor) (jobId : String) (f : Tracking → Tracking) :
    (m.track jobId f).records = m.records :=
  m.records_modify jobId fun _ => rfl

end Monitor

theorem records_getLogPath (m : Monitor) (job : SlurmJob) :
    (getLogPath cfg m job).1.records = m.records := by
  funext key
  rw [Monitor.records, jobs_getLogPath]
  rfl

theorem records_request {callbacks : Callbacks}
    (hsuccess : ∀ json m, (callbacks.onSuccess json m).records = m.records)
    (hclient : ∀ errorMsg m, (callbacks.onClientError errorMsg m).records = m.records)
    (h404 : ∀ on404, callbacks.on404 = some on404 → ∀ m, (on404 m).records = m.records)
    (m : Monitor) : (request cfg replies callbacks m).records = m.records :=
  requestWithRetry_rule (P := fun m' => m'.records = m.records)
    (Q := fun m' => m'.records = m.records) (fun _ _ h => h) (fun _ h => h)
    (fun json m' h => (hsuccess json m').trans h)
      (fun errorMsg m' h => (hclient errorMsg m').trans h)
    (fun on404 heq m' h => (h404 on404 heq m').trans h) _ _ _ _ rfl

theorem records_endSubmission (jobId : String) (callback : Callback) (m : Monitor) :
    (endSubmission jobId callback m).records = m.records :=
  Monitor.records_track _ _ _

theorem records_categorizePathError (errorMsg : Option String) (m : Monitor) :
    (categorizePathError errorMsg m).records = m.records := by
  cases errorMsg <;> rfl

theorem records_submitLog (m : Monitor) (jobId : String) :
    (submitLog cfg replies m jobId).records = m.records := by
  refine records_request ?_ ?_ ?_ _
  · intro json m
    cases json with
    | invalid | other => exact records_endSubmission _ _ _
    | object => exact (Monitor.records_track _ _ _).trans (records_endSubmission _ _ _)
  · exact fun errorMsg m =>
      (records_categorizePathError _ _).trans (records_endSubmission _ _ _)
  · rintro _ ⟨⟩ m
    exact records_endSubmission _ _ _

theorem records_recordResult (jobId : String) (m : Monitor) :
    (recordResult jobId m).records = m.records :=
  Monitor.records_track _ _ _

theorem records_terminalRequest (m : Monitor) :
    (request cfg replies terminalCallbacks m).records = m.records := by
  refine records_request (fun _ _ => rfl) (fun _ _ => rfl) ?_ m
  rintro _ ⟨⟩

theorem records_fetchResults (m : Monitor) (jobId : String) :
    (fetchResults cfg replies m jobId).records = m.records := by
  unfold fetchResults
  refine (records_request ?_ ?_ ?_ _).trans ?_
  · exact fun _ m => records_recordResult jobId m
  · exact fun errorMsg m =>
      (records_categorizePathError _ _).trans (records_recordResult jobId m)
  · exact nofun
  · split
    · rfl
    · split
      · rfl
      · exact (records_terminalRequest _).trans (Monitor.records_track _ _ _)

theorem Collects.records {acc acc' : Monitor × List String} {jobId : String}
    (h : Collects cfg acc jobId acc') : acc'.1.records = acc.1.records := by
  cases h with
  | skip => rfl
  | exhausted => exact Monitor.records_track _ _ _
  | collect _ _ _ _ _ =>
    unfold Smonsvc.collect
    dsimp only
    split
    · exact (Monitor.records_track _ _ _).trans (records_getLogPath _ _)
    · exact records_getLogPath _ _

/-- The loops of a poll that come after the paths were looked up. -/
theorem records_collectJobs (m : Monitor) (keys : List String) :
    (keys.foldl (collectJob cfg) (m, [])).1.records = m.records :=
  foldl_unchanged (fun acc : Monitor × List String => acc.1.records)
    (fun acc jobId => (collectJob_collects acc jobId).records) keys (m, [])

theorem records_fetchPendingResults (m : Monitor) :
    (fetchPendingResults cfg replies m).records = m.records :=
  (foldl_unchanged Monitor.records records_fetchResults _ _).trans
    (foldl_unchanged (fun acc : Monitor × List String => acc.1.records)
      (fun acc jobId => (collectPending_collects acc jobId).records) _ (m, []))

end ResiliencyExt.Services.Smonsvc
