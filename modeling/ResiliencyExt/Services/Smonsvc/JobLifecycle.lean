import ResiliencyExt.Foundation.KeyedFold
import ResiliencyExt.Services.Smonsvc.JobViews

set_option autoImplicit false

/-!
# The life of a tracked job

Each loop of a poll touches the job of each of its items only.  The jobs that it submits
and those whose results it fetches are collected before, and nothing between changes what
they were collected for.
-/

namespace ResiliencyExt.Services.Smonsvc

open Foundation List Function

variable {cfg : Config} {replies : Replies}

/-- What happens to a job under the lock: it does not lose a field, and is not submitted. -/
def JobView.Prepares (v v' : JobView) : Prop :=
  v.Grows v' ∧ (v.Unsubmitted → v'.Unsubmitted)

variable {v : JobView} (acc : Monitor × List String) (fetched : Dict String (String × String))

theorem JobView.Prepares.refl (v : JobView) : v.Prepares v :=
  ⟨.refl v, id⟩

theorem JobView.prepares_event {e : Event}
    (he : ∀ tr : Tracking, (tr.after e).logSubmitted = tr.logSubmitted) :
    v.Prepares (v.event e) := by
  refine ⟨v.grows_event e, ?_⟩
  rintro ⟨tr, htr, hlog⟩
  exact ⟨_, Option.mem_map_of_mem _ htr, (he tr).trans hlog⟩

/-! ## The loops of a poll -/

theorem keyedStep_submitLog (cfg : Config) (replies : Replies) :
    KeyedStep Monitor.view id (JobView.Safe cfg.maxGetAttempts) JobView.Unsubmitted
      JobView.Grows (submitLog cfg replies) :=
  .of_update fun m jobId =>
    (submitLog_view cfg replies m jobId).imp fun _ h => ⟨h.1, h.2.keeps⟩

theorem keyedStep_fetchResults (cfg : Config) (replies : Replies) :
    KeyedStep Monitor.view id (JobView.Safe cfg.maxGetAttempts) JobView.Ready
      JobView.Grows (fetchResults cfg replies) :=
  .of_update fun m jobId =>
    (fetchResults_view cfg replies m jobId).imp fun _ h => ⟨h.1, h.2.keeps⟩

theorem view_getLogPath (m : Monitor) (job : SlurmJob) :
    (getLogPath cfg m job).1.view = m.view := by
  unfold getLogPath
  split
  · dsimp only
    split_ifs <;> rfl
  · rfl

theorem view_markDisappeared (current : Dict String JobInfo) (m : Monitor) (jobId : String) :
    (markDisappeared current m jobId).view = m.view := by
  unfold markDisappeared
  split
  · rfl
  · split_ifs
    · exact m.view_modify_self _ _ fun _ => rfl
    · rfl

/-- A record is new, or its tracking fields are those it had. -/
theorem view_syncRecord (m : Monitor) (jobId : String) (job : SlurmJob)
    (hfresh : job.tracking = .fresh) :
    (syncRecord m jobId job).view = m.view ∨
      (syncRecord m jobId job).view = update m.view jobId ⟨some .fresh, []⟩ ∧
        (m.view jobId).tracking = none := by
  unfold syncRecord
  split
  next hnone =>
      refine .inr ⟨?_, by simp [Monitor.view, hnone]⟩
      funext k
      by_cases hk : k = jobId
      · subst hk
        simp [Monitor.view, Dict.get?_set_self, hfresh]
      · simp [Monitor.view, Dict.get?_set_of_ne _ _ hk, hk]
  next prev hprev =>
      refine .inl ?_
      split_ifs
      · funext k
        simp only [Monitor.modify, hprev, Monitor.view]
        by_cases hk : k = jobId
        · subst hk
          simp [Dict.get?_set_self, hprev, copyTrackingFields]
        · rw [Dict.get?_set_of_ne _ _ hk]
      · rfl

/-- The view of a job after it was synchronized, and whether it is collected for submission. -/
theorem syncJob_view (cfg : Config) (acc : Monitor × List String)
    (entry : String × JobInfo) :
    syncJob cfg acc entry = acc ∨
      (syncJob cfg acc entry).1.view = (syncRecord acc.1 entry.1 (entry.2.record entry.1)).view ∧
        ((syncJob cfg acc entry).2 = acc.2 ∨ (syncJob cfg acc entry).2 = acc.2 ++ [entry.1] ∧
          ((syncJob cfg acc entry).1.view entry.1).Unsubmitted) := by
  unfold syncJob
  dsimp only
  split
  · refine .inr ?_
    split
    · exact ⟨rfl, .inl rfl⟩
    next tracked htracked =>
        split_ifs with hcollect hpath
        · refine ⟨view_getLogPath _ _, .inr ⟨rfl, ?_⟩⟩
          rw [view_getLogPath]
          exact ⟨tracked.tracking, by simp [Monitor.view, htracked], hcollect.1⟩
        · exact ⟨view_getLogPath _ _, .inl rfl⟩
        · exact ⟨rfl, .inl rfl⟩
  · exact .inl rfl

theorem keyedStep_syncJob (cfg : Config) :
    KeyedStep (fun acc : Monitor × List String => acc.1.view) Prod.fst
      (JobView.Safe cfg.maxGetAttempts) (fun _ => True) JobView.Prepares (syncJob cfg) := by
  refine .of_update fun acc entry => ?_
  have hsame : ∃ v, acc.1.view = update acc.1.view entry.1 v ∧
      ((acc.1.view entry.1).Safe cfg.maxGetAttempts → True → v.Safe cfg.maxGetAttempts ∧
        (acc.1.view entry.1).Prepares v) :=
    ⟨_, (update_eq_self _ _).symm, fun hsafe _ => ⟨hsafe, .refl _⟩⟩
  rcases syncJob_view cfg acc entry with hskip | ⟨hview, -⟩
  · rw [hskip]
    exact hsame
  · rw [hview]
    rcases view_syncRecord acc.1 entry.1 (entry.2.record entry.1) rfl
      with hold | ⟨hnew, hnone⟩
    · rw [hold]
      exact hsame
    · refine ⟨_, hnew, fun _ _ => ⟨⟨lifecycle_nil, ?_⟩, ?_, ?_⟩⟩
      · rintro tr ⟨⟩
        exact fits_fresh
      · exact fun tr htr => absurd (hnone.symm.trans htr) (Option.some_ne_none tr).symm
      · rintro ⟨tr, htr, -⟩
        exact absurd (hnone.symm.trans htr) (Option.some_ne_none tr).symm

theorem fetchPath_view (m : Monitor) (jobId : String) :
    (fetchPath fetched m jobId).view = update m.view jobId
      ⟨(m.view jobId).tracking.map fun tr => { tr with pathFetchAttempted := true },
        (m.view jobId).history⟩ := by
  have htried := m.view_track jobId fun tr => { tr with pathFetchAttempted := true }
  unfold fetchPath
  dsimp only
  split
  · split
    · exact htried
    · refine (Monitor.view_modify_self _ _ _ ?_).trans htried
      exact fun _ => rfl
  · exact htried

theorem keyedStep_fetchPath :
    KeyedStep Monitor.view id (JobView.Safe cfg.maxGetAttempts) (fun _ => True)
      JobView.Prepares (fetchPath fetched) := by
  refine .of_update fun m jobId => ⟨_, fetchPath_view fetched m jobId, fun hsafe _ =>
    ⟨⟨hsafe.1, ?_⟩, ?_, ?_⟩⟩
  · intro tr' htr'
    obtain ⟨tr, htr, rfl⟩ := Option.map_eq_some_iff.mp htr'
    exact { hsafe.2 tr htr with }
  · exact fun tr htr => ⟨_, Option.mem_map_of_mem _ htr, ⟨id, id, id, id, fun _ => rfl, le_rfl⟩,
      prefix_rfl⟩
  · rintro ⟨tr, htr, hlog⟩
    exact ⟨_, Option.mem_map_of_mem _ htr, hlog⟩

/-! ## Collecting -/

theorem JobView.Safe.collected (hsafe : v.Safe cfg.maxGetAttempts) {tr : Tracking}
    (htr : tr ∈ v.tracking) {state : JobState} (hterminal : state.isTerminal = true)
    (hpost : tr.postSuccess = true) (hresult : tr.resultFetched = false)
    (hattempts : tr.getAttempts < cfg.maxGetAttempts) :
    (v.event (.collected state)).Safe cfg.maxGetAttempts ∧
      (v.event (.collected state)).Ready := by
  have hfits := hsafe.2 tr htr
  refine ⟨hsafe.event (allows_collected (hfits.attempts ▸ hattempts)) nofun, ?_, ?_, ?_⟩
  · exact ⟨_, Option.mem_map_of_mem _ htr, hpost, hresult⟩
  · refine ⟨state, ?_, hterminal⟩
    change lastCollected (v.history ++ [.collected state]) = _
    rw [lastCollected, foldl_append]
    rfl
  · change (v.history ++ [Event.collected state]).count Event.get <
      (v.history ++ [Event.collected state]).countP Event.isCollected
    rw [count_concat_of_ne (Event.noConfusion : Event.collected state ≠ .get),
      countP_append]
    exact Nat.lt_succ_of_le hsafe.1.gets

/-- What a loop that collects jobs for a fetch does to the job of one item. -/
inductive Collects (cfg : Config) (acc : Monitor × List String) (jobId : String) :
    Monitor × List String → Prop where
  | skip : Collects cfg acc jobId acc
  | exhausted : Collects cfg acc jobId (markGetExhausted acc.1 jobId, acc.2)
  | collect {job : SlurmJob} (hjob : acc.1.jobs.get? jobId = some job)
      (hterminal : job.state.isTerminal = true) (hpost : job.tracking.postSuccess = true)
      (hresult : job.tracking.resultFetched = false)
      (hattempts : job.tracking.getAttempts < cfg.maxGetAttempts) :
      Collects cfg acc jobId (collect cfg acc job jobId)

theorem collectJob_collects (jobId : String) :
    Collects cfg acc jobId (collectJob cfg acc jobId) := by
  unfold collectJob
  split
  · exact .skip
  next job hjob =>
      split_ifs with hdue hattempts
      · exact .exhausted
      · exact .collect hjob hdue.1 hdue.2.1 hdue.2.2 (Nat.lt_of_not_le hattempts)
      · exact .skip

theorem collectPending_collects (jobId : String) :
    Collects cfg acc jobId (collectPending cfg acc jobId) := by
  unfold collectPending
  split
  · exact .skip
  next job hjob =>
      split_ifs with hdue hattempts
      · exact .collect hjob hdue.1 hdue.2.1 hdue.2.2.1 hdue.2.2.2
      · exact .exhausted
      · exact .skip

theorem collect_view (cfg : Config) (acc : Monitor × List String) (job : SlurmJob)
    (jobId : String) :
    (collect cfg acc job jobId).1.view = acc.1.view ∧ (collect cfg acc job jobId).2 = acc.2 ∨
      (collect cfg acc job jobId).1.view = update acc.1.view jobId
          ((acc.1.view jobId).event (.collected job.state)) ∧
        (collect cfg acc job jobId).2 = acc.2 ++ [jobId] := by
  unfold collect
  dsimp only
  split
  · refine .inr ⟨?_, rfl⟩
    rw [Monitor.view_happen_track, view_getLogPath]
    exact fun _ => rfl
  · exact .inl ⟨view_getLogPath _ _, rfl⟩

/-- The view of the job of the item, and whether it is collected. -/
theorem Collects.view {acc acc' : Monitor × List String} {jobId : String}
    (h : Collects cfg acc jobId acc') : ∃ v', acc'.1.view = update acc.1.view jobId v' ∧
      ((acc.1.view jobId).Safe cfg.maxGetAttempts → v'.Safe cfg.maxGetAttempts ∧
        (acc.1.view jobId).Prepares v' ∧ (acc'.2 = acc.2 ∨ acc'.2 = acc.2 ++ [jobId] ∧ v'.Ready))
    := by
  have hsame := (update_eq_self jobId acc.1.view).symm
  cases h with
  | skip => exact ⟨_, hsame, fun hsafe => ⟨hsafe, .refl _, .inl rfl⟩⟩
  | exhausted =>
    refine ⟨_, acc.1.view_happen_track jobId .recorded fun _ => rfl, fun hsafe =>
      ⟨hsafe.event allows_recorded nofun, JobView.prepares_event fun _ => rfl, .inl rfl⟩⟩
  | @collect job hjob hterminal hpost hresult hattempts =>
    rcases collect_view cfg acc job jobId with ⟨hview, hout⟩ | ⟨hview, hout⟩
    · exact ⟨_, hview.trans hsame, fun hsafe => ⟨hsafe, .refl _, .inl hout⟩⟩
    · refine ⟨_, hview, fun hsafe => ?_⟩
      have htr : job.tracking ∈ (acc.1.view jobId).tracking := by
        simp [Monitor.view, hjob]
      obtain ⟨hsafe', hready⟩ := hsafe.collected htr hterminal hpost hresult hattempts
      exact ⟨hsafe', JobView.prepares_event fun _ => rfl, .inr ⟨hout, hready⟩⟩

section Collecting

variable {f : Monitor × List String → String → Monitor × List String}

theorem keyedStep_collects (hf : ∀ acc jobId, Collects cfg acc jobId (f acc jobId)) :
    KeyedStep (fun acc : Monitor × List String => acc.1.view) id
      (JobView.Safe cfg.maxGetAttempts) (fun _ => True) JobView.Prepares f :=
  .of_update fun acc jobId => (hf acc jobId).view.imp fun _ h =>
    ⟨h.1, fun hsafe _ => ⟨(h.2 hsafe).1, (h.2 hsafe).2.1⟩⟩

theorem collects_out (hf : ∀ acc jobId, Collects cfg acc jobId (f acc jobId))
    (acc : Monitor × List String) (jobId : String)
    (hsafe : (acc.1.view jobId).Safe cfg.maxGetAttempts) :
    (f acc jobId).2 = acc.2 ∨
      (f acc jobId).2 = acc.2 ++ [jobId] ∧ ((f acc jobId).1.view jobId).Ready := by
  obtain ⟨v', hview, hkeep⟩ := (hf acc jobId).view
  rw [hview, update_self]
  exact (hkeep hsafe).2.2

end Collecting

/-! ## Polls -/

theorem view_foldl_markDisappeared (current : Dict String JobInfo) (ids : List String) :
    ∀ m : Monitor, (ids.foldl (markDisappeared current) m).view = m.view := by
  induction ids with
  | nil => exact fun _ => rfl
  | cons jobId ids ih => exact fun m => (ih _).trans (view_markDisappeared current m jobId)

variable {m : Monitor}

/-- The part of a poll under the lock. -/
theorem syncJobs_keeps (hsafe : ∀ id, (m.view id).Safe cfg.maxGetAttempts)
    (current : Dict String JobInfo) :
    (∀ id, ((syncJobs cfg current m).1.view id).Safe cfg.maxGetAttempts ∧
      (m.view id).Prepares ((syncJobs cfg current m).1.view id)) ∧
    (syncJobs cfg current m).2.Nodup ∧
    ∀ id ∈ (syncJobs cfg current m).2, ((syncJobs cfg current m).1.view id).Unsubmitted := by
  have hmarked := view_foldl_markDisappeared current m.jobs.keys m
  have hsafe' : ∀ id, (((m.jobs.keys.foldl (markDisappeared current) m).view) id).Safe
      cfg.maxGetAttempts := fun id => by
    rw [hmarked]
    exact hsafe id
  have hstep := keyedStep_syncJob cfg
  obtain ⟨added, hout, hsub, hunsubmitted⟩ := hstep.foldl_collected Prod.snd
    (Q := JobView.Unsubmitted) (fun acc entry _ _ => by
      rcases syncJob_view cfg acc entry with hskip | ⟨-, hout⟩
      · exact .inl (congrArg Prod.snd hskip)
      · exact hout)
    current.nodup_keys (b := (m.jobs.keys.foldl (markDisappeared current) m, [])) hsafe'
    fun _ _ => trivial
  replace hout := hout.trans (nil_append added)
  refine ⟨fun id => ?_, ?_, ?_⟩
  · have h := hstep.foldl JobView.Prepares.refl current.nodup_keys
      (b := (m.jobs.keys.foldl (markDisappeared current) m, [])) hsafe' (fun _ _ => trivial) id
    rw [hmarked] at h
    exact h
  · exact hout ▸ hsub.nodup current.nodup_keys
  · exact fun id hid => hunsubmitted id (hout ▸ hid)

/-- A loop that collects jobs for a fetch. -/
theorem collects_keeps {f : Monitor × List String → String → Monitor × List String}
    (hf : ∀ acc jobId, Collects cfg acc jobId (f acc jobId))
    (hsafe : ∀ id, (m.view id).Safe cfg.maxGetAttempts) :
    (∀ id, ((m.jobs.keys.foldl f (m, [])).1.view id).Safe cfg.maxGetAttempts ∧
      (m.view id).Prepares ((m.jobs.keys.foldl f (m, [])).1.view id)) ∧
    (m.jobs.keys.foldl f (m, [])).2.Nodup ∧
    ∀ id ∈ (m.jobs.keys.foldl f (m, [])).2, ((m.jobs.keys.foldl f (m, [])).1.view id).Ready := by
  have hnodup : (m.jobs.keys.map id).Nodup := (map_id _).symm ▸ m.jobs.nodup_keys
  obtain ⟨added, hout, hsub, hready⟩ := (keyedStep_collects hf).foldl_collected
    Prod.snd (fun acc jobId hsafe _ => collects_out hf acc jobId hsafe) hnodup
    (b := (m, [])) hsafe fun _ _ => trivial
  replace hout := hout.trans (nil_append added)
  refine ⟨(keyedStep_collects hf).foldl JobView.Prepares.refl hnodup (b := (m, [])) hsafe
    fun _ _ => trivial, hout ▸ hsub.nodup hnodup, fun id hid => hready id (hout ▸ hid)⟩

theorem fetches_keep (replies : Replies)
    (hsafe : ∀ id, (m.view id).Safe cfg.maxGetAttempts) {ids : List String}
    (hnodup : ids.Nodup) (hready : ∀ id ∈ ids, (m.view id).Ready) (id : String) :
    ((ids.foldl (fetchResults cfg replies) m).view id).Safe cfg.maxGetAttempts ∧
      (m.view id).Grows ((ids.foldl (fetchResults cfg replies) m).view id) :=
  (keyedStep_fetchResults cfg replies).foldl JobView.Grows.refl ((map_id ids).symm ▸ hnodup) hsafe hready
    id

theorem fetchPendingResults_keeps (hsafe : ∀ id, (m.view id).Safe cfg.maxGetAttempts)
    (id : String) :
    ((fetchPendingResults cfg replies m).view id).Safe cfg.maxGetAttempts ∧
      (m.view id).Grows ((fetchPendingResults cfg replies m).view id) := by
  obtain ⟨hcollected, hnodup, hready⟩ := collects_keeps collectPending_collects hsafe
  obtain ⟨hsafe', hgrows⟩ := fetches_keep replies (fun id => (hcollected id).1)
    hnodup hready id
  exact ⟨hsafe', (hcollected id).2.1.trans hgrows⟩

theorem fetchPaths_keep (hsafe : ∀ id, (m.view id).Safe cfg.maxGetAttempts)
    (fetched : Dict String (String × String)) (id : String) :
    ((((m.jobs.entries.filter needsPath).map Prod.fst).foldl (fetchPath fetched) m).view
        id).Safe cfg.maxGetAttempts ∧
      (m.view id).Prepares ((((m.jobs.entries.filter needsPath).map Prod.fst).foldl
        (fetchPath fetched) m).view id) := by
  have hsub : ((m.jobs.entries.filter needsPath).map Prod.fst).Sublist m.jobs.keys :=
    filter_sublist.map _
  exact (keyedStep_fetchPath fetched).foldl JobView.Prepares.refl
    ((map_id _).symm ▸ hsub.nodup m.jobs.nodup_keys) hsafe (fun _ _ => trivial) id

/-- The requests of a poll: no job is both submitted and fetched. -/
theorem requests_keep (replies : Replies)
    (hsafe : ∀ id, (m.view id).Safe cfg.maxGetAttempts)
    {toSubmit toFetch : List String} (hsubmit : toSubmit.Nodup) (hfetch : toFetch.Nodup)
    (hunsubmitted : ∀ id ∈ toSubmit, (m.view id).Unsubmitted)
    (hready : ∀ id ∈ toFetch, (m.view id).Ready) (id : String) :
    ((toFetch.foldl (fetchResults cfg replies)
        (toSubmit.foldl (submitLog cfg replies) m)).view id).Safe cfg.maxGetAttempts ∧
      (m.view id).Grows ((toFetch.foldl (fetchResults cfg replies)
        (toSubmit.foldl (submitLog cfg replies) m)).view id) := by
  have hdisjoint : ∀ id ∈ toFetch, id ∉ toSubmit := by
    intro id hfetched hsubmitted
    obtain ⟨tr, htr, hlog⟩ := hunsubmitted id hsubmitted
    obtain ⟨tr', htr', hpost, -⟩ := (hready id hfetched).fields
    obtain rfl := Option.mem_unique htr htr'
    exact absurd (hlog.symm.trans (((hsafe id).2 tr htr).postSubmitted hpost))
      Bool.false_ne_true
  have hstep := keyedStep_submitLog cfg replies
  have hsubmitted := hstep.foldl JobView.Grows.refl ((map_id toSubmit).symm ▸ hsubmit)
    hsafe hunsubmitted
  have hsame : ∀ id ∈ toFetch,
      (toSubmit.foldl (submitLog cfg replies) m).view id = m.view id := fun id hfetched =>
    hstep.foldl_other toSubmit m ((map_id toSubmit).symm ▸ hdisjoint id hfetched)
  obtain ⟨hsafe', hgrows⟩ := fetches_keep replies (fun id => (hsubmitted id).1)
    hfetch (fun id hfetched => (hsame id hfetched).symm ▸ hready id hfetched) id
  exact ⟨hsafe', (hsubmitted id).2.trans hgrows⟩

theorem get?_foldl_erase (removed : List String) (id : String) : ∀ jobs : Dict String SlurmJob,
    ∀ job, (removed.foldl Dict.erase jobs).get? id = some job → jobs.get? id = some job := by
  induction removed with
  | nil => exact fun _ _ h => h
  | cons jobId removed ih => exact fun jobs job h => Dict.get?_of_get?_erase (ih _ job h)

/-- A job that is tracked after the cleanup is as it was. -/
theorem cleanupOldJobs_get? (id : String) {job : SlurmJob}
    (hjob : (cleanupOldJobs cfg m).jobs.get? id = some job) : m.jobs.get? id = some job :=
  get?_foldl_erase _ id _ job hjob

/-- A job that is tracked before and after. -/
def JobView.Kept (v v' : JobView) : Prop :=
  ∀ tr ∈ v.tracking, ∀ tr' ∈ v'.tracking, tr.Grows tr' ∧ v.history <+: v'.history

theorem JobView.Grows.kept {v v' : JobView} (h : v.Grows v') : v.Kept v' := by
  intro tr htr tr' htr'
  obtain ⟨tr'', htr'', hgrows⟩ := h tr htr
  obtain rfl := Option.mem_unique htr' htr''
  exact hgrows

theorem cleanupOldJobs_keeps {before : Monitor} {id : String}
    (h : (m.view id).Safe cfg.maxGetAttempts ∧ (before.view id).Grows (m.view id)) :
    ((cleanupOldJobs cfg m).view id).Safe cfg.maxGetAttempts ∧
      (before.view id).Kept ((cleanupOldJobs cfg m).view id) := by
  have hold : ∀ tr ∈ ((cleanupOldJobs cfg m).view id).tracking, tr ∈ (m.view id).tracking := by
    intro tr htr
    obtain ⟨job, hjob, rfl⟩ := Option.map_eq_some_iff.mp htr
    exact Option.map_eq_some_iff.mpr ⟨job, cleanupOldJobs_get? id hjob, rfl⟩
  exact ⟨⟨h.1.1, fun tr htr => h.1.2 tr (hold tr htr)⟩,
    fun tr htr tr' htr' => h.2.kept tr htr tr' (hold tr' htr')⟩

theorem pollAndProcess_keeps (hsafe : ∀ id, (m.view id).Safe cfg.maxGetAttempts) (poll : Poll)
    (id : String) :
    ((pollAndProcess cfg replies m poll).view id).Safe cfg.maxGetAttempts ∧
      (m.view id).Kept ((pollAndProcess cfg replies m poll).view id) := by
  unfold pollAndProcess
  split
  · exact (fetchPendingResults_keeps hsafe id).imp_right JobView.Grows.kept
  next current _ =>
      obtain ⟨hsynced, hsubmit, hunsubmitted⟩ := syncJobs_keeps hsafe current
      dsimp only
      split
      · exact (hsynced id).imp_right fun h => h.1.kept
      · have hlocated := fetchPaths_keep (fun id => (hsynced id).1) (poll.fetchedPaths.getD .empty)
        obtain ⟨hcollected, hfetch, hready⟩ :=
          collects_keeps collectJob_collects fun id => (hlocated id).1
        refine cleanupOldJobs_keeps ?_
        obtain ⟨hsafe', hgrows⟩ := requests_keep replies
          (fun id => (hcollected id).1) hsubmit hfetch (fun id hid =>
            (hcollected id).2.2 ((hlocated id).2.2 (hunsubmitted id hid))) hready id
        exact ⟨hsafe', ((hsynced id).2.1.trans ((hlocated id).2.1.trans
          (hcollected id).2.1)).trans hgrows⟩

theorem safe_of_reachable (hreach : (system cfg replies).Reachable (fun _ _ => True) m)
    (id : String) : (m.view id).Safe cfg.maxGetAttempts := by
  revert id
  refine hreach.invariant (P := fun m => ∀ id, (m.view id).Safe cfg.maxGetAttempts) ?_ ?_
  · rintro m rfl id
    exact ⟨lifecycle_nil, nofun⟩
  · rintro m poll _ hsafe - ⟨⟩ id
    exact (pollAndProcess_keeps hsafe poll id).1

/-- Over all polls and replies, each job is submitted, signaled, fetched and counted as it should
be while it is tracked, and no poll resets one of its tracking fields. -/
theorem jobs_safe_of_reachable
    (hreach : (system cfg replies).Reachable (fun _ _ => True) m) :
    (∀ id, Lifecycle cfg.maxGetAttempts (m.history id)) ∧
      ∀ poll id job job', m.jobs.get? id = some job →
        (pollAndProcess cfg replies m poll).jobs.get? id = some job' →
        job.tracking.Grows job'.tracking ∧
          m.history id <+: (pollAndProcess cfg replies m poll).history id := by
  have hsafe := safe_of_reachable hreach
  refine ⟨fun id => (hsafe id).1, fun poll id job job' hjob hjob' => ?_⟩
  exact (pollAndProcess_keeps hsafe poll id).2 job.tracking
    (Option.map_eq_some_iff.mpr ⟨job, hjob, rfl⟩) job'.tracking
    (Option.map_eq_some_iff.mpr ⟨job', hjob', rfl⟩)

/-! ## A job that is submitted, completes and is fetched -/

def oneJobConfig : Config where
  maxAttempts := 3
  maxCompletedJobs := 5
  maxGetAttempts := 2
  matchesFilters _ := true
  expandSlurmPatterns job := (job.stdoutPath, false)

def objectReplies : Replies :=
  fun _ _ => .response 200 .object none false

def oneJobSnapshot (state : JobState) : Dict String JobInfo :=
  Dict.empty.set "7" ⟨"train", "user", "batch", state, "/logs/7.out", ""⟩

def oneJobPolls : List Poll :=
  [⟨some (oneJobSnapshot .running), none⟩, ⟨some (oneJobSnapshot .completed), none⟩]

theorem jobs_safe_of_reachable_fetched : ∃ m,
    m.history "7" = [.submission, .submissionEnded .success, .counted .logsSubmitted,
      .counted .postSuccess, .collected .completed, .terminal, .get, .recorded,
      .counted .resultsFetched] ∧
    (∀ id, Lifecycle 2 (m.history id)) ∧
      ∀ poll id job job', m.jobs.get? id = some job →
        (pollAndProcess oneJobConfig objectReplies m poll).jobs.get? id = some job' →
        job.tracking.Grows job'.tracking ∧
          m.history id <+: (pollAndProcess oneJobConfig objectReplies m poll).history id := by
  have hrun : ((system oneJobConfig objectReplies).execute (fun _ _ => True) .start
      oneJobPolls).any (fun m => decide (m.history "7" = [.submission, .submissionEnded .success,
        .counted .logsSubmitted, .counted .postSuccess, .collected .completed, .terminal, .get,
        .recorded, .counted .resultsFetched])) = true := by
    decide +kernel
  obtain ⟨m, hreach, htest⟩ := System.exists_reachable_of_execute rfl hrun
  exact ⟨m, of_decide_eq_true htest, jobs_safe_of_reachable hreach⟩

end ResiliencyExt.Services.Smonsvc
