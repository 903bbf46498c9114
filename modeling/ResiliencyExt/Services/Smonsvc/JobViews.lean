import ResiliencyExt.Services.Smonsvc.JobHistory

set_option autoImplicit false

/-!
# What a request does to a job

All that a poll does to a job is seen in its tracking fields and its history
(`JobView`), where it is a sequence of events.  Here are the views that a submission and
a fetch may leave, and that they are as they should be.
-/

namespace ResiliencyExt.Services.Smonsvc

open Foundation Function

/-- What is tracked of a job, and what has happened to it. -/
structure JobView where
  tracking : Option Tracking
  history : List Event

namespace JobView

def event (v : JobView) (e : Event) : JobView :=
  ⟨v.tracking.map (·.after e), v.history ++ [e]⟩

def Safe (maxGetAttempts : Nat) (v : JobView) : Prop :=
  Lifecycle maxGetAttempts v.history ∧ ∀ tr ∈ v.tracking, Fits maxGetAttempts tr v.history

/-- A tracked job stays tracked. -/
def Grows (v v' : JobView) : Prop :=
  ∀ tr ∈ v.tracking, ∃ tr' ∈ v'.tracking, tr.Grows tr' ∧ v.history <+: v'.history

/-- The job may be submitted. -/
def Unsubmitted (v : JobView) : Prop :=
  ∃ tr ∈ v.tracking, tr.logSubmitted = false

/-- The results of the job may be fetched. -/
structure Ready (v : JobView) : Prop where
  fields : ∃ tr ∈ v.tracking, tr.postSuccess = true ∧ tr.resultFetched = false
  collected : ∃ state, lastCollected v.history = some state ∧ state.isTerminal = true
  attempt : v.history.count .get < v.history.countP Event.isCollected

variable {maxGetAttempts : Nat} {v v' v'' : JobView} {tr : Tracking} {e : Event}

theorem Grows.refl (v : JobView) : v.Grows v :=
  fun tr htr => ⟨tr, htr, .refl tr, List.prefix_rfl⟩

theorem Grows.trans (h : v.Grows v') (h' : v'.Grows v'') : v.Grows v'' := by
  intro tr htr
  obtain ⟨tr', htr', hgrows, hprefix⟩ := h tr htr
  obtain ⟨tr'', htr'', hgrows', hprefix'⟩ := h' tr' htr'
  exact ⟨tr'', htr'', hgrows.trans hgrows', hprefix.trans hprefix'⟩

theorem grows_event (v : JobView) (e : Event) : v.Grows (v.event e) :=
  fun tr htr => ⟨tr.after e, Option.mem_map_of_mem _ htr, tr.grows_after e,
    List.prefix_append _ _⟩

theorem Safe.event (h : v.Safe maxGetAttempts) (hallows : Allows maxGetAttempts v.history e)
    (hcounted : ∀ tr ∈ v.tracking, ∀ counter, e = .counted counter → tr.MayCount counter) :
    (v.event e).Safe maxGetAttempts := by
  refine ⟨h.1.concat hallows, fun tr' htr' => ?_⟩
  obtain ⟨tr, htr, rfl⟩ := Option.map_eq_some_iff.mp htr'
  exact (h.2 tr htr).after hallows (hcounted tr htr)

end JobView

namespace Monitor

def view (m : Monitor) (jobId : String) : JobView :=
  ⟨(m.jobs.get? jobId).map SlurmJob.tracking, m.history jobId⟩

variable (m : Monitor) (jobId : String)

theorem view_happen (e : Event) :
    (m.happen jobId e).view =
      update m.view jobId ⟨(m.view jobId).tracking, (m.view jobId).history ++ [e]⟩ := by
  funext id
  by_cases hid : id = jobId
  · subst hid
    simp [view, happen]
  · simp [view, happen, hid]

theorem view_modify (f : SlurmJob → SlurmJob) (g : Tracking → Tracking)
    (hfg : ∀ job, (f job).tracking = g job.tracking) :
    (m.modify jobId f).view =
      update m.view jobId ⟨(m.view jobId).tracking.map g, (m.view jobId).history⟩ := by
  funext id
  unfold modify
  by_cases hid : id = jobId
  · subst hid
    cases hget : m.jobs.get? id with
    | none => simp [view, hget]
    | some job => simp [view, hget, Dict.get?_set_self, hfg]
  · cases hget : m.jobs.get? jobId with
    | none => simp [hid]
    | some job => simp [view, hid, Dict.get?_set_of_ne _ _ hid]

theorem view_track (f : Tracking → Tracking) :
    (m.track jobId f).view =
      update m.view jobId ⟨(m.view jobId).tracking.map f, (m.view jobId).history⟩ :=
  view_modify m jobId _ f fun _ => rfl

/-- The record of the job changes, but its tracking fields do not. -/
theorem view_modify_self (f : SlurmJob → SlurmJob) (hf : ∀ job, (f job).tracking = job.tracking) :
    (m.modify jobId f).view = m.view := by
  rw [view_modify m jobId f id hf, Option.map_id]
  exact update_eq_self _ _

/-- An event that sets no field. -/
theorem view_happen_of_after {e : Event} (he : ∀ tr : Tracking, tr.after e = tr) :
    (m.happen jobId e).view = update m.view jobId ((m.view jobId).event e) := by
  have hid : (fun tr : Tracking => tr.after e) = id := funext he
  rw [view_happen, JobView.event, hid, Option.map_id]
  rfl

/-- An event, and then its field. -/
theorem view_happen_track (e : Event) {f : Tracking → Tracking}
    (hf : ∀ tr : Tracking, tr.after e = f tr) :
    ((m.happen jobId e).track jobId f).view =
      update m.view jobId ((m.view jobId).event e) := by
  have heq : (fun tr : Tracking => tr.after e) = f := funext hf
  rw [view_track, view_happen, update_idem, update_self, JobView.event, heq]

/-- A field, and then its event. -/
theorem view_track_happen (e : Event) {f : Tracking → Tracking}
    (hf : ∀ tr : Tracking, tr.after e = f tr) :
    ((m.track jobId f).happen jobId e).view =
      update m.view jobId ((m.view jobId).event e) := by
  have heq : (fun tr : Tracking => tr.after e) = f := funext hf
  rw [view_happen, view_track, update_idem, update_self, JobView.event, heq]

theorem view_count (counter : Counter) (hcounter : counter ≠ .postSuccess) :
    (m.count jobId counter).view =
      update m.view jobId ((m.view jobId).event (.counted counter)) := by
  refine view_happen_of_after _ jobId fun tr => ?_
  cases counter with
  | logsSubmitted | resultsFetched => rfl
  | postSuccess => exact absurd rfl hcounter

end Monitor

/-! ## Requests -/

variable (cfg : Config) (replies : Replies) (m : Monitor) (jobId : String)

/-- A request ends in one of its callbacks, or without a callback, whatever the replies are. -/
theorem requestWithRetry_rule {callbacks : Callbacks} {P Q : Monitor → Prop}
    (hcounters : ∀ m counters, P m → P { m with counters := counters })
    (hnone : ∀ m, P m → Q m) (hsuccess : ∀ json m, P m → Q (callbacks.onSuccess json m))
    (hclient : ∀ errorMsg m, P m → Q (callbacks.onClientError errorMsg m))
    (h404 : ∀ on404, callbacks.on404 = some on404 → ∀ m, P m → Q (on404 m))
    (attempts : Nat → Attempt) (remaining : Nat) :
    ∀ attempt m, P m → Q (requestWithRetry callbacks attempts remaining attempt m) := by
  induction remaining with
  | zero => exact fun _ m hm => hclient _ m hm
  | succ remaining ih =>
    intro attempt m hm
    unfold requestWithRetry
    split
    · exact ih _ m hm
    · exact hnone m hm
    · split_ifs
      · exact hsuccess _ m hm
      · exact hnone _ (hcounters m _ hm)
      · exact ih _ _ (hcounters m _ hm)
      · exact ih _ m hm
      · split
        · exact h404 _ (by assumption) m hm
        · exact hclient _ m hm

/-- What a request leaves, when its callbacks change the view of one job at most. -/
theorem request_view {cfg : Config} {replies : Replies} {callbacks : Callbacks} {m : Monitor}
    {Q : (String → JobView) → Prop} (hnone : Q m.view)
    (hsuccess : ∀ json m', m'.view = m.view → Q (callbacks.onSuccess json m').view)
    (hclient : ∀ errorMsg m', m'.view = m.view → Q (callbacks.onClientError errorMsg m').view)
    (h404 : ∀ on404, callbacks.on404 = some on404 → ∀ m', m'.view = m.view → Q (on404 m').view) :
    Q (request cfg replies callbacks m).view :=
  requestWithRetry_rule (P := fun m' => m'.view = m.view) (Q := fun m' => Q m'.view)
    (fun _ _ hm => hm) (fun _ hm => hm ▸ hnone) hsuccess hclient h404 _ _ _ _ rfl

theorem view_categorizePathError (errorMsg : Option String) (m : Monitor) :
    (categorizePathError errorMsg m).view = m.view := by
  cases errorMsg <;> rfl

/-! ## A submission -/

theorem view_endSubmission (callback : Callback) (m : Monitor) :
    (endSubmission jobId callback m).view = update m.view jobId
      (((m.view jobId).event (.submissionEnded callback)).event (.counted .logsSubmitted)) := by
  rw [endSubmission, Monitor.view_count, Monitor.view_happen_track, update_idem,
    update_self]
  · exact fun _ => rfl
  · exact Counter.noConfusion

/-- How the view of a job may change when it is submitted. -/
inductive Submitted (v : JobView) : JobView → Prop where
  | withoutCallback : Submitted v (v.event .submission)
  | ended (callback : Callback) : Submitted v
      (((v.event .submission).event (.submissionEnded callback)).event (.counted .logsSubmitted))
  | posted : Submitted v
      ((((v.event .submission).event (.submissionEnded .success)).event
        (.counted .logsSubmitted)).event (.counted .postSuccess))

theorem submitLog_view :
    ∃ v', (submitLog cfg replies m jobId).view = update m.view jobId v' ∧
      Submitted (m.view jobId) v' := by
  have hbegun := m.view_happen_of_after jobId (e := .submission) fun _ => rfl
  refine request_view (Q := fun view => ∃ v', view = update m.view jobId v' ∧
    Submitted (m.view jobId) v') ⟨_, hbegun, .withoutCallback⟩ ?_ ?_ ?_
  · intro json m' hm'
    have hended := view_endSubmission jobId .success m'
    rw [hm', hbegun, update_idem, update_self] at hended
    cases json with
    | invalid | other => exact ⟨_, hended, .ended _⟩
    | object =>
      refine ⟨_, ?_, .posted⟩
      change (((endSubmission jobId .success m').track jobId _).happen jobId _).view = _
      rw [Monitor.view_track_happen, hended, update_idem, update_self]
      exact fun _ => rfl
  · intro errorMsg m' hm'
    have hended := view_endSubmission jobId .clientError m'
    rw [hm', hbegun, update_idem, update_self] at hended
    exact ⟨_, (view_categorizePathError _ _).trans hended, .ended _⟩
  · rintro _ ⟨⟩ m' hm'
    have hended := view_endSubmission jobId .notFound m'
    rw [hm', hbegun, update_idem, update_self] at hended
    exact ⟨_, hended, .ended _⟩

theorem Submitted.keeps {maxGetAttempts : Nat} {v v' : JobView} (h : Submitted v v')
    (hsafe : v.Safe maxGetAttempts) (hnot : v.Unsubmitted) :
    v'.Safe maxGetAttempts ∧ v.Grows v' := by
  obtain ⟨tr, htr, hlog⟩ := hnot
  have hfits := hsafe.2 tr htr
  have hclear : ∀ e, (tr.Shows e → tr.logSubmitted = true) → e ∉ v.history := fun e he =>
    hfits.not_mem fun hshows => absurd (hlog.symm.trans (he hshows)) Bool.false_ne_true
  have hbegun := hsafe.event (allows_submission fun callback => hclear _ id) nofun
  have hended : ∀ callback, (((v.event .submission).event (.submissionEnded callback)).event
      (.counted .logsSubmitted)).Safe maxGetAttempts := by
    intro callback
    refine (hbegun.event (allows_submissionEnded callback) nofun).event (allows_counted ?_) ?_
    · exact not_mem_concat (not_mem_concat (hclear _ id) nofun) nofun
    · rintro tr' htr' _ ⟨⟩
      obtain ⟨_, -, rfl⟩ := Option.map_eq_some_iff.mp htr'
      rfl
  cases h with
  | withoutCallback => exact ⟨hbegun, v.grows_event _⟩
  | ended callback =>
    exact ⟨hended callback, ((v.grows_event _).trans (JobView.grows_event _ _)).trans
      (JobView.grows_event _ _)⟩
  | posted =>
    refine ⟨(hended .success).event (allows_counted ?_) ?_,
      (((v.grows_event _).trans (JobView.grows_event _ _)).trans
        (JobView.grows_event _ _)).trans (JobView.grows_event _ _)⟩
    · exact not_mem_concat (not_mem_concat (not_mem_concat
        (hclear _ hfits.postSubmitted) nofun) nofun) nofun
    · rintro tr' htr' _ ⟨⟩
      obtain ⟨_, hended, rfl⟩ := Option.map_eq_some_iff.mp htr'
      obtain ⟨_, -, rfl⟩ := Option.map_eq_some_iff.mp hended
      rfl

/-! ## A fetch -/

theorem view_recordResult (m : Monitor) :
    (recordResult jobId m).view = update m.view jobId
      (((m.view jobId).event .recorded).event (.counted .resultsFetched)) := by
  rw [recordResult, Monitor.view_count, Monitor.view_happen_track, update_idem,
    update_self]
  · exact fun _ => rfl
  · exact Counter.noConfusion

/-- How the view of a job may change when its results are fetched. -/
inductive Fetched (v : JobView) : JobView → Prop where
  | withoutCallback : Fetched v (v.event .get)
  | recorded : Fetched v (((v.event .get).event .recorded).event (.counted .resultsFetched))

/-- The terminal request is made where it was not made before. -/
def JobView.signal (v : JobView) : JobView :=
  match v.tracking with
  | none => v
  | some tr => if tr.terminalSignaled then v else v.event .terminal

theorem view_terminalRequest : (request cfg replies terminalCallbacks m).view = m.view :=
  request_view (Q := fun view => view = m.view) rfl (fun _ _ hm => hm) (fun _ _ hm => hm) nofun

theorem getRequest_view :
    ∃ v', (request cfg replies (fetchCallbacks jobId) (m.happen jobId .get)).view =
      update m.view jobId v' ∧ Fetched (m.view jobId) v' := by
  have hgot := m.view_happen_of_after jobId (e := .get) fun _ => rfl
  refine request_view (Q := fun view => ∃ v', view = update m.view jobId v' ∧
    Fetched (m.view jobId) v') ⟨_, hgot, .withoutCallback⟩ ?_ ?_ nofun
  · intro json m' hm'
    have hrecorded := view_recordResult jobId m'
    rw [hm', hgot, update_idem, update_self] at hrecorded
    exact ⟨_, hrecorded, .recorded⟩
  · intro errorMsg m' hm'
    have hrecorded := view_recordResult jobId m'
    rw [hm', hgot, update_idem, update_self] at hrecorded
    exact ⟨_, (view_categorizePathError _ _).trans hrecorded, .recorded⟩

theorem fetchResults_view :
    ∃ v', (fetchResults cfg replies m jobId).view = update m.view jobId v' ∧
      Fetched (m.view jobId).signal v' := by
  have hget : ∀ signaled : Monitor,
      signaled.view = update m.view jobId (m.view jobId).signal →
      ∃ v', (request cfg replies (fetchCallbacks jobId) (signaled.happen jobId .get)).view =
        update m.view jobId v' ∧ Fetched (m.view jobId).signal v' := by
    intro signaled hsignaled
    obtain ⟨v', hview, hfetched⟩ := getRequest_view cfg replies signaled jobId
    rw [hsignaled, update_idem] at hview
    rw [hsignaled, update_self] at hfetched
    exact ⟨v', hview, hfetched⟩
  unfold fetchResults
  refine hget _ ?_
  cases hjob : m.jobs.get? jobId with
  | none =>
    have hnone : (m.view jobId).signal = m.view jobId := by
      simp [JobView.signal, Monitor.view, hjob]
    rw [hnone, update_eq_self]
  | some job =>
    have hsignal : (m.view jobId).signal = if job.tracking.terminalSignaled then m.view jobId
        else (m.view jobId).event .terminal := by
      simp [JobView.signal, Monitor.view, hjob]
    rw [hsignal]
    dsimp only
    split_ifs with hold
    · rw [update_eq_self]
    · rw [view_terminalRequest, Monitor.view_track_happen]
      exact fun _ => rfl

theorem lastCollected_concat {history : List Event} {e : Event} (he : e.isCollected = false) :
    lastCollected (history ++ [e]) = lastCollected history := by
  rw [lastCollected, List.foldl_append]
  cases e with
  | collected state => cases he
  | submission | submissionEnded | terminal | get | recorded | counted => rfl

theorem JobView.Ready.signal {maxGetAttempts : Nat} {v : JobView} (h : v.Ready)
    (hsafe : v.Safe maxGetAttempts) :
    v.signal.Safe maxGetAttempts ∧ v.Grows v.signal ∧ v.signal.Ready ∧
      .terminal ∈ v.signal.history := by
  obtain ⟨⟨tr, htr, hpost, hresult⟩, hcollected, hattempt⟩ := h
  have hfits := hsafe.2 tr htr
  have hsignal : v.signal = if tr.terminalSignaled then v else v.event .terminal := by
    simp only [JobView.signal, Option.mem_def.mp htr]
  rw [hsignal]
  cases hold : tr.terminalSignaled with
  | true => exact ⟨hsafe, .refl v, ⟨⟨tr, htr, hpost, hresult⟩, hcollected, hattempt⟩,
      hfits.signaled hold⟩
  | false =>
    have hfresh : .terminal ∉ v.history := hfits.not_mem fun hshows =>
      absurd (hold.symm.trans hshows) Bool.false_ne_true
    refine ⟨hsafe.event (allows_terminal hfresh) nofun, v.grows_event _, ⟨?_, ?_, ?_⟩,
      List.mem_append_right _ List.mem_cons_self⟩
    · exact ⟨_, Option.mem_map_of_mem _ htr, hpost, hresult⟩
    · exact hcollected.imp fun state hstate =>
        ⟨(lastCollected_concat rfl).trans hstate.1, hstate.2⟩
    · change (v.history ++ [Event.terminal]).count Event.get <
        (v.history ++ [Event.terminal]).countP Event.isCollected
      rw [count_concat_of_ne (Event.noConfusion : Event.terminal ≠ .get),
        countP_concat_isCollected rfl]
      exact hattempt

theorem Fetched.keeps {maxGetAttempts : Nat} {v v' : JobView} (h : Fetched v.signal v')
    (hsafe : v.Safe maxGetAttempts) (hready : v.Ready) :
    v'.Safe maxGetAttempts ∧ v.Grows v' := by
  obtain ⟨hsignaled, hgrows, ⟨⟨tr, htr, hpost, hresult⟩, hcollected, hattempt⟩, hterminal⟩ :=
    hready.signal hsafe
  have hfits := hsignaled.2 tr htr
  have hclear : ∀ e, (tr.Shows e → tr.resultFetched = true) → e ∉ v.signal.history :=
    fun e he => hfits.not_mem fun hshows =>
      absurd (hresult.symm.trans (he hshows)) Bool.false_ne_true
  have hmay : MayGet v.signal.history :=
    ⟨hterminal, hfits.posted hpost, hclear _ id, hcollected⟩
  have hgot := hsignaled.event (allows_get hmay hattempt) nofun
  cases h with
  | withoutCallback => exact ⟨hgot, hgrows.trans (JobView.grows_event _ _)⟩
  | recorded =>
    refine ⟨(hgot.event allows_recorded nofun).event (allows_counted ?_) ?_,
      ((hgrows.trans (JobView.grows_event _ _)).trans (JobView.grows_event _ _)).trans
        (JobView.grows_event _ _)⟩
    · exact not_mem_concat (not_mem_concat (hclear _ id) nofun) nofun
    · rintro tr' htr' _ ⟨⟩
      obtain ⟨_, -, rfl⟩ := Option.map_eq_some_iff.mp htr'
      rfl

end ResiliencyExt.Services.Smonsvc
