import ResiliencyExt.Services.Smonsvc.Monitor

set_option autoImplicit false

/-!
# The history of a tracked job

What may happen to a job while it is tracked (`Lifecycle`), and how its tracking fields
tell what has happened (`Fits`).  Each thing that happens keeps both, when the fields
say that it may.
-/

namespace ResiliencyExt.Services.Smonsvc

open List

/-- `P` held of the events before each `e`. -/
def Preceded (e : Event) (P : List Event → Prop) (history : List Event) : Prop :=
  ∀ before after, history = before ++ e :: after → P before

theorem preceded_nil (e : Event) (P : List Event → Prop) : Preceded e P [] :=
  fun _ _ h => absurd h.symm (append_ne_nil_of_right_ne_nil _ (cons_ne_nil _ _))

theorem Preceded.concat {e : Event} {P : List Event → Prop} {history : List Event}
    (h : Preceded e P history) {last : Event} (hlast : last = e → P history) :
    Preceded e P (history ++ [last]) := by
  intro before after heq
  rcases eq_nil_or_concat after with rfl | ⟨front, x, rfl⟩
  · obtain ⟨rfl, hsame⟩ := append_inj' heq rfl
    exact hlast (List.cons.inj hsame).1
  · rw [concat_eq_append, ← cons_append, ← append_assoc] at heq
    obtain ⟨hfront, -⟩ := append_inj' heq rfl
    exact h before front hfront

/-- The state in which the job was collected last. -/
def lastCollected (history : List Event) : Option JobState :=
  history.foldl (fun last event =>
    match event with
    | .collected state => some state
    | _ => last) none

def Event.isCollected : Event → Bool
  | .collected _ => true
  | _ => false

/-- A GET may be made. -/
structure MayGet (history : List Event) : Prop where
  signaled : .terminal ∈ history
  posted : .counted .postSuccess ∈ history
  notRecorded : .recorded ∉ history
  collected : ∃ state, lastCollected history = some state ∧ state.isTerminal = true

/-- What may happen to a job while it is tracked. -/
structure Lifecycle (maxGetAttempts : Nat) (history : List Event) : Prop where
  submission : Preceded .submission (fun before => ∀ callback, .submissionEnded callback ∉ before)
    history
  terminalOnce : history.count .terminal ≤ 1
  get : Preceded .get MayGet history
  gets : history.count .get ≤ history.countP Event.isCollected
  attempts : history.countP Event.isCollected ≤ maxGetAttempts
  counted : ∀ counter, history.count (.counted counter) ≤ 1

/-- No field is reset. -/
structure Tracking.Grows (tr tr' : Tracking) : Prop where
  logSubmitted : tr.logSubmitted = true → tr'.logSubmitted = true
  postSuccess : tr.postSuccess = true → tr'.postSuccess = true
  resultFetched : tr.resultFetched = true → tr'.resultFetched = true
  terminalSignaled : tr.terminalSignaled = true → tr'.terminalSignaled = true
  pathFetchAttempted : tr.pathFetchAttempted = true → tr'.pathFetchAttempted = true
  getAttempts : tr.getAttempts ≤ tr'.getAttempts

theorem Tracking.Grows.refl (tr : Tracking) : tr.Grows tr :=
  ⟨id, id, id, id, id, Nat.le_refl _⟩

theorem Tracking.Grows.trans {tr tr' tr'' : Tracking} (h : tr.Grows tr') (h' : tr'.Grows tr'') :
    tr.Grows tr'' :=
  ⟨h'.logSubmitted ∘ h.logSubmitted, h'.postSuccess ∘ h.postSuccess,
    h'.resultFetched ∘ h.resultFetched, h'.terminalSignaled ∘ h.terminalSignaled,
    h'.pathFetchAttempted ∘ h.pathFetchAttempted, h.getAttempts.trans h'.getAttempts⟩

/-- The tracking fields after an event. -/
def Tracking.after (tr : Tracking) : Event → Tracking
  | .submissionEnded _ => { tr with logSubmitted := true }
  | .collected _ => { tr with getAttempts := tr.getAttempts + 1 }
  | .terminal => { tr with terminalSignaled := true }
  | .recorded => { tr with resultFetched := true }
  | .counted .postSuccess => { tr with postSuccess := true }
  | .submission | .get | .counted .logsSubmitted | .counted .resultsFetched => tr

theorem Tracking.grows_after (tr : Tracking) (e : Event) : tr.Grows (tr.after e) := by
  rcases e with _ | _ | _ | _ | _ | _ | (_ | _ | _)
  all_goals constructor <;> simp [Tracking.after]

/-- The fields show that an event has happened. -/
def Tracking.Shows (tr : Tracking) : Event → Prop
  | .submissionEnded _ | .counted .logsSubmitted => tr.logSubmitted = true
  | .counted .postSuccess => tr.postSuccess = true
  | .terminal => tr.terminalSignaled = true
  | .recorded | .counted .resultsFetched => tr.resultFetched = true
  | .submission | .collected _ | .get => True

theorem Tracking.Grows.shows {tr tr' : Tracking} (h : tr.Grows tr') {e : Event}
    (hshows : tr.Shows e) : tr'.Shows e := by
  rcases e with _ | _ | _ | _ | _ | _ | (_ | _ | _)
  case submission | collected | get => trivial
  case submissionEnded | counted.logsSubmitted => exact h.logSubmitted hshows
  case terminal => exact h.terminalSignaled hshows
  case recorded | counted.resultsFetched => exact h.resultFetched hshows
  case counted.postSuccess => exact h.postSuccess hshows

/-- The tracking fields tell what has happened. -/
structure Fits (maxGetAttempts : Nat) (tr : Tracking) (history : List Event) : Prop where
  lifecycle : Lifecycle maxGetAttempts history
  shown : ∀ e ∈ history, tr.Shows e
  posted : tr.postSuccess = true → .counted .postSuccess ∈ history
  postSubmitted : tr.postSuccess = true → tr.logSubmitted = true
  signaled : tr.terminalSignaled = true → .terminal ∈ history
  attempts : history.countP Event.isCollected = tr.getAttempts

variable {maxGetAttempts : Nat} {tr : Tracking} {history : List Event}

variable {e last : Event}

theorem lifecycle_nil : Lifecycle maxGetAttempts [] where
  submission := preceded_nil _ _
  terminalOnce := Nat.zero_le _
  get := preceded_nil _ _
  gets := Nat.le_refl _
  attempts := Nat.zero_le _
  counted _ := Nat.zero_le _

theorem fits_fresh : Fits maxGetAttempts .fresh [] where
  lifecycle := lifecycle_nil
  shown _ hmem := nomatch hmem
  posted h := nomatch h
  postSubmitted h := nomatch h
  signaled h := nomatch h
  attempts := rfl

/-! ## What may happen -/

theorem count_concat_of_ne (hne : last ≠ e) : (history ++ [last]).count e = history.count e := by
  rw [count_append, count_singleton, if_neg (by simpa using hne), Nat.add_zero]

theorem count_concat_of_not_mem (h : e ∉ history) : (history ++ [e]).count e ≤ 1 := by
  rw [count_append, count_eq_zero_of_not_mem h, count_singleton_self]

theorem countP_concat_isCollected (hnot : last.isCollected = false) :
    (history ++ [last]).countP Event.isCollected = history.countP Event.isCollected := by
  rw [countP_append, countP_singleton, hnot]
  rfl

/-- What must hold before an event happens. -/
structure Allows (maxGetAttempts : Nat) (history : List Event) (last : Event) : Prop where
  submission : last = .submission → ∀ callback, .submissionEnded callback ∉ history
  terminal : last = .terminal → .terminal ∉ history
  get : last = .get →
    MayGet history ∧ history.count .get < history.countP Event.isCollected
  collected : last.isCollected = true → history.countP Event.isCollected < maxGetAttempts
  counted : ∀ counter, last = .counted counter → .counted counter ∉ history

theorem allows_submission (h : ∀ callback, .submissionEnded callback ∉ history) :
    Allows maxGetAttempts history .submission :=
  ⟨fun _ => h, nofun, nofun, nofun, nofun⟩

theorem allows_submissionEnded (callback : Callback) :
    Allows maxGetAttempts history (.submissionEnded callback) :=
  ⟨nofun, nofun, nofun, nofun, nofun⟩

theorem allows_collected {state : JobState}
    (h : history.countP Event.isCollected < maxGetAttempts) :
    Allows maxGetAttempts history (.collected state) :=
  ⟨nofun, nofun, nofun, fun _ => h, nofun⟩

theorem allows_terminal (h : .terminal ∉ history) : Allows maxGetAttempts history .terminal :=
  ⟨nofun, fun _ => h, nofun, nofun, nofun⟩

theorem allows_get (h : MayGet history)
    (hcount : history.count .get < history.countP Event.isCollected) :
    Allows maxGetAttempts history .get :=
  ⟨nofun, nofun, fun _ => ⟨h, hcount⟩, nofun, nofun⟩

theorem allows_recorded : Allows maxGetAttempts history .recorded :=
  ⟨nofun, nofun, nofun, nofun, nofun⟩

theorem allows_counted {counter : Counter} (h : .counted counter ∉ history) :
    Allows maxGetAttempts history (.counted counter) :=
  ⟨nofun, nofun, nofun, nofun, fun _ heq => Event.counted.inj heq ▸ h⟩

theorem Lifecycle.concat (h : Lifecycle maxGetAttempts history)
    (hallows : Allows maxGetAttempts history last) :
    Lifecycle maxGetAttempts (history ++ [last]) where
  submission := h.submission.concat hallows.submission
  terminalOnce := by
    by_cases heq : last = .terminal
    · rw [heq]
      exact count_concat_of_not_mem (hallows.terminal heq)
    · rw [count_concat_of_ne heq]
      exact h.terminalOnce
  get := h.get.concat fun heq => (hallows.get heq).1
  gets := by
    rw [countP_append]
    refine le_trans ?_ (Nat.le_add_right _ _)
    by_cases heq : last = .get
    · rw [heq, count_append, count_singleton_self]
      exact (hallows.get heq).2
    · rw [count_concat_of_ne heq]
      exact h.gets
  attempts := by
    cases hcollected : last.isCollected with
    | false =>
      rw [countP_concat_isCollected hcollected]
      exact h.attempts
    | true =>
      rw [countP_append, countP_singleton, if_pos hcollected]
      exact hallows.collected hcollected
  counted counter := by
    by_cases heq : last = .counted counter
    · rw [heq]
      exact count_concat_of_not_mem (hallows.counted counter heq)
    · rw [count_concat_of_ne heq]
      exact h.counted counter

/-- The field that is set before a counter is incremented. -/
def Tracking.MayCount (tr : Tracking) : Counter → Prop
  | .logsSubmitted | .postSuccess => tr.logSubmitted = true
  | .resultsFetched => tr.resultFetched = true

theorem Tracking.shows_after (hcounted : ∀ counter, e = .counted counter → tr.MayCount counter) :
    (tr.after e).Shows e := by
  rcases e with _ | _ | _ | _ | _ | _ | (_ | _ | _)
  case submission | collected | get => trivial
  case submissionEnded | terminal | recorded | counted.postSuccess => rfl
  case counted.logsSubmitted | counted.resultsFetched => exact hcounted _ rfl

theorem Fits.after (h : Fits maxGetAttempts tr history)
    (hallows : Allows maxGetAttempts history e)
    (hcounted : ∀ counter, e = .counted counter → tr.MayCount counter) :
    Fits maxGetAttempts (tr.after e) (history ++ [e]) where
  lifecycle := h.lifecycle.concat hallows
  shown e' hmem := by
    rcases mem_append.mp hmem with hold | hnew
    · exact (tr.grows_after e).shows (h.shown e' hold)
    · rw [mem_singleton.mp hnew]
      exact Tracking.shows_after hcounted
  posted hpost := by
    by_cases heq : e = .counted .postSuccess
    · rw [heq]
      exact mem_append_right _ mem_cons_self
    · refine mem_append_left _ (h.posted ?_)
      rcases e with _ | _ | _ | _ | _ | _ | (_ | _ | _)
      case counted.postSuccess => exact absurd rfl heq
      all_goals exact hpost
  postSubmitted hpost := by
    by_cases heq : e = .counted .postSuccess
    · exact (tr.grows_after e).logSubmitted (hcounted _ heq)
    · refine (tr.grows_after e).logSubmitted (h.postSubmitted ?_)
      rcases e with _ | _ | _ | _ | _ | _ | (_ | _ | _)
      case counted.postSuccess => exact absurd rfl heq
      all_goals exact hpost
  signaled hsignaled := by
    by_cases heq : e = .terminal
    · rw [heq]
      exact mem_append_right _ mem_cons_self
    · refine mem_append_left _ (h.signaled ?_)
      rcases e with _ | _ | _ | _ | _ | _ | (_ | _ | _)
      case terminal => exact absurd rfl heq
      all_goals exact hsignaled
  attempts := by
    rw [countP_append, h.attempts, countP_singleton]
    rcases e with _ | _ | _ | _ | _ | _ | (_ | _ | _) <;> rfl

theorem Fits.not_mem (h : Fits maxGetAttempts tr history) (hnot : ¬ tr.Shows e) : e ∉ history :=
  fun hmem => hnot (h.shown e hmem)

/-- The events since `history` do not include `e`. -/
theorem not_mem_concat (h : e ∉ history) (hne : last ≠ e) : e ∉ history ++ [last] := by
  rw [mem_append, mem_singleton]
  exact fun hmem => hmem.elim h fun heq => hne heq.symm

end ResiliencyExt.Services.Smonsvc
