import ResiliencyExt.Attribution.AttributionService

set_option autoImplicit false

/-!
# The verdicts of the attribution service

Whatever the requests, the replies and the order of the two threads, a log is polled only
after its terminal analysis was accepted, the slot changes only by its own verdict, and
every accepted analysis has at most one verdict that counts.  With enforcement a stop is
final; without it nothing stops the poller but its event.
-/

namespace ResiliencyExt.Attribution

open Foundation List
open Option (some)

namespace AttributionService

/-- The analysis that the poller is busy with. -/
def PollerPhase.holds : PollerPhase → Option Terminal
  | .profiling terminal => some terminal
  | .getting terminal => some terminal
  | .completing terminal _ => some terminal
  | .applying terminal _ => some terminal
  | _ => none

/-- The analysis for which the poller has made a GET. -/
def PollerPhase.got : PollerPhase → Option Terminal
  | .getting terminal => some terminal
  | .completing terminal _ => some terminal
  | .applying terminal _ => some terminal
  | _ => none

namespace State

/-- The POST of the analysis was accepted. -/
def Accepted (s : State) (terminal : Terminal) : Prop :=
  s.accepted[terminal.post]? = some terminal.logPath

/-- The numbers of the analyses with a verdict. -/
def answered (s : State) : List Nat :=
  s.verdicts.map fun v => v.1.post

structure Inv (cfg : Config) (s : State) : Prop where
  free : s.submitter ≠ .idle → s.terminalPending = none
  installing : ∀ terminal, s.submitter = .installing terminal →
    s.Accepted terminal ∧ terminal.post ∉ s.answered
  pending : ∀ terminal, s.terminalPending = some terminal → s.Accepted terminal
  unanswered : ∀ terminal, s.terminalPending = some terminal → s.stopRequested cfg = false →
    terminal.post ∉ s.answered
  holds : ∀ terminal, s.poller.holds = some terminal →
    s.terminalPending = some terminal ∧ s.stopRequested cfg = false
  polled : ∀ terminal ∈ s.polled, s.Accepted terminal
  got : ∀ terminal, s.poller.got = some terminal → terminal ∈ s.polled
  own : ∀ v ∈ s.verdicts, v.1 ∈ s.polled
  once : s.answered.Nodup
  counted : s.stopVerdictCount = (s.verdicts.filter fun v => v.2).length
  final : s.stopRequested cfg = true → s.poller = .checking ∨ s.poller = .exited
  exited : s.poller = .exited → s.pollStopEvent = true ∨ s.stopRequested cfg = true
  thread : s.pollStopEvent = false → s.pollThread = false → s.poller = .notStarted

theorem inv_start (cfg : Config) : Inv cfg start where
  free h := absurd rfl h
  installing _ h := nomatch h
  pending _ h := nomatch h
  unanswered _ h := nomatch h
  holds _ h := nomatch h
  polled _ h := nomatch h
  got _ h := nomatch h
  own _ h := nomatch h
  once := nodup_nil
  counted := rfl
  final h := nomatch h
  exited h := nomatch h
  thread _ _ := rfl

variable {cfg : Config} {s t : State}

/-! ## The submitter -/

variable {terminal : Terminal} {a : Action}

theorem Inv.submitLog (h : Inv cfg s) {logPath : String} (hstep : s.submitLog logPath = some t) :
    Inv cfg t := by
  unfold State.submitLog at hstep
  split at hstep
  · exact some.inj hstep ▸ { h with }
  · exact absurd hstep nofun

/-- The slot is free when the POST of a terminal analysis is made. -/
theorem Inv.requestTerminalAnalysis (h : Inv cfg s)
    (hstep : s.requestTerminalAnalysis = some t) : Inv cfg t := by
  unfold State.requestTerminalAnalysis at hstep
  split at hstep
  · split at hstep
    · exact some.inj hstep ▸ h
    · split at hstep
      · exact some.inj hstep ▸ h
      · split at hstep
        · exact some.inj hstep ▸ h
        · rename_i hfree
          exact some.inj hstep ▸ { h with
            free := fun _ => Option.not_isSome_iff_eq_none.mp hfree
            installing := nofun }
  · exact absurd hstep nofun

theorem Accepted.append (h : s.Accepted terminal) (logPath : String) :
    (s.accepted ++ [logPath])[terminal.post]? = some terminal.logPath := by
  rw [getElem?_append_left (List.getElem?_eq_some_iff.mp h).1]
  exact h

/-- An analysis that has not been accepted yet has no verdict. -/
theorem Inv.length_not_mem_answered (h : Inv cfg s) : s.accepted.length ∉ s.answered := by
  intro hmem
  obtain ⟨v, hv, hpost⟩ := mem_map.mp hmem
  have haccepted := h.polled v.1 (h.own v hv)
  have hlt : v.1.post < s.accepted.length := (List.getElem?_eq_some_iff.mp haccepted).1
  omega

theorem Inv.postReturns (h : Inv cfg s) {outcome : PostOutcome}
    (hstep : s.postReturns cfg outcome = some t) : Inv cfg t := by
  unfold State.postReturns at hstep
  split at hstep
  · rename_i logPath hposting
    have hfree : s.terminalPending = none := h.free (by rw [hposting]; exact nofun)
    split at hstep
    · refine some.inj hstep ▸ { h with
        free := fun _ => hfree
        installing := ?_
        pending := fun terminal hpending => (h.pending terminal hpending).append logPath
        polled := fun terminal hmem => (h.polled terminal hmem).append logPath }
      rintro _ ⟨⟩
      exact ⟨getElem?_concat_length, h.length_not_mem_answered⟩
    · exact some.inj hstep ▸ { h with
        free := fun hidle => absurd rfl hidle
        installing := nofun }
  · exact absurd hstep nofun

theorem Inv.install (h : Inv cfg s) (hstep : s.install = some t) : Inv cfg t := by
  unfold State.install at hstep
  split at hstep
  · rename_i terminal hinstalling
    have hfree : s.terminalPending = none := h.free (by rw [hinstalling]; exact nofun)
    obtain ⟨haccepted, hnew⟩ := h.installing terminal hinstalling
    refine some.inj hstep ▸ { h with
      free := fun hidle => absurd rfl hidle
      installing := nofun
      pending := ?_
      unanswered := ?_
      holds := fun held hheld => absurd (hfree.symm.trans (h.holds held hheld).1) nofun }
    · rintro _ ⟨⟩
      exact haccepted
    · rintro _ ⟨⟩ _
      exact hnew
  · exact absurd hstep nofun

/-! ## The poller -/

theorem Inv.startPoller (h : Inv cfg s) : Inv cfg (s.startPoller cfg) := by
  unfold State.startPoller
  split
  · exact h
  · rename_i hthread
    split
    · exact h
    · by_cases hevent : s.pollStopEvent = true
      · rw [if_pos hevent]
        exact { h with thread := fun hnot => absurd (hnot.symm.trans hevent) nofun }
      · rw [if_neg hevent]
        have hnot : s.pollStopEvent = false := Bool.eq_false_iff.mpr hevent
        have hphase := h.thread hnot (Bool.eq_false_iff.mpr hthread)
        exact { h with
          holds := nofun
          got := nofun
          final := fun hstop => by
            have hfinal := h.final hstop
            rw [hphase] at hfinal
            exact absurd hfinal (by decide)
          exited := nofun
          thread := fun _ => nofun }

theorem Inv.stopPoller (h : Inv cfg s) : Inv cfg s.stopPoller :=
  { h with
    exited := fun _ => .inl rfl
    thread := nofun }

/-- No stop is requested while the poller is elsewhere than at the end of an iteration. -/
theorem Inv.not_stopRequested (h : Inv cfg s) (hphase : s.poller ≠ .checking)
    (hrunning : s.poller ≠ .exited) : s.stopRequested cfg = false := by
  refine Bool.eq_false_iff.mpr fun hstop => ?_
  exact (h.final hstop).elim hphase hrunning

/-- The poller goes on to a phase in which it has no analysis. -/
theorem Inv.goOn (h : Inv cfg s) (hstarted : s.poller ≠ .notStarted) {phase : PollerPhase}
    (hholds : phase.holds = none) (hgot : phase.got = none)
    (hfinal : s.stopRequested cfg = true → phase = .checking ∨ phase = .exited)
    (hexited : phase = .exited → s.pollStopEvent = true ∨ s.stopRequested cfg = true) :
    Inv cfg { s with poller := phase } :=
  { h with
    holds := fun _ hheld => absurd (hholds.symm.trans hheld) nofun
    got := fun _ hget => absurd (hgot.symm.trans hget) nofun
    final := hfinal
    exited := hexited
    thread := fun hevent hthread => absurd (h.thread hevent hthread) hstarted }

/-- The poller goes on with an analysis. -/
theorem Inv.goOnWith (h : Inv cfg s) (hstarted : s.poller ≠ .notStarted)
    (hpending : s.terminalPending = some terminal) (hstop : s.stopRequested cfg = false)
    {phase : PollerPhase} (hholds : phase.holds = some terminal)
    (hgot : ∀ got, phase.got = some got → got ∈ s.polled) : Inv cfg { s with poller := phase } :=
  { h with
    holds := fun held hheld => ⟨hpending.trans (hholds.symm.trans hheld), hstop⟩
    got := hgot
    final := fun hyes => absurd (hstop.symm.trans hyes) Bool.false_ne_true
    exited := by
      rintro rfl
      exact nomatch hholds
    thread := fun hevent hthread => absurd (h.thread hevent hthread) hstarted }

/-- A verdict for the pending analysis frees the slot unless it stops the job. -/
theorem applyVerdict_eq (hpending : s.terminalPending = some terminal) (stop : Bool) :
    s.applyVerdict cfg terminal stop =
      { s with
        verdicts := s.verdicts ++ [(terminal, stop)]
        poller := .checking
        stopLatched := stop || s.stopLatched
        stopVerdictCount := s.stopVerdictCount + if stop then 1 else 0
        terminalPending := if stop && cfg.enforceStop then some terminal else none
        getStartedRecorded :=
          if stop && cfg.enforceStop then s.getStartedRecorded else false } := by
  cases stop with
  | true => cases henforce : cfg.enforceStop <;> simp [applyVerdict, clear, hpending, henforce]
  | false => simp [applyVerdict, clear, hpending]

theorem Inv.applyVerdict (h : Inv cfg s) {stop : Bool}
    (happlying : s.poller = .applying terminal stop) :
    Inv cfg (s.applyVerdict cfg terminal stop) := by
  obtain ⟨hpending, hstop⟩ := h.holds terminal (by rw [happlying]; rfl)
  have hpolled : terminal ∈ s.polled := h.got terminal (by rw [happlying]; rfl)
  have hidle : s.submitter = .idle := by
    by_contra hbusy
    exact absurd (hpending.symm.trans (h.free hbusy)) nofun
  have hanswered : (s.verdicts ++ [(terminal, stop)]).map (fun v => v.1.post) =
      s.answered ++ [terminal.post] := map_append
  rw [applyVerdict_eq hpending]
  exact
    { free := fun hbusy => absurd hidle hbusy
      installing := fun _ hinstalling => absurd (hidle.symm.trans hinstalling) nofun
      pending := by
        intro held hheld
        split at hheld
        · exact h.pending held (hpending.trans hheld)
        · exact absurd hheld nofun
      unanswered := by
        intro held hheld hnot
        split at hheld
        · rename_i hfinal
          obtain ⟨rfl, henforce⟩ := (Bool.and_eq_true _ _).mp hfinal
          simp [stopRequested, henforce] at hnot
        · exact absurd hheld nofun
      holds := nofun
      polled := h.polled
      got := nofun
      own := by
        intro v hv
        rcases mem_append.mp hv with hold | hnew
        · exact h.own v hold
        · rw [mem_singleton.mp hnew]
          exact hpolled
      once := by
        rw [State.answered, hanswered]
        exact nodup_append_comm.mp
          (nodup_cons.mpr ⟨h.unanswered terminal hpending hstop, h.once⟩)
      counted := by
        rw [filter_append, length_append, ← h.counted]
        cases stop <;> rfl
      final := fun _ => .inl rfl
      exited := nofun
      thread := fun hevent hthread =>
        absurd (happlying.symm.trans (h.thread hevent hthread)) nofun }

/-- A GET is made for the pending analysis. -/
theorem Inv.get (h : Inv cfg s) (hprofiling : s.poller = .profiling terminal) :
    Inv cfg { s with
      getStartedRecorded := true
      poller := .getting terminal
      polled := s.polled ++ [terminal] } := by
  obtain ⟨hpending, hstop⟩ := h.holds terminal (by rw [hprofiling]; rfl)
  have hlast : terminal ∈ s.polled ++ [terminal] := mem_append_right _ mem_cons_self
  exact
    { h with
      holds := fun held hheld => ⟨hpending.trans hheld, hstop⟩
      polled := by
        intro polled hmem
        rcases mem_append.mp hmem with hold | hnew
        · exact h.polled polled hold
        · rw [mem_singleton.mp hnew]
          exact h.pending terminal hpending
      got := by
        rintro _ ⟨⟩
        exact hlast
      own := fun v hv => mem_append_left _ (h.own v hv)
      final := fun hyes => absurd (hstop.symm.trans hyes) Bool.false_ne_true
      exited := nofun
      thread := fun hevent hthread =>
        absurd (hprofiling.symm.trans (h.thread hevent hthread)) nofun }

theorem Inv.poll (h : Inv cfg s) {raises : Bool} (hstep : s.poll cfg raises = some t) :
    Inv cfg t := by
  unfold State.poll at hstep
  split at hstep
  · rename_i hlooping
    have hstop := h.not_stopRequested (by rw [hlooping]; exact nofun)
      (by rw [hlooping]; exact nofun)
    refine some.inj hstep ▸ h.goOn (by rw [hlooping]; exact nofun) ?_ ?_ ?_ ?_
    · split <;> rfl
    · split <;> rfl
    · exact fun hyes => absurd (hstop.symm.trans hyes) Bool.false_ne_true
    · intro hexited
      split at hexited
      · rename_i hevent
        exact .inl hevent
      · exact absurd hexited nofun
  · rename_i hreading
    have hstarted : s.poller ≠ .notStarted := by rw [hreading]; exact nofun
    split at hstep
    · exact some.inj hstep ▸ h.goOn hstarted rfl rfl (fun _ => .inl rfl) nofun
    · rename_i terminal hpending
      have hstop := h.not_stopRequested (by rw [hreading]; exact nofun)
        (by rw [hreading]; exact nofun)
      by_cases hempty : terminal.logPath = ""
      · rw [if_pos hempty] at hstep
        exact some.inj hstep ▸ h.goOn hstarted rfl rfl (fun _ => .inl rfl) nofun
      · rw [if_neg hempty] at hstep
        exact some.inj hstep ▸ h.goOnWith hstarted hpending hstop rfl nofun
  · rename_i terminal hprofiling
    split at hstep
    · rename_i hrecorded
      have hget := h.get hprofiling
      rw [← hrecorded] at hget
      exact some.inj hstep ▸ hget
    · split at hstep
      · exact some.inj hstep ▸ { h.goOn (by rw [hprofiling]; exact nofun) rfl rfl
          (fun _ => .inl rfl) nofun with }
      · exact some.inj hstep ▸ h.get hprofiling
  · rename_i terminal stop hcompleting
    have hstarted : s.poller ≠ .notStarted := by rw [hcompleting]; exact nofun
    obtain ⟨hpending, hstop⟩ := h.holds terminal (by rw [hcompleting]; rfl)
    by_cases hraises : raises = true
    · rw [if_pos hraises] at hstep
      exact some.inj hstep ▸ h.goOn hstarted rfl rfl (fun _ => .inl rfl) nofun
    · rw [if_neg hraises] at hstep
      refine some.inj hstep ▸ h.goOnWith hstarted hpending hstop rfl ?_
      rintro _ ⟨⟩
      exact h.got terminal (by rw [hcompleting]; rfl)
  · rename_i terminal stop happlying
    exact some.inj hstep ▸ h.applyVerdict happlying
  · rename_i hchecking
    refine some.inj hstep ▸ h.goOn (by rw [hchecking]; exact nofun) ?_ ?_ ?_ ?_
    · split <;> rfl
    · split <;> rfl
    · intro hstop
      rw [stopRequested, Bool.and_comm] at hstop
      exact .inr (if_pos hstop)
    · intro hexited
      split at hexited
      · rename_i hfinal
        rw [Bool.and_comm] at hfinal
        exact .inr hfinal
      · exact absurd hexited nofun
  · rename_i hwaiting
    have hstop := h.not_stopRequested (by rw [hwaiting]; exact nofun)
      (by rw [hwaiting]; exact nofun)
    exact some.inj hstep ▸ h.goOn (by rw [hwaiting]; exact nofun) rfl rfl
      (fun hyes => absurd (hstop.symm.trans hyes) Bool.false_ne_true) nofun
  · exact absurd hstep nofun
  · exact absurd hstep nofun
  · exact absurd hstep nofun

theorem Inv.getReturns (h : Inv cfg s) {outcome : GetOutcome}
    (hstep : s.getReturns outcome = some t) : Inv cfg t := by
  unfold State.getReturns at hstep
  split at hstep
  · rename_i terminal hgetting
    have hstarted : s.poller ≠ .notStarted := by rw [hgetting]; exact nofun
    split at hstep
    · exact some.inj hstep ▸ h.goOn hstarted rfl rfl (fun _ => .inl rfl) nofun
    · obtain ⟨hpending, hstop⟩ := h.holds terminal (by rw [hgetting]; rfl)
      refine some.inj hstep ▸ h.goOnWith hstarted hpending hstop rfl ?_
      rintro _ ⟨⟩
      exact h.got terminal (by rw [hgetting]; rfl)
  · exact absurd hstep nofun

theorem Inv.step (h : Inv cfg s) (hstep : s.step cfg a = some t) : Inv cfg t := by
  cases a with
  | submitLog logPath => exact h.submitLog hstep
  | requestTerminalAnalysis => exact h.requestTerminalAnalysis hstep
  | postReturns outcome => exact h.postReturns hstep
  | install => exact h.install hstep
  | startPoller => exact some.inj hstep ▸ h.startPoller
  | stopPoller => exact some.inj hstep ▸ h.stopPoller
  | poll raises => exact h.poll hstep
  | getReturns outcome => exact h.getReturns hstep

theorem inv_of_reachable (hreach : (system cfg).Reachable (fun _ _ => True) s) : Inv cfg s := by
  refine hreach.invariant ?_ fun s a t h _ hstep => h.step hstep
  rintro _ rfl
  exact inv_start cfg

/-! ## What a step does -/

/-- What the slot, the latch and the verdicts are together. -/
def core (s : State) : Option Terminal × Bool × Nat × List (Terminal × Bool) :=
  (s.terminalPending, s.stopLatched, s.stopVerdictCount, s.verdicts)

/-- Only the submitter that fills the slot and the poller that applies a verdict change them. -/
theorem step_cases (hstep : s.step cfg a = some t) :
    t.core = s.core ∨
      (∃ terminal, s.submitter = .installing terminal ∧
        t.core = (some terminal, s.stopLatched, s.stopVerdictCount, s.verdicts)) ∨
      ∃ terminal stop, s.poller = .applying terminal stop ∧
        t = s.applyVerdict cfg terminal stop := by
  cases a with
  | submitLog logPath =>
    simp only [step, submitLog] at hstep
    split at hstep
    · exact .inl (some.inj hstep ▸ rfl)
    · exact absurd hstep nofun
  | requestTerminalAnalysis =>
    simp only [step, requestTerminalAnalysis] at hstep
    repeat' split at hstep
    all_goals first
      | exact .inl (some.inj hstep ▸ rfl)
      | exact absurd hstep nofun
  | postReturns outcome =>
    simp only [step, postReturns] at hstep
    repeat' split at hstep
    all_goals first
      | exact .inl (some.inj hstep ▸ rfl)
      | exact absurd hstep nofun
  | install =>
    simp only [step, install] at hstep
    split at hstep
    · rename_i terminal hinstalling
      exact .inr (.inl ⟨terminal, hinstalling, some.inj hstep ▸ rfl⟩)
    · exact absurd hstep nofun
  | startPoller =>
    simp only [step, startPoller] at hstep
    repeat' split at hstep
    all_goals exact .inl (some.inj hstep ▸ rfl)
  | stopPoller => exact .inl (some.inj hstep ▸ rfl)
  | poll raises =>
    simp only [step, poll] at hstep
    split at hstep
    case h_5 terminal stop happlying =>
      exact .inr (.inr ⟨terminal, stop, happlying, (some.inj hstep).symm⟩)
    all_goals repeat' split at hstep
    all_goals first
      | exact .inl (some.inj hstep ▸ rfl)
      | exact absurd hstep nofun
  | getReturns outcome =>
    simp only [step, getReturns] at hstep
    repeat' split at hstep
    all_goals first
      | exact .inl (some.inj hstep ▸ rfl)
      | exact absurd hstep nofun

/-- What holds in every state. -/
structure Safe (cfg : Config) (s : State) : Prop where
  /-- A log is polled after its terminal analysis was accepted. -/
  polled : ∀ terminal ∈ s.polled, s.Accepted terminal
  pending : ∀ terminal, s.terminalPending = some terminal → s.Accepted terminal
  /-- An accepted analysis has at most one verdict, for which it was polled. -/
  once : (s.verdicts.map fun v => v.1.post).Nodup
  own : ∀ v ∈ s.verdicts, v.1 ∈ s.polled
  counted : s.stopVerdictCount = (s.verdicts.filter fun v => v.2).length
  notRequested : cfg.enforceStop = false → s.stopRequested cfg = false
  goesOn : cfg.enforceStop = false → s.poller = .exited → s.pollStopEvent = true

/-- What every step keeps. -/
structure Keeps (cfg : Config) (s : State) (a : Action) (t : State) : Prop where
  /-- The slot is cleared by a verdict for its own analysis only. -/
  slot : ∀ terminal, s.terminalPending = some terminal → t.terminalPending = some terminal ∨
    t.terminalPending = none ∧ ∃ stop, t.verdicts = s.verdicts ++ [(terminal, stop)]
  /-- A rejected analysis leaves the slot and the submitter free. -/
  rejected : ∀ outcome, a = .postReturns outcome → outcome.accepted = false →
    t.terminalPending = none ∧ t.submitter = .idle ∧ t.accepted = s.accepted
  /-- A stop stays requested, and no verdict is counted after it. -/
  final : s.stopRequested cfg = true → t.stopRequested cfg = true ∧ t.verdicts = s.verdicts ∧
    t.stopVerdictCount = s.stopVerdictCount

theorem Inv.safe (h : Inv cfg s) : s.Safe cfg where
  polled := h.polled
  pending := h.pending
  once := h.once
  own := h.own
  counted := h.counted
  notRequested henforce := by rw [stopRequested, henforce, Bool.and_false]
  goesOn henforce hexited := by
    refine (h.exited hexited).resolve_right fun hstop => ?_
    rw [stopRequested, henforce, Bool.and_false] at hstop
    exact Bool.false_ne_true hstop

theorem Inv.keeps (h : Inv cfg s) (hstep : s.step cfg a = some t) :
    s.Keeps cfg a t where
  slot terminal hpending := by
    rcases step_cases hstep with hcore | ⟨installed, hinstalling, -⟩ | ⟨held, stop, happlying, rfl⟩
    · exact .inl ((congrArg Prod.fst hcore).trans hpending)
    · have hfree := h.free (by rw [hinstalling]; exact nofun)
      exact absurd (hfree.symm.trans hpending) nofun
    · have hheld := (h.holds held (by rw [happlying]; rfl)).1
      obtain rfl := some.inj (hheld.symm.trans hpending)
      rw [applyVerdict_eq hpending]
      by_cases hfinal : (stop && cfg.enforceStop) = true
      · exact .inl (if_pos hfinal)
      · exact .inr ⟨if_neg hfinal, stop, rfl⟩
  rejected := by
    rintro outcome rfl hrejected
    simp only [State.step, State.postReturns, hrejected, Bool.and_false] at hstep
    split at hstep
    · rename_i hposting
      have hfree := h.free (by rw [hposting]; exact nofun)
      exact some.inj hstep ▸ ⟨hfree, rfl, rfl⟩
    · exact absurd hstep nofun
  final hstop := by
    rcases step_cases hstep with hcore | ⟨installed, -, hcore⟩ | ⟨held, stop, happlying, -⟩
    · simp only [core, Prod.mk.injEq] at hcore
      exact ⟨by rw [stopRequested, hcore.2.1]; exact hstop, hcore.2.2.2, hcore.2.2.1⟩
    · simp only [core, Prod.mk.injEq] at hcore
      exact ⟨by rw [stopRequested, hcore.2.1]; exact hstop, hcore.2.2.2, hcore.2.2.1⟩
    · have hnot := (h.holds held (by rw [happlying]; rfl)).2
      exact absurd (hnot.symm.trans hstop) Bool.false_ne_true

/-- A stop that is requested stays so in every run. -/
theorem final_of_run {actions : List Action} (h : Inv cfg s) (hstop : s.stopRequested cfg = true)
    (hrun : (system cfg).Run (fun _ _ => True) s actions t) :
    t.stopRequested cfg = true ∧ t.verdicts = s.verdicts ∧
      t.stopVerdictCount = s.stopVerdictCount := by
  induction hrun with
  | nil s => exact ⟨hstop, rfl, rfl⟩
  | cons _ hstep _ ih =>
    obtain ⟨hstop', hverdicts, hcount⟩ := (h.keeps hstep).final hstop
    obtain ⟨hlast, hverdicts', hcount'⟩ := ih (h.step hstep) hstop'
    exact ⟨hlast, hverdicts'.trans hverdicts, hcount'.trans hcount⟩

/-- In every order of requests, replies and iterations of the poller. -/
theorem verdicts_counted_once (hreach : (system cfg).Reachable (fun _ _ => True) s) :
    s.Safe cfg ∧ (∀ a t, s.step cfg a = some t → s.Keeps cfg a t) ∧
      (s.stopRequested cfg = true → ∀ actions t,
        (system cfg).Run (fun _ _ => True) s actions t → t.stopRequested cfg = true ∧
          t.verdicts = s.verdicts ∧ t.stopVerdictCount = s.stopVerdictCount) := by
  have hinv := inv_of_reachable hreach
  exact ⟨hinv.safe, fun a t hstep => hinv.keeps hstep,
    fun hstop actions t hrun => final_of_run hinv hstop hrun⟩

def enforcing : Config where
  endpoint := "http://localhost:8000"
  enforceStop := true

/-- A log is submitted, its terminal analysis accepted, and the second GET recommends a stop. -/
theorem verdicts_counted_once_enforcing :
    ∃ s, (system enforcing).Reachable (fun _ _ => True) s ∧ s.stopRequested enforcing = true ∧
      s.Safe enforcing ∧ ∀ actions t, (system enforcing).Run (fun _ _ => True) s actions t →
        t.stopRequested enforcing = true ∧ t.verdicts = s.verdicts ∧
          t.stopVerdictCount = s.stopVerdictCount := by
  have hrun : ((system enforcing).execute (fun _ _ => True) .start
      [.startPoller, .submitLog "/logs/cycle0.log", .requestTerminalAnalysis,
        .postReturns (.response (some 200)), .install, .poll false, .poll false, .poll false,
        .getReturns (.response 200 "running" false), .poll false, .poll false, .poll false,
        .poll false, .poll false, .getReturns (.response 200 "completed" true), .poll false,
        .poll false]).any (stopRequested enforcing) = true := by
    decide +kernel
  obtain ⟨s, hreach, hstop⟩ := System.exists_reachable_of_execute (S := system enforcing) rfl hrun
  have hsafe := verdicts_counted_once hreach
  exact ⟨s, hreach, hstop, hsafe.1, hsafe.2.2 hstop⟩

end State

end AttributionService

end ResiliencyExt.Attribution
