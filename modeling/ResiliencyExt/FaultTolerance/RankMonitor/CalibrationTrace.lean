import ResiliencyExt.FaultTolerance.RankMonitor.CalculatedTimeouts
import ResiliencyExt.FaultTolerance.RankMonitor.SectionTimeouts
set_option autoImplicit false

/-!
# Rank monitor: a trace on the calculator and on the server

A trace of section messages and heartbeats is fed to the calculator, and the same trace is
replayed on the server.  The calculator measures an interval when the event comes that
ends it: a section when it is closed, the time out of all sections when one is opened, the
time between heartbeats when the next one comes.  What it has measured never gets shorter.
-/

namespace ResiliencyExt.FaultTolerance.RankMonitor

open Foundation Fallible List

/-- What a rank sends to its monitor. -/
inductive RankEvent where
  | heartbeat
  | sectionMsg (msg : SectionMsg)

/-- An event with its time. -/
structure TimedEvent where
  time : Int
  event : RankEvent

/-! ## The calculator -/

namespace Calculator

/-- `update_on_heartbeat` or `update_on_section_event` -/
def onEvent (measured : Calculator) (e : TimedEvent) : Except CalcError Calculator :=
  match e.event with
  | .heartbeat =>
    (measured.heartbeats.updateOnHeartbeat e.time).map fun next =>
      { measured with heartbeats := next }
  | .sectionMsg msg =>
    match measured.sections.updateOnSectionEvent msg.sectionName msg.action e.time with
    | .ok next => .ok { measured with sections := next }
    | .error error => .error (.sectionEvent error)

/-- The events of a trace one after another. -/
def feed (measured : Calculator) (trace : List TimedEvent) : Except CalcError Calculator :=
  trace.foldlM onEvent measured

/-- `TimeoutsCalc(sections=names, start_time=startTime, safety_factor=safetyFactor)` -/
def new (cfg : SectionConfig) (startTime : Int) (safetyFactor : ℚ) : Calculator where
  sections :=
    { openSections := .empty
      lastSectionCloseTime := startTime
      outOfSectionMaxTime := -1
      sectionToMaxTime :=
        .const (cfg.sectionNames.map some) (cfg.nodup.map (Option.some_injective String)) (-1) }
  heartbeats :=
    { startTime := startTime
      prevHbTime := none
      count := 0
      initialMaxTime := -1
      subsequentMaxTime := -1 }
  safetyFactor := safetyFactor

end Calculator

/-! ## The server -/

/-- The server with the fields that heartbeats are checked by. -/
structure CheckedRank where
  server : RankMonitorServer
  startTime : Int
  lastHbTime : Option Int

namespace CheckedRank

/-- `_handle_init_msg`, at one reading of the clock. -/
def init (server : RankMonitorServer) (now : Int) : CheckedRank where
  server := { server with openSections := .empty, outOfSectionTime := some now }
  startTime := now
  lastHbTime := none

/-- `_handle_heartbeat_msg` or `_handle_section_msg` -/
def onEvent (cfg : SectionConfig) (rank : CheckedRank) (e : TimedEvent) :
    Except StateMachineError CheckedRank :=
  match e.event with
  | .heartbeat =>
    rank.server.stateMachine.handleMsg.map fun stateMachine =>
      { rank with
        server := { rank.server with stateMachine := stateMachine }
        lastHbTime := some e.time }
  | .sectionMsg msg =>
    (rank.server.handleSectionMsg cfg msg e.time).map fun handled =>
      { rank with server := handled.1 }

/-- The events of a trace one after another. -/
def replay (cfg : SectionConfig) (rank : CheckedRank) (trace : List TimedEvent) :
    Except StateMachineError CheckedRank :=
  trace.foldlM (onEvent cfg) rank

/-- `_is_hb_timeout_elapsed` -/
def isHbTimeoutElapsed (rank : CheckedRank) (timeouts : HeartbeatTimeouts) (currTime : ℚ) :
    Bool :=
  match rank.lastHbTime with
  | none => SectionState.isElapsed currTime (rank.startTime : ℚ) timeouts.initial
  | some last => SectionState.isElapsed currTime (last : ℚ) timeouts.subsequent

/-- The fields that the section check reads, at any time. -/
def sectionState (rank : CheckedRank) : SectionState ℚ where
  openSections := rank.server.openSections.mapValues fun start => (start : ℚ)
  outOfSectionTime := rank.server.outOfSectionTime.map fun start => (start : ℚ)
  initialIteration := rank.server.initialIteration
  currentIteration := rank.server.currentIteration
  stepSectionSeenThisCycle := rank.server.stepSectionSeenThisCycle

end CheckedRank

/-- `_handle_update_config_msg`: the calculated timeouts are the server's. -/
def CalculatedTimeouts.install (timeouts : CalculatedTimeouts) (numWarmupIterations : Int) :
    SectionTimeouts ℚ where
  rankSectionTimeouts := timeouts.sectionTimeouts
  rankOutOfSectionTimeout := timeouts.outOfSection
  numWarmupIterations := numWarmupIterations

/-! ## What an event measures -/

/-- No maximum of the sections gets smaller. -/
structure TimeoutsCalc.Grows (a b : TimeoutsCalc) : Prop where
  sections : ∀ name time, a.sectionToMaxTime.get? name = some time →
    ∃ longer, b.sectionToMaxTime.get? name = some longer ∧ time ≤ longer
  outOfSection : a.outOfSectionMaxTime ≤ b.outOfSectionMaxTime

namespace TimeoutsCalc

variable {a b c : TimeoutsCalc} {name : SectionName} {now : Int}

theorem Grows.refl (a : TimeoutsCalc) : a.Grows a :=
  ⟨fun _ time h => ⟨time, h, le_refl time⟩, le_refl _⟩

theorem Grows.trans (hab : a.Grows b) (hbc : b.Grows c) : a.Grows c := by
  refine ⟨fun name time h => ?_, hab.outOfSection.trans hbc.outOfSection⟩
  obtain ⟨longer, hlonger, hle⟩ := hab.sections name time h
  obtain ⟨longest, hlongest, hle'⟩ := hbc.sections name longer hlonger
  exact ⟨longest, hlongest, hle.trans hle'⟩

/-- The section has been measured for at least so long. -/
def Measured (a : TimeoutsCalc) (name : SectionName) (elapsed : Int) : Prop :=
  ∃ time, a.sectionToMaxTime.get? name = some time ∧ elapsed ≤ time

theorem Measured.grows {elapsed : Int} (h : a.Measured name elapsed) (hab : a.Grows b) :
    b.Measured name elapsed := by
  obtain ⟨time, htime, hle⟩ := h
  obtain ⟨longer, hlonger, hle'⟩ := hab.sections name time htime
  exact ⟨longer, hlonger, hle.trans hle'⟩

/-- What opening a section does. -/
theorem openSection_spec (h : a.openSection name now = .ok b) :
    name ∉ a.openSections.keys ∧ b.openSections = a.openSections.set name now ∧
      b.lastSectionCloseTime = a.lastSectionCloseTime ∧ a.Grows b ∧
      (a.openSections.keys = [] → now - a.lastSectionCloseTime ≤ b.outOfSectionMaxTime) := by
  unfold openSection at h
  split at h
  next => cases h
  next hnew =>
      cases h
      refine ⟨hnew, by simp, ?_, ⟨fun _ time hget => ⟨time, by simpa using hget, le_refl _⟩, ?_⟩,
        fun hnone => ?_⟩
      · unfold maybeBumpOosTime
        split <;> rfl
      · unfold maybeBumpOosTime
        split
        · exact le_max_left _ _
        · exact le_refl _
      · simp only [maybeBumpOosTime, if_pos hnone]
        exact le_max_right _ _

/-- What closing a section does. -/
theorem closeSection_spec (h : a.closeSection name now = .ok b) :
    ∃ start, a.openSections.get? name = some start ∧
      b.openSections = a.openSections.erase name ∧ b.Measured name (now - start) ∧
      a.Grows b ∧ b.lastSectionCloseTime =
        if b.openSections.keys = [] then now else a.lastSectionCloseTime := by
  unfold closeSection at h
  split at h
  next => cases h
  next start hstart =>
      split at h
      next => cases h
      next currentMax hmax =>
          cases h
          refine ⟨start, hstart, rfl, ?_, ⟨fun other time hget => ?_, le_refl _⟩, rfl⟩
          · exact ⟨_, Dict.get?_set_self _ _ _, le_max_right _ _⟩
          · rw [Dict.get?_set]
            split
            next heq =>
                rw [heq, hmax] at hget
                cases hget
                exact ⟨_, rfl, le_max_left _ _⟩
            next => exact ⟨time, hget, le_refl _⟩

/-- What the loop of `CLOSE_ALL` does. -/
theorem closeSections_spec : ∀ {names : List SectionName} {a : TimeoutsCalc}, names.Nodup →
    a.closeSections now names = .ok b →
      b.openSections.keys = a.openSections.keys.filter (fun name => name ∉ names) ∧
      (∀ name ∈ names, ∀ start, a.openSections.get? name = some start →
        b.Measured name (now - start)) ∧
      a.Grows b ∧
      (b.lastSectionCloseTime = a.lastSectionCloseTime ∨ b.lastSectionCloseTime = now) := by
  intro names
  induction names with
  | nil =>
    intro a _ h
    cases h
    exact ⟨by simp, fun _ hname => absurd hname not_mem_nil, .refl _, .inl rfl⟩
  | cons first rest ih =>
    intro a hnodup h
    obtain ⟨hfirst, hrest⟩ := nodup_cons.mp hnodup
    rw [closeSections] at h
    split at h
    next => cases h
    next mid hmid =>
        obtain ⟨start, hstart, hopen, hmeasured, hgrows, hclose⟩ := closeSection_spec hmid
        obtain ⟨hkeys, hothers, hgrows', hclose'⟩ := ih hrest h
        refine ⟨?_, fun name hname start' hget => ?_, hgrows.trans hgrows', ?_⟩
        · rw [hkeys, hopen, Dict.keys_erase, filter_filter]
          refine filter_congr fun name _ => ?_
          rw [← Bool.decide_and, decide_eq_decide, mem_cons, not_or, and_comm]
        · rcases mem_cons.mp hname with rfl | hname
          · rw [hstart] at hget
            cases hget
            exact hmeasured.grows hgrows'
          · refine hothers name hname start' ?_
            have hne : name ≠ first := fun heq => hfirst (heq ▸ hname)
            rw [hopen, Dict.get?_erase_of_ne _ hne, hget]
        · rcases hclose' with hclose' | hclose'
          · rw [hclose', hclose]
            split
            · exact .inr rfl
            · exact .inl rfl
          · exact .inr hclose'

end TimeoutsCalc

/-- What a section event that is accepted does. -/
theorem TimeoutsCalc.updateOnSectionEvent_cases {a b : TimeoutsCalc} {name : SectionName}
    {action : SectionAction} {now : Int} (h : a.updateOnSectionEvent name action now = .ok b) :
    (action = .open ∧ a.openSection name now = .ok b) ∨
      (action = .close ∧ a.closeSection name now = .ok b) ∨
      (action = .closeAll ∧ a.closeSections now a.openSections.keys = .ok b) := by
  unfold updateOnSectionEvent at h
  split at h
  next => cases h
  next =>
      cases action with
      | «open» => exact .inl ⟨rfl, h⟩
      | close => exact .inr (.inl ⟨rfl, h⟩)
      | closeAll => exact .inr (.inr ⟨rfl, h⟩)

/-- What a heartbeat measures. -/
theorem HeartbeatCalc.updateOnHeartbeat_spec {a b : HeartbeatCalc} {now : Int}
    (h : a.updateOnHeartbeat now = .ok b) :
    b.startTime = a.startTime ∧ b.prevHbTime = some now ∧ b.count = a.count + 1 ∧
      a.initialMaxTime ≤ b.initialMaxTime ∧ a.subsequentMaxTime ≤ b.subsequentMaxTime ∧
      (a.count = 0 → now - a.startTime ≤ b.initialMaxTime) ∧
      (a.count ≠ 0 → ∃ prev, a.prevHbTime = some prev ∧ now - prev ≤ b.subsequentMaxTime) := by
  unfold updateOnHeartbeat measure at h
  split at h
  next hzero =>
      cases h
      exact ⟨rfl, rfl, rfl, le_max_left _ _, le_refl _, fun _ => le_max_right _ _,
        fun hne => absurd hzero hne⟩
  next hne =>
      split at h
      next => cases h
      next prev hprev =>
          cases h
          exact ⟨rfl, rfl, rfl, le_refl _, le_max_left _ _, fun hzero => absurd hzero hne,
            fun _ => ⟨prev, hprev, le_max_right _ _⟩⟩

namespace Calculator

variable {a b : Calculator} {e : TimedEvent}

/-- An event that is accepted is a heartbeat or a section event. -/
theorem onEvent_cases (h : a.onEvent e = .ok b) :
    (e.event = .heartbeat ∧ b.sections = a.sections ∧ b.safetyFactor = a.safetyFactor ∧
      a.heartbeats.updateOnHeartbeat e.time = .ok b.heartbeats) ∨
    (∃ msg, e.event = .sectionMsg msg ∧ b.heartbeats = a.heartbeats ∧
      b.safetyFactor = a.safetyFactor ∧
      a.sections.updateOnSectionEvent msg.sectionName msg.action e.time = .ok b.sections) := by
  unfold onEvent at h
  cases hevent : e.event with
  | heartbeat =>
    simp only [hevent] at h
    cases hnext : a.heartbeats.updateOnHeartbeat e.time with
    | error error =>
      rw [hnext] at h
      cases h
    | ok next =>
      rw [hnext] at h
      cases h
      exact .inl ⟨rfl, rfl, rfl, rfl⟩
  | sectionMsg msg =>
    simp only [hevent] at h
    split at h
    next next hnext =>
        cases h
        exact .inr ⟨msg, rfl, rfl, rfl, hnext⟩
    next => cases h

/-- No maximum gets smaller. -/
structure Grows (a b : Calculator) : Prop where
  sections : a.sections.Grows b.sections
  initial : a.heartbeats.initialMaxTime ≤ b.heartbeats.initialMaxTime
  subsequent : a.heartbeats.subsequentMaxTime ≤ b.heartbeats.subsequentMaxTime
  safetyFactor : b.safetyFactor = a.safetyFactor

theorem Grows.refl (a : Calculator) : a.Grows a :=
  ⟨.refl _, le_refl _, le_refl _, rfl⟩

theorem Grows.trans {c : Calculator} (hab : a.Grows b) (hbc : b.Grows c) : a.Grows c :=
  ⟨hab.sections.trans hbc.sections, hab.initial.trans hbc.initial,
    hab.subsequent.trans hbc.subsequent, hbc.safetyFactor.trans hab.safetyFactor⟩

theorem grows_onEvent (h : a.onEvent e = .ok b) : a.Grows b := by
  rcases onEvent_cases h with ⟨-, hsections, hfactor, hbeat⟩ | ⟨msg, -, hbeats, hfactor, hmsg⟩
  · obtain ⟨-, -, -, hinitial, hsubsequent, -⟩ := HeartbeatCalc.updateOnHeartbeat_spec hbeat
    exact ⟨hsections ▸ .refl _, hinitial, hsubsequent, hfactor⟩
  · refine ⟨?_, by rw [hbeats], by rw [hbeats], hfactor⟩
    rcases TimeoutsCalc.updateOnSectionEvent_cases hmsg with
      ⟨-, hopen⟩ | ⟨-, hclose⟩ | ⟨-, hcloseAll⟩
    · exact (TimeoutsCalc.openSection_spec hopen).2.2.2.1
    · obtain ⟨start, -, -, -, hgrows, -⟩ := TimeoutsCalc.closeSection_spec hclose
      exact hgrows
    · exact (TimeoutsCalc.closeSections_spec a.sections.openSections.nodup_keys hcloseAll).2.2.1

theorem feed_cons {e : TimedEvent} {rest : List TimedEvent}
    (h : a.feed (e :: rest) = .ok b) : ∃ mid, a.onEvent e = .ok mid ∧ mid.feed rest = .ok b := by
  rw [feed, foldlM_cons] at h
  exact exists_of_bind_eq_ok h

theorem feed_append {front back : List TimedEvent} (h : a.feed (front ++ back) = .ok b) :
    ∃ mid, a.feed front = .ok mid ∧ mid.feed back = .ok b := by
  rw [feed, foldlM_append] at h
  exact exists_of_bind_eq_ok h

theorem grows_feed {trace : List TimedEvent} : ∀ {a : Calculator},
    a.feed trace = .ok b → a.Grows b := by
  induction trace with
  | nil =>
    intro a h
    cases h
    exact .refl _
  | cons e rest ih =>
    intro a h
    obtain ⟨mid, hmid, hrest⟩ := feed_cons h
    exact (grows_onEvent hmid).trans (ih hrest)

end Calculator

/-! ## The event that ends an interval -/

/-- The event closes the section. -/
def TimedEvent.Closes (e : TimedEvent) (name : SectionName) : Prop :=
  ∃ msg, e.event = .sectionMsg msg ∧
    (msg.action = .closeAll ∨ msg.action = .close ∧ msg.sectionName = name)

/-- The event opens a section. -/
def TimedEvent.Opens (e : TimedEvent) : Prop :=
  ∃ msg, e.event = .sectionMsg msg ∧ msg.action = .open

namespace Calculator

variable {a b : Calculator} {e : TimedEvent} {name : SectionName} {start : Int}

/-- A section that an event closes is measured, and one that it does not stays open. -/
theorem closes_or_open (h : a.onEvent e = .ok b)
    (hopen : a.sections.openSections.get? name = some start) :
    (e.Closes name → b.sections.Measured name (e.time - start)) ∧
      (¬ e.Closes name → b.sections.openSections.get? name = some start) := by
  have hmem : name ∈ a.sections.openSections.keys := Dict.mem_keys_of_get? hopen
  rcases onEvent_cases h with ⟨hevent, hsections, -⟩ | ⟨msg, hevent, -, -, hmsg⟩
  · refine ⟨?_, fun _ => hsections ▸ hopen⟩
    rintro ⟨msg, hmsg, -⟩
    cases hevent.symm.trans hmsg
  · have hcloses : e.Closes name ↔
        msg.action = .closeAll ∨ msg.action = .close ∧ msg.sectionName = name := by
      simp [TimedEvent.Closes, hevent]
    rw [hcloses]
    rcases TimeoutsCalc.updateOnSectionEvent_cases hmsg with
      ⟨haction, hstep⟩ | ⟨haction, hstep⟩ | ⟨haction, hstep⟩
    · obtain ⟨hnew, hset, -⟩ := TimeoutsCalc.openSection_spec hstep
      refine ⟨by simp [haction], fun _ => ?_⟩
      have hne : name ≠ msg.sectionName := fun heq => hnew (heq ▸ hmem)
      rw [hset, Dict.get?_set_of_ne _ _ hne, hopen]
    · obtain ⟨start', hstart, herase, hmeasured, -⟩ := TimeoutsCalc.closeSection_spec hstep
      constructor
      · rintro (hall | ⟨-, rfl⟩)
        · cases haction.symm.trans hall
        · rw [hopen] at hstart
          cases hstart
          exact hmeasured
      · intro hnot
        have hne : name ≠ msg.sectionName := fun heq => hnot (.inr ⟨haction, heq.symm⟩)
        rw [herase, Dict.get?_erase_of_ne _ hne, hopen]
    · obtain ⟨-, hmeasured, -⟩ :=
        TimeoutsCalc.closeSections_spec a.sections.openSections.nodup_keys hstep
      exact ⟨fun _ => hmeasured name hmem start hopen,
        fun hnot => absurd (.inl haction) hnot⟩

/-- A section that is closed later is measured for as long as it is open. -/
theorem measured_of_closed_later {trace : List TimedEvent} : ∀ {a : Calculator},
    a.feed trace = .ok b → a.sections.openSections.get? name = some start →
      (∃ e ∈ trace, e.Closes name) →
        ∃ e ∈ trace, b.sections.Measured name (e.time - start) := by
  induction trace with
  | nil =>
    rintro a - - ⟨e, he, -⟩
    cases he
  | cons e rest ih =>
    intro a h hopen hlater
    obtain ⟨mid, hmid, hrest⟩ := feed_cons h
    obtain ⟨hclosed, hstays⟩ := closes_or_open hmid hopen
    by_cases hcloses : e.Closes name
    · exact ⟨e, mem_cons_self, (hclosed hcloses).grows (grows_feed hrest).sections⟩
    · obtain ⟨e', he', hcloses'⟩ := hlater
      have hmem : e' ∈ rest :=
        (mem_cons.mp he').resolve_left fun heq => hcloses (heq ▸ hcloses')
      obtain ⟨last, hlast, hmeasured⟩ := ih hrest (hstays hcloses) ⟨e', hmem, hcloses'⟩
      exact ⟨last, mem_cons_of_mem e hlast, hmeasured⟩

/-- Out of all sections, an event opens one and measures, or nothing of the sections changes. -/
theorem opens_or_same (h : a.onEvent e = .ok b) (hnone : a.sections.openSections.keys = []) :
    (e.Opens → e.time - a.sections.lastSectionCloseTime ≤ b.sections.outOfSectionMaxTime) ∧
      (¬ e.Opens → b.sections = a.sections) := by
  rcases onEvent_cases h with ⟨hevent, hsections, -⟩ | ⟨msg, hevent, -, -, hmsg⟩
  · refine ⟨?_, fun _ => hsections⟩
    rintro ⟨msg, hmsg, -⟩
    cases hevent.symm.trans hmsg
  · have hopens : e.Opens ↔ msg.action = .open := by simp [TimedEvent.Opens, hevent]
    rw [hopens]
    rcases TimeoutsCalc.updateOnSectionEvent_cases hmsg with
      ⟨haction, hstep⟩ | ⟨haction, hstep⟩ | ⟨haction, hstep⟩
    · obtain ⟨-, -, -, -, hmeasured⟩ := TimeoutsCalc.openSection_spec hstep
      exact ⟨fun _ => hmeasured hnone, fun hnot => absurd haction hnot⟩
    · obtain ⟨start, hstart, -⟩ := TimeoutsCalc.closeSection_spec hstep
      have hmem := Dict.mem_keys_of_get? hstart
      rw [hnone] at hmem
      cases hmem
    · rw [hnone] at hstep
      exact ⟨by simp [haction], fun _ => (Except.ok.inj hstep).symm⟩

/-- The time out of all sections is measured when a section is opened later. -/
theorem measured_of_opened_later {trace : List TimedEvent} : ∀ {a : Calculator},
    a.feed trace = .ok b → a.sections.openSections.keys = [] → (∃ e ∈ trace, e.Opens) →
      ∃ e ∈ trace,
        e.time - a.sections.lastSectionCloseTime ≤ b.sections.outOfSectionMaxTime := by
  induction trace with
  | nil =>
    rintro a - - ⟨e, he, -⟩
    cases he
  | cons e rest ih =>
    intro a h hnone hlater
    obtain ⟨mid, hmid, hrest⟩ := feed_cons h
    obtain ⟨hopened, hsame⟩ := opens_or_same hmid hnone
    by_cases hopens : e.Opens
    · exact ⟨e, mem_cons_self,
        (hopened hopens).trans (grows_feed hrest).sections.outOfSection⟩
    · obtain ⟨e', he', hopens'⟩ := hlater
      have hmem : e' ∈ rest :=
        (mem_cons.mp he').resolve_left fun heq => hopens (heq ▸ hopens')
      have hsections := hsame hopens
      obtain ⟨last, hlast, hmeasured⟩ :=
        ih hrest (hsections ▸ hnone) ⟨e', hmem, hopens'⟩
      exact ⟨last, mem_cons_of_mem e hlast, hsections ▸ hmeasured⟩

/-- The interval since the last heartbeat, or since the start, is measured when a heartbeat
comes later. -/
theorem measured_of_heartbeat_later {trace : List TimedEvent} : ∀ {a : Calculator},
    a.feed trace = .ok b → (∃ e ∈ trace, e.event = .heartbeat) →
      ∃ e ∈ trace,
        (a.heartbeats.count = 0 →
          e.time - a.heartbeats.startTime ≤ b.heartbeats.initialMaxTime) ∧
        (a.heartbeats.count ≠ 0 → ∃ prev, a.heartbeats.prevHbTime = some prev ∧
          e.time - prev ≤ b.heartbeats.subsequentMaxTime) := by
  induction trace with
  | nil =>
    rintro a - ⟨e, he, -⟩
    cases he
  | cons e rest ih =>
    intro a h hlater
    obtain ⟨mid, hmid, hrest⟩ := feed_cons h
    have hgrows := grows_feed hrest
    rcases onEvent_cases hmid with ⟨-, -, -, hbeat⟩ | ⟨msg, hevent, hsame, -⟩
    · obtain ⟨-, -, -, -, -, hinitial, hsubsequent⟩ :=
        HeartbeatCalc.updateOnHeartbeat_spec hbeat
      refine ⟨e, mem_cons_self, fun hzero => (hinitial hzero).trans hgrows.initial,
        fun hne => ?_⟩
      obtain ⟨prev, hprev, hle⟩ := hsubsequent hne
      exact ⟨prev, hprev, hle.trans hgrows.subsequent⟩
    · obtain ⟨e', he', hbeat⟩ := hlater
      have hmem : e' ∈ rest := (mem_cons.mp he').resolve_left fun heq => by
        rw [heq, hevent] at hbeat
        cases hbeat
      obtain ⟨last, hlast, hmeasured⟩ := ih hrest ⟨e', hmem, hbeat⟩
      exact ⟨last, mem_cons_of_mem e hlast, hsame ▸ hmeasured⟩

end Calculator

end ResiliencyExt.FaultTolerance.RankMonitor
