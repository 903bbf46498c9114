import ResiliencyExt.FaultTolerance.RankMonitor.CalibrationTrace
set_option autoImplicit false

/-!
# Rank monitor: timeouts calibrated on a trace

The timeouts that the calculator makes of a trace are installed in the server, and the
same trace is replayed.  Server and calculator keep the same open sections, and the
server's clock out of all sections does not run ahead of the calculator's.  So until the
event that ends an interval the server waits no longer than the calculator has measured.
-/

namespace ResiliencyExt.FaultTolerance.RankMonitor

open Foundation Fallible List

/-! ## The server follows the calculator -/

/-- The server after the events that the calculator has been fed, the last of them at `now`
or before. -/
structure Follows (measured : Calculator) (rank : CheckedRank) (now : Int) : Prop where
  openSections : rank.server.openSections = measured.sections.openSections
  clock : rank.server.ClockMatches
  outOfSection : ∀ start, rank.server.outOfSectionTime = some start →
    measured.sections.lastSectionCloseTime ≤ start
  closedBefore : measured.sections.lastSectionCloseTime ≤ now
  startTime : rank.startTime = measured.heartbeats.startTime
  lastHbTime : rank.lastHbTime = measured.heartbeats.prevHbTime
  counted : measured.heartbeats.count = 0 ↔ measured.heartbeats.prevHbTime = none
  running : rank.server.stateMachine.isTerminal = false

variable {cfg : SectionConfig} {measured next : Calculator} {rank : CheckedRank} {now : Int}

variable {server : RankMonitorServer} {e : TimedEvent} {msg : SectionMsg}

theorem follows_init (cfg : SectionConfig) (hserver : server.stateMachine.isTerminal = false)
    (startTime : Int) (safetyFactor : ℚ) :
    Follows (.new cfg startTime safetyFactor) (.init server startTime) startTime where
  openSections := rfl
  clock := iff_of_true rfl rfl
  outOfSection := by
    intro start h
    cases h
    exact le_refl _
  closedBefore := le_refl _
  startTime := rfl
  lastHbTime := rfl
  counted := iff_of_true rfl rfl
  running := hserver

/-- A heartbeat leaves the sections, and is the last one for both. -/
theorem Follows.heartbeat (h : Follows measured rank now) (hnow : now ≤ e.time)
    (hsections : next.sections = measured.sections)
    (hbeat : measured.heartbeats.updateOnHeartbeat e.time = .ok next.heartbeats)
    {stateMachine : RankMonitorState} (hrunning : stateMachine.isTerminal = false) :
    Follows next
      { rank with
        server := { rank.server with stateMachine := stateMachine }
        lastHbTime := some e.time } e.time := by
  obtain ⟨hstart, hprev, hcount, -⟩ := HeartbeatCalc.updateOnHeartbeat_spec hbeat
  exact {
    openSections := h.openSections.trans (by rw [hsections])
    clock := h.clock
    outOfSection := fun start hout => by
      rw [hsections]
      exact h.outOfSection start hout
    closedBefore := by
      rw [hsections]
      exact h.closedBefore.trans hnow
    startTime := h.startTime.trans hstart.symm
    lastHbTime := hprev.symm
    counted := by simp [hprev, hcount]
    running := hrunning }

/-- A section message that the calculator accepts changes the open sections of both alike. -/
theorem applySectionMsg_follows {a b : TimeoutsCalc}
    (hopen : server.openSections = a.openSections) (hclock : server.ClockMatches)
    (hbefore : a.lastSectionCloseTime ≤ now)
    (h : a.updateOnSectionEvent msg.sectionName msg.action now = .ok b) :
    (server.applySectionMsg msg now).1.openSections = b.openSections ∧
      (∀ start, (server.applySectionMsg msg now).1.outOfSectionTime = some start →
        b.lastSectionCloseTime ≤ start) ∧
      b.lastSectionCloseTime ≤ now := by
  rcases TimeoutsCalc.updateOnSectionEvent_cases h with
    ⟨haction, hstep⟩ | ⟨haction, hstep⟩ | ⟨haction, hstep⟩
  · obtain ⟨hnew, hset, hclose, -⟩ := TimeoutsCalc.openSection_spec hstep
    have hnew' : msg.sectionName ∉ server.openSections.keys := hopen ▸ hnew
    simp only [RankMonitorServer.applySectionMsg, haction, if_pos hnew']
    exact ⟨by rw [hset, hopen], nofun, hclose ▸ hbefore⟩
  · obtain ⟨start, hstart, herase, -, -, hclose⟩ := TimeoutsCalc.closeSection_spec hstep
    have hmem : msg.sectionName ∈ server.openSections.keys :=
      hopen ▸ Dict.mem_keys_of_get? hstart
    have hle : b.lastSectionCloseTime ≤ now := by
      rw [hclose]
      split
      · exact le_refl _
      · exact hbefore
    simp only [RankMonitorServer.applySectionMsg, haction, if_pos hmem]
    refine ⟨by rw [herase, hopen], fun start' hstart' => ?_, hle⟩
    split at hstart'
    next =>
        cases hstart'
        exact hle
    next =>
        -- another section was open all along, so the clock was not running
        have hnone := hclock.mp (by rw [hstart']; rfl)
        rw [hnone] at hmem
        cases hmem
  · obtain ⟨hkeys, -, -, hclose⟩ :=
      TimeoutsCalc.closeSections_spec a.openSections.nodup_keys hstep
    have hle : b.lastSectionCloseTime ≤ now := by
      rcases hclose with hclose | hclose
      · exact hclose ▸ hbefore
      · exact le_of_eq hclose
    have hempty : b.openSections = Dict.empty := by
      refine Dict.eq_of_entries (map_eq_nil_iff.mp (hkeys.trans ?_))
      exact filter_eq_nil_iff.mpr fun name hname hnot => of_decide_eq_true hnot hname
    simp only [RankMonitorServer.applySectionMsg, haction]
    refine ⟨hempty.symm, fun start' hstart' => ?_, hle⟩
    cases hstart'
    exact hle

/-- A section message changes nothing of the state machine beyond `handle_section_msg`. -/
theorem stateMachine_applySectionMsg (server : RankMonitorServer) (msg : SectionMsg)
    (now : Int) :
    ((server.trackIteration msg).applySectionMsg msg now).1.stateMachine =
      server.stateMachine := by
  have htrack : (server.trackIteration msg).stateMachine = server.stateMachine := by
    unfold RankMonitorServer.trackIteration
    split <;> rfl
  rw [← htrack]
  unfold RankMonitorServer.applySectionMsg
  cases msg.action with
  | closeAll => rfl
  | «open» =>
    simp only
    split <;> rfl
  | close =>
    simp only
    split <;> rfl

/-- The server handles a section message that the calculator accepts. -/
theorem Follows.sectionMsg (cfg : SectionConfig) (h : Follows measured rank now)
    (hnow : now ≤ e.time) (hbeats : next.heartbeats = measured.heartbeats)
    (hmsg : measured.sections.updateOnSectionEvent msg.sectionName msg.action e.time =
      .ok next.sections) :
    ∃ handled, rank.server.handleSectionMsg cfg msg e.time = .ok handled ∧
      Follows next { rank with server := handled.1 } e.time := by
  obtain ⟨stateMachine, hstate, hrunning⟩ := RankMonitorState.handleMsg_of_not_terminal h.running
  obtain ⟨hopen, hout⟩ :=
    RankMonitorServer.trackIteration_sections { rank.server with stateMachine := stateMachine } msg
  have hclock : (RankMonitorServer.trackIteration
      { rank.server with stateMachine := stateMachine } msg).ClockMatches := by
    rw [RankMonitorServer.ClockMatches, hopen, hout]
    exact h.clock
  obtain ⟨hsame, hoos, hbefore⟩ := applySectionMsg_follows (hopen.trans h.openSections) hclock
    (h.closedBefore.trans hnow) hmsg
  refine ⟨_, by simp only [RankMonitorServer.handleSectionMsg, hstate]; rfl, ?_⟩
  exact {
    openSections := hsame
    clock := RankMonitorServer.clockMatches_applySectionMsg hclock msg e.time
    outOfSection := hoos
    closedBefore := hbefore
    startTime := h.startTime.trans (by rw [hbeats])
    lastHbTime := h.lastHbTime.trans (by rw [hbeats])
    counted := by
      rw [hbeats]
      exact h.counted
    running := by
      rw [stateMachine_applySectionMsg]
      exact hrunning }

/-- One event keeps server and calculator together. -/
theorem Follows.onEvent (cfg : SectionConfig) (h : Follows measured rank now)
    (hnow : now ≤ e.time) (hevent : measured.onEvent e = .ok next) :
    ∃ after, rank.onEvent cfg e = .ok after ∧ Follows next after e.time := by
  rcases Calculator.onEvent_cases hevent with
    ⟨heq, hsections, -, hbeat⟩ | ⟨msg, heq, hbeats, -, hmsg⟩
  · obtain ⟨stateMachine, hstate, hrunning⟩ :=
      RankMonitorState.handleMsg_of_not_terminal h.running
    refine ⟨_, ?_, h.heartbeat hnow hsections hbeat hrunning⟩
    simp only [CheckedRank.onEvent, heq, hstate]
    rfl
  · obtain ⟨handled, hhandled, hfollows⟩ := h.sectionMsg cfg hnow hbeats hmsg
    refine ⟨_, ?_, hfollows⟩
    simp only [CheckedRank.onEvent, heq, hhandled]
    rfl

/-- A whole trace keeps server and calculator together. -/
theorem Follows.replay (cfg : SectionConfig) {trace : List TimedEvent} :
    ∀ {measured : Calculator} {rank : CheckedRank} {now : Int}, Follows measured rank now →
      (∀ e ∈ trace, now ≤ e.time) → (trace.map TimedEvent.time).Pairwise (· ≤ ·) →
      measured.feed trace = .ok next →
        ∃ after last, rank.replay cfg trace = .ok after ∧ Follows next after last := by
  induction trace with
  | nil =>
    intro measured rank now h _ _ hfeed
    cases hfeed
    exact ⟨rank, now, rfl, h⟩
  | cons e rest ih =>
    intro measured rank now h hnow hsorted hfeed
    obtain ⟨mid, hmid, hrest⟩ := Calculator.feed_cons hfeed
    obtain ⟨hfirst, hsorted⟩ := pairwise_cons.mp hsorted
    obtain ⟨after, hafter, hfollows⟩ := h.onEvent cfg (hnow e mem_cons_self) hmid
    obtain ⟨final, last, hfinal, hlast⟩ :=
      ih hfollows (fun e' he' => hfirst _ (mem_map_of_mem he')) hsorted hrest
    refine ⟨final, last, ?_, hlast⟩
    rw [CheckedRank.replay, foldlM_cons, hafter]
    exact hfinal

/-! ## The timeouts cover what was measured -/

/-- A timeout that was left out of the calculation is not below what was measured. -/
structure Calculator.KeptCovers (measured : Calculator) (selected : Option (List String))
    (calcOutOfSection : Bool) (current : Option CalculatedTimeouts) : Prop where
  sections : ∀ before, current = some before → ∀ name, name ∉ measured.selectedNames selected →
    ∀ limit, before.sectionTimeouts.get? name = some (some limit) →
    ∀ time, measured.sections.sectionToMaxTime.get? (some name) = some time →
      (time : ℚ) ≤ limit
  outOfSection : ∀ before, current = some before → calcOutOfSection = false →
    ∀ limit, before.outOfSection = some limit →
      (measured.sections.outOfSectionMaxTime : ℚ) ≤ limit

variable {selected : Option (List String)} {calcOutOfSection : Bool}
  {current : Option CalculatedTimeouts} {timeouts : CalculatedTimeouts}

/-- A time multiplied by the safety factor is not below the time. -/
theorem le_of_multiplied {safetyFactor limit : ℚ} {time : Int} (hsafety : 1 ≤ safetyFactor)
    (hlimit : limit = safetyFactor * time) (hpos : 0 < limit) : (time : ℚ) ≤ limit := by
  have hfactor : 0 < safetyFactor := lt_of_lt_of_le one_pos hsafety
  have htime : (0 : ℚ) < time := by
    rw [hlimit] at hpos
    exact (mul_pos_iff_of_pos_left hfactor).mp hpos
  rw [hlimit]
  exact le_mul_of_one_le_left htime.le hsafety

section

variable (hsafety : 1 ≤ measured.safetyFactor)
    (h : measured.getSectionTimeouts selected calcOutOfSection current = .ok timeouts)
    (hcurrent : ∀ before, current = some before → before.NotCalculated)
    (hkept : measured.KeptCovers selected calcOutOfSection current)
include hsafety h hcurrent hkept

theorem le_sectionTimeout {name : String} {limit : ℚ}
    (hget : timeouts.sectionTimeouts.get? name = some (some limit)) {elapsed : Int}
    (hmeasured : measured.sections.Measured (some name) elapsed) : (elapsed : ℚ) ≤ limit := by
  obtain ⟨time, htime, hle⟩ := hmeasured
  have hcover : (time : ℚ) ≤ limit := by
    rcases Calculator.getSectionTimeouts_section h hcurrent hget with
      ⟨time', htime', hlimit, hpos⟩ | ⟨hout, before, hbefore, hold⟩
    · rw [htime] at htime'
      cases htime'
      exact le_of_multiplied hsafety hlimit hpos
    · exact hkept.sections before hbefore name hout limit hold time htime
  exact le_trans (Int.cast_le.mpr hle) hcover

theorem le_outOfSectionTimeout {limit : ℚ} (hlimit : timeouts.outOfSection = some limit) :
    (measured.sections.outOfSectionMaxTime : ℚ) ≤ limit := by
  rcases Calculator.getSectionTimeouts_outOfSection h hcurrent hlimit with
    ⟨heq, hpos⟩ | ⟨hout, before, hbefore, hold⟩
  · exact le_of_multiplied hsafety heq hpos
  · exact hkept.outOfSection before hbefore hout limit hold

end

/-! ## The checks report nothing -/

/-- Nothing has elapsed before an event that ends the interval in time. -/
theorem isElapsed_eq_false {currTime limit : ℚ} {start ends : Int} (hends : currTime ≤ ends)
    (hlimit : ((ends - start : Int) : ℚ) ≤ limit) :
    SectionState.isElapsed currTime (start : ℚ) (some limit) = false := by
  rw [Int.cast_sub] at hlimit
  simp only [SectionState.isElapsed, decide_eq_false_iff_not, not_lt]
  linarith

/-- The timeout of the step is not replaced by that of the warmup. -/
def NoWarmupOverride (state : SectionState ℚ) (cfg : SectionTimeouts ℚ) : Prop :=
  ¬ ("warmup" ∈ cfg.rankSectionTimeouts.keys ∧ state.inWarmup cfg = true)

/-- Without the override, the timeout of a section is its own. -/
theorem get?_of_timeoutOf {state : SectionState ℚ} {cfg : SectionTimeouts ℚ}
    (hwarmup : NoWarmupOverride state cfg) {name : SectionName} {limit : ℚ}
    (h : state.timeoutOf cfg name = some limit) :
    ∃ text, name = some text ∧ cfg.rankSectionTimeouts.get? text = some (some limit) := by
  unfold SectionState.timeoutOf at h
  rw [if_neg fun hboth => hwarmup hboth.2] at h
  cases name with
  | none => cases h
  | some text => exact ⟨text, rfl, Option.join_eq_some_iff.mp h⟩

variable {after : Calculator} {back : List TimedEvent} {currTime : ℚ}

section

variable (h : Follows after rank now) (hfeed : after.feed back = .ok measured)
    (hback : ∀ e ∈ back, currTime ≤ e.time) (hsafety : 1 ≤ measured.safetyFactor)
    (htimeouts : measured.getSectionTimeouts selected calcOutOfSection current = .ok timeouts)
    (hcurrent : ∀ before, current = some before → before.NotCalculated)
    (hkept : measured.KeptCovers selected calcOutOfSection current)
include h hfeed hback hsafety htimeouts hcurrent hkept

/-- An open section that is closed later has not elapsed. -/
theorem Follows.section_not_elapsed {numWarmupIterations : Int}
    (hwarmup : NoWarmupOverride rank.sectionState (timeouts.install numWarmupIterations))
    {e : SectionName × ℚ} (he : e ∈ rank.sectionState.openSections.entries)
    (hclosed : ∃ e' ∈ back, e'.Closes e.1) :
    SectionState.isElapsed currTime e.2
      (rank.sectionState.timeoutOf (timeouts.install numWarmupIterations) e.1) = false := by
  obtain ⟨⟨name, start⟩, hmem, rfl⟩ := mem_map.mp he
  cases htimeout : rank.sectionState.timeoutOf (timeouts.install numWarmupIterations) name with
  | none => rfl
  | some limit =>
    obtain ⟨text, rfl, hget⟩ := get?_of_timeoutOf hwarmup htimeout
    have hopen : after.sections.openSections.get? (some text) = some start := by
      rw [← h.openSections]
      exact Dict.get?_eq_some_of_mem hmem
    obtain ⟨last, hlast, hmeasured⟩ := Calculator.measured_of_closed_later hfeed hopen hclosed
    exact isElapsed_eq_false (hback last hlast)
      (le_sectionTimeout hsafety htimeouts hcurrent hkept hget hmeasured)

/-- Out of all sections, nothing has elapsed before a section is opened. -/
theorem Follows.outOfSection_not_elapsed (hnone : rank.server.openSections.keys = [])
    (hopened : ∃ e ∈ back, e.Opens) {start : Int}
    (hstart : rank.server.outOfSectionTime = some start) :
    SectionState.isElapsed currTime (start : ℚ) timeouts.outOfSection = false := by
  cases hlimit : timeouts.outOfSection with
  | none => rfl
  | some limit =>
    obtain ⟨last, hlast, hmeasured⟩ :=
      Calculator.measured_of_opened_later hfeed (h.openSections ▸ hnone) hopened
    refine isElapsed_eq_false (hback last hlast) (le_trans (Int.cast_le.mpr ?_)
      (le_outOfSectionTimeout hsafety htimeouts hcurrent hkept hlimit))
    have hclose := h.outOfSection start hstart
    omega

/-- The section check reports nothing while every open section is closed later and, when none
is open, one is opened later. -/
theorem Follows.isSectionTimeoutElapsed {numWarmupIterations : Int}
    (hwarmup : NoWarmupOverride rank.sectionState (timeouts.install numWarmupIterations))
    (hclosed : ∀ name ∈ rank.server.openSections.keys, ∃ e ∈ back, e.Closes name)
    (hopened : rank.server.openSections.keys = [] → ∃ e ∈ back, e.Opens) :
    rank.sectionState.isSectionTimeoutElapsed (timeouts.install numWarmupIterations) currTime =
      .ok false := by
  have hkeys : rank.sectionState.openSections.keys = rank.server.openSections.keys :=
    Dict.keys_mapValues _ _
  by_cases hnone : rank.server.openSections.keys = []
  · obtain ⟨start, hstart⟩ := Option.isSome_iff_exists.mp (h.clock.mpr hnone)
    have hout : rank.sectionState.outOfSectionTime = some (start : ℚ) := by
      simp [CheckedRank.sectionState, hstart]
    have hcheck := h.outOfSection_not_elapsed hfeed hback hsafety htimeouts hcurrent hkept hnone
      (hopened hnone) hstart
    unfold SectionState.isSectionTimeoutElapsed
    rw [if_pos (hkeys.trans hnone)]
    split_ifs
    · rfl
    · rw [hout]
      exact congrArg Except.ok hcheck
  · obtain ⟨last, hlast, hcheck⟩ := SectionState.isSectionTimeoutElapsed_of_open
      (timeouts.install numWarmupIterations) currTime (hkeys ▸ hnone)
    have hmem := mem_of_getLast? hlast
    have hname : last.1 ∈ rank.server.openSections.keys := hkeys ▸ mem_map_of_mem hmem
    rw [hcheck, h.section_not_elapsed hfeed hback hsafety htimeouts hcurrent hkept hwarmup hmem
      (hclosed _ hname)]

end

/-- The heartbeat check reports nothing while a heartbeat comes later. -/
theorem Follows.isHbTimeoutElapsed (h : Follows after rank now)
    (hfeed : after.feed back = .ok measured) (hback : ∀ e ∈ back, currTime ≤ e.time)
    (hsafety : 1 ≤ measured.safetyFactor) {current : Option HeartbeatTimeouts}
    {timeouts : HeartbeatTimeouts} (htimeouts : measured.getHbTimeouts current = .ok timeouts)
    (hcurrent : ∀ before, current = some before → before.wereCalculated ≠ some true)
    (hlater : ∃ e ∈ back, e.event = .heartbeat) :
    rank.isHbTimeoutElapsed timeouts currTime = false := by
  obtain ⟨hinitial, hsubsequent, hipos, hspos⟩ :=
    Calculator.getHbTimeouts_spec htimeouts hcurrent
  obtain ⟨last, hlast, hfirst, hnext⟩ := Calculator.measured_of_heartbeat_later hfeed hlater
  have hfactor : 0 < measured.safetyFactor := lt_of_lt_of_le one_pos hsafety
  have hcover : ∀ {elapsed longest : Int}, elapsed ≤ longest → 0 < longest →
      (elapsed : ℚ) ≤ measured.safetyFactor * longest := by
    intro elapsed longest hle hpos
    have hlongest : (0 : ℚ) < longest := Int.cast_pos.mpr hpos
    exact le_trans (Int.cast_le.mpr hle)
      (le_of_multiplied hsafety rfl (mul_pos hfactor hlongest))
  unfold CheckedRank.isHbTimeoutElapsed
  cases hprev : rank.lastHbTime with
  | none =>
    have hzero := h.counted.mpr (h.lastHbTime.symm.trans hprev)
    rw [hinitial, h.startTime]
    exact isElapsed_eq_false (hback last hlast) (hcover (hfirst hzero) hipos)
  | some prev =>
    have hne : after.heartbeats.count ≠ 0 := by
      intro hzero
      rw [h.lastHbTime, h.counted.mp hzero] at hprev
      cases hprev
    obtain ⟨prev', hprev', hle⟩ := hnext hne
    rw [h.lastHbTime, hprev'] at hprev
    cases hprev
    rw [hsubsequent]
    exact isElapsed_eq_false (hback last hlast) (hcover hle hspos)

/-- **Calibrated timeouts.**  The timeouts that are calculated from a trace are installed and
the trace is replayed.  At any time up to the events that are still to come, the section
check reports nothing if every open section is closed later and, when none is open, one is
opened later, and the heartbeat check reports nothing if a heartbeat comes later. -/
theorem calibrated_timeouts_silent (cfg : SectionConfig) (server : RankMonitorServer)
    (hserver : server.stateMachine.isTerminal = false) (startTime : Int) (safetyFactor : ℚ)
    (hsafety : 1 ≤ safetyFactor) (selected : Option (List String)) (calcOutOfSection : Bool)
    (current : Option CalculatedTimeouts) (currentHb : Option HeartbeatTimeouts)
    (hcurrent : ∀ before, current = some before → before.NotCalculated)
    (hcurrentHb : ∀ before, currentHb = some before → before.wereCalculated ≠ some true)
    (numWarmupIterations : Int) (front back : List TimedEvent)
    (hstart : ∀ e ∈ front ++ back, startTime ≤ e.time)
    (hsorted : ((front ++ back).map TimedEvent.time).Pairwise (· ≤ ·)) (measured : Calculator)
    (hfeed : (Calculator.new cfg startTime safetyFactor).feed (front ++ back) = .ok measured)
    (currTime : ℚ) (hback : ∀ e ∈ back, currTime ≤ e.time) :
    ∃ rank, (CheckedRank.init server startTime).replay cfg front = .ok rank ∧
      (∀ timeouts,
        measured.getSectionTimeouts selected calcOutOfSection current = .ok timeouts →
        measured.KeptCovers selected calcOutOfSection current →
        NoWarmupOverride rank.sectionState (timeouts.install numWarmupIterations) →
        (∀ name ∈ rank.server.openSections.keys, ∃ e ∈ back, e.Closes name) →
        (rank.server.openSections.keys = [] → ∃ e ∈ back, e.Opens) →
        rank.sectionState.isSectionTimeoutElapsed (timeouts.install numWarmupIterations)
          currTime = .ok false) ∧
      ∀ timeouts, measured.getHbTimeouts currentHb = .ok timeouts →
        (∃ e ∈ back, e.event = .heartbeat) →
        rank.isHbTimeoutElapsed timeouts currTime = false := by
  have hfactor : 1 ≤ measured.safetyFactor := by
    rw [(Calculator.grows_feed hfeed).safetyFactor]
    exact hsafety
  obtain ⟨mid, hfront, hrest⟩ := Calculator.feed_append hfeed
  rw [map_append, pairwise_append] at hsorted
  obtain ⟨rank, last, hreplay, hfollows⟩ :=
    (follows_init cfg hserver startTime safetyFactor).replay cfg
      (fun e he => hstart e (mem_append_left _ he)) hsorted.1 hfront
  refine ⟨rank, hreplay, fun timeouts htimeouts hkept hwarmup hclosed hopened => ?_,
    fun timeouts htimeouts hlater => ?_⟩
  · exact hfollows.isSectionTimeoutElapsed hrest hback hfactor htimeouts hcurrent hkept hwarmup
      hclosed hopened
  · exact hfollows.isHbTimeoutElapsed hrest hback hfactor htimeouts hcurrentHb hlater

/-! ## A rank that stops its heartbeats -/

/-- One section, and replies to section messages. -/
def oneStepConfig : SectionConfig where
  sectionNames := ["step"]
  nodup := nodup_singleton _
  skipSectionResponse := false

theorem nodup_step : [some "step"].Nodup :=
  nodup_singleton _

/-- A server that nothing has been sent to. -/
def freshServer : RankMonitorServer where
  stateMachine := .uninitialized
  openSections := .empty
  outOfSectionTime := none
  initialIteration := none
  currentIteration := none
  stepSectionSeenThisCycle := false

/-- Two heartbeats, then a step is begun. -/
def stepBegun : List TimedEvent :=
  [⟨1, .heartbeat⟩, ⟨2, .heartbeat⟩, ⟨3, .sectionMsg ⟨some "step", .open, none⟩⟩]

/-- The step ends. -/
def stepEnds : List TimedEvent :=
  [⟨100, .sectionMsg ⟨some "step", .close, none⟩⟩]

/-- What is measured of the trace. -/
def longStepMeasured : Calculator where
  sections :=
    { openSections := .empty
      lastSectionCloseTime := 100
      outOfSectionMaxTime := 3
      sectionToMaxTime := .const [some "step"] nodup_step 97 }
  heartbeats :=
    { startTime := 0
      prevHbTime := some 2
      count := 2
      initialMaxTime := 1
      subsequentMaxTime := 1 }
  safetyFactor := 1

theorem feed_longStep : (Calculator.new oneStepConfig 0 1).feed
    (stepBegun ++ stepEnds) = .ok longStepMeasured := by
  rfl

theorem calibrated_timeouts_silent_step :
    ∃ rank, (CheckedRank.init freshServer 0).replay oneStepConfig stepBegun = .ok rank ∧
      (∀ timeouts,
        longStepMeasured.getSectionTimeouts none true none = .ok timeouts →
        longStepMeasured.KeptCovers none true none →
        NoWarmupOverride rank.sectionState (timeouts.install 0) →
        (∀ name ∈ rank.server.openSections.keys, ∃ e ∈ stepEnds, e.Closes name) →
        (rank.server.openSections.keys = [] → ∃ e ∈ stepEnds, e.Opens) →
        rank.sectionState.isSectionTimeoutElapsed (timeouts.install 0) 50 = .ok false) ∧
      ∀ timeouts, longStepMeasured.getHbTimeouts none = .ok timeouts →
        (∃ e ∈ stepEnds, e.event = .heartbeat) →
        rank.isHbTimeoutElapsed timeouts 50 = false :=
  calibrated_timeouts_silent oneStepConfig freshServer rfl 0 1 (le_refl 1) none true none none
    nofun nofun 0 stepBegun stepEnds (by simp [stepBegun, stepEnds])
    (by decide) longStepMeasured feed_longStep 50 (by simp [stepEnds]; norm_num)

/-! ## Intervals that no event ends -/

/-- The checks report nothing at the time, whatever was measured of the whole trace. -/
def SilentAt (calcOutOfSection : Bool) (current : Option CalculatedTimeouts)
    (front back : List TimedEvent) (currTime : ℚ) : Prop :=
  ∀ measured rank sections heartbeats,
    (Calculator.new oneStepConfig 0 1).feed (front ++ back) = .ok measured →
    (CheckedRank.init freshServer 0).replay oneStepConfig front = .ok rank →
    measured.getSectionTimeouts none calcOutOfSection current = .ok sections →
    measured.getHbTimeouts none = .ok heartbeats →
    (∀ name ∈ rank.server.openSections.keys, ∃ e ∈ back, e.Closes name) →
    rank.sectionState.isSectionTimeoutElapsed (sections.install 0) currTime = .ok false ∧
      rank.isHbTimeoutElapsed heartbeats currTime = false

/-- A step after a heartbeat. -/
def stepDone : List TimedEvent :=
  [⟨1, .heartbeat⟩, ⟨2, .sectionMsg ⟨some "step", .open, none⟩⟩,
    ⟨4, .sectionMsg ⟨some "step", .close, none⟩⟩]

/-- The rank is still alive. -/
def aliveAgain : List TimedEvent :=
  [⟨100, .heartbeat⟩]

/-- Another step, six ticks after the first. -/
def nextStep : List TimedEvent :=
  [⟨10, .sectionMsg ⟨some "step", .open, none⟩⟩, ⟨11, .sectionMsg ⟨some "step", .close, none⟩⟩,
    ⟨100, .heartbeat⟩]

/-- One tick is allowed out of all sections. -/
def oneTickOutside : CalculatedTimeouts where
  sectionTimeouts := .empty
  outOfSection := some 1
  calculatedSections := []
  isOutOfSectionCalculated := false

/-- What is measured of the step between two heartbeats. -/
def shortStepMeasured : Calculator where
  sections :=
    { openSections := .empty
      lastSectionCloseTime := 4
      outOfSectionMaxTime := 2
      sectionToMaxTime := .const [some "step"] nodup_step 2 }
  heartbeats :=
    { startTime := 0
      prevHbTime := some 100
      count := 2
      initialMaxTime := 1
      subsequentMaxTime := 99 }
  safetyFactor := 1

/-- What is measured of both steps. -/
def twoStepsMeasured : Calculator where
  sections :=
    { openSections := .empty
      lastSectionCloseTime := 11
      outOfSectionMaxTime := 6
      sectionToMaxTime := .const [some "step"] nodup_step 2 }
  heartbeats :=
    { startTime := 0
      prevHbTime := some 100
      count := 2
      initialMaxTime := 1
      subsequentMaxTime := 99 }
  safetyFactor := 1

/-- The timeout of the step, and the timeout out of all sections as it was calculated. -/
theorem newTimeouts_step (measured : Calculator) (time : Int)
    (hnames : measured.sectionNames = ["step"])
    (hmax : measured.maxTime "step" = .ok time) (hpos : 0 < measured.safetyFactor * time)
    {calcOutOfSection : Bool} {outside : Option ℚ}
    (hout : measured.outOfSectionTimeout calcOutOfSection = .ok outside) :
    measured.newTimeouts none calcOutOfSection =
      .ok ⟨measured.noTimeouts.set "step" (some (measured.safetyFactor * time)), outside,
        ["step"], calcOutOfSection⟩ := by
  have hset : measured.setTimeout measured.noTimeouts "step" =
      .ok (measured.noTimeouts.set "step" (some (measured.safetyFactor * time))) := by
    rw [Calculator.setTimeout, hmax]
    exact if_pos hpos
  simp only [Calculator.newTimeouts, Calculator.selectedNames, Option.getD_none, hnames,
    foldlM_cons, foldlM_nil, hset, hout]
  rfl

/-- The heartbeats came one tick after another, and 48 ticks after the last of them the rank
is still in its step. -/
theorem not_silentAt_lastHeartbeat : ¬ SilentAt true none stepBegun stepEnds 50 := by
  intro hsilent
  have hout : longStepMeasured.outOfSectionTimeout true = .ok (some (1 * (3 : Int))) := by
    rw [Calculator.outOfSectionTimeout, if_pos rfl]
    exact if_pos (by norm_num [longStepMeasured])
  have hnew := newTimeouts_step longStepMeasured 97 rfl rfl
    (by norm_num [longStepMeasured]) hout
  have hchecked := (hsilent longStepMeasured
    ⟨{ freshServer with
      stateMachine := .initialized
      openSections := Dict.empty.set (some "step") 3
      stepSectionSeenThisCycle := true }, 0, some 2⟩ _
    ⟨some (1 * (1 : Int)), some (1 * (1 : Int)), some true⟩ feed_longStep rfl
    (by rw [Calculator.getSectionTimeouts, hnew]; rfl) rfl ?_).2
  · revert hchecked
    norm_num [CheckedRank.isHbTimeoutElapsed, SectionState.isElapsed]
  · intro name hname
    obtain rfl := mem_singleton.mp hname
    exact ⟨_, mem_singleton_self _, _, rfl, .inr ⟨rfl, rfl⟩⟩

/-- No section is opened after the step, so the time since it ended is not measured. -/
theorem not_silentAt_lastClose : ¬ SilentAt true none stepDone aliveAgain 50 := by
  intro hsilent
  have hout : shortStepMeasured.outOfSectionTimeout true = .ok (some (1 * (2 : Int))) := by
    rw [Calculator.outOfSectionTimeout, if_pos rfl]
    exact if_pos (by norm_num [shortStepMeasured])
  have hnew := newTimeouts_step shortStepMeasured 2 rfl rfl
    (by norm_num [shortStepMeasured]) hout
  have hchecked := (hsilent shortStepMeasured
    ⟨{ freshServer with
      stateMachine := .initialized
      outOfSectionTime := some 4
      stepSectionSeenThisCycle := true }, 0, some 1⟩ _
    ⟨some (1 * (1 : Int)), some (1 * (99 : Int)), some true⟩ rfl rfl
    (by rw [Calculator.getSectionTimeouts, hnew]; rfl) rfl nofun).1
  replace hchecked := Except.ok.inj hchecked
  revert hchecked
  norm_num [CheckedRank.sectionState, CalculatedTimeouts.install, SectionState.isElapsed]

/-- The timeout out of all sections is not calculated, and the one that is kept is shorter
than the time between the steps. -/
theorem not_silentAt_kept : ¬ SilentAt false (some oneTickOutside) stepDone nextStep 8 := by
  intro hsilent
  have hnew := newTimeouts_step twoStepsMeasured 2 rfl rfl
    (by norm_num [twoStepsMeasured])
    (rfl : twoStepsMeasured.outOfSectionTimeout false = .ok none)
  have hchecked := (hsilent twoStepsMeasured
    ⟨{ freshServer with
      stateMachine := .initialized
      outOfSectionTime := some 4
      stepSectionSeenThisCycle := true }, 0, some 1⟩ _
    ⟨some (1 * (1 : Int)), some (1 * (99 : Int)), some true⟩ rfl rfl
    (by rw [Calculator.getSectionTimeouts, hnew]; rfl) rfl nofun).1
  replace hchecked := Except.ok.inj hchecked
  revert hchecked
  norm_num [CheckedRank.sectionState, CalculatedTimeouts.install, SectionState.isElapsed,
    oneTickOutside]

/-- An open section that is closed later is not enough: the heartbeat, the time out of all
sections and a timeout that is kept can each be reported. -/
theorem not_calibrated_timeouts_silent :
    (¬ ∀ (calcOutOfSection : Bool) (current : Option CalculatedTimeouts)
        (front back : List TimedEvent) (currTime : ℚ),
        (∀ before, current = some before → before.NotCalculated) →
        ((front ++ back).map TimedEvent.time).Pairwise (· ≤ ·) →
        (∀ e ∈ front, (e.time : ℚ) ≤ currTime) → (∀ e ∈ back, currTime ≤ e.time) →
        SilentAt calcOutOfSection current front back currTime) ∧
      ¬ SilentAt true none stepDone aliveAgain 50 ∧
      ¬ SilentAt false (some oneTickOutside) stepDone nextStep 8 := by
  refine ⟨fun hsilent => ?_, not_silentAt_lastClose, not_silentAt_kept⟩
  refine not_silentAt_lastHeartbeat (hsilent _ _ _ _ _ nofun (by decide) ?_ ?_)
  · simp [stepBegun]
    norm_num
  · simp [stepEnds]
    norm_num

end ResiliencyExt.FaultTolerance.RankMonitor
