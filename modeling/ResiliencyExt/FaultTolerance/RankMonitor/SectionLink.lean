import ResiliencyExt.Foundation.System
import ResiliencyExt.FaultTolerance.RankMonitor.Sections

set_option autoImplicit false

/-!
# Rank monitor: a client, its server and the socket between them

The client writes section messages to a socket and the server reads them in
order.  With `skip_section_response` the client goes on at once; without it the
call waits for the reply and updates its calculator only then.  Client calls and
the server's reads interleave freely.

`end_all_sections` sends its message for the section `None`.  No configuration
monitors `None`, so the call returns before it sends anything
(`end_all_sections_noop`); the two sides agree on the open sections as long as
it is called only where there was nothing to end, and as long as the server's
state machine takes messages.
-/

namespace ResiliencyExt.FaultTolerance.RankMonitor

open Foundation
open Option (some)

/-! ## The client -/

/-- The public section calls of `RankMonitorClient`. -/
inductive SectionCall where
  | startSection (name : String)
  | endSection (name : String)
  | endAllSections
  deriving DecidableEq, Repr

/-- The section a call hands to `_send_section_msg_impl`. -/
def SectionCall.sectionName : SectionCall → SectionName
  | .startSection name => some name
  | .endSection name => some name
  | .endAllSections => none

/-- The action a call hands to `_send_section_msg_impl`. -/
def SectionCall.action : SectionCall → SectionAction
  | .startSection _ => .open
  | .endSection _ => .close
  | .endAllSections => .closeAll

/-- Why a section update could not be sent. -/
inductive SendFailure where
  | brokenPipe
  | connectionClosed
  | unexpectedReply (reply : Reply)
  | timeouts (error : TimeoutsCalcError)
  deriving DecidableEq, Repr

inductive RankMonitorClientError where
  /-- "RankMonitorClient is not initialized" -/
  | notInitialized
  /-- "RankMonitorClient could not send section update. Exception: …" -/
  | couldNotSendSectionUpdate (cause : SendFailure)
  deriving DecidableEq, Repr

structure RankMonitorClient where
  isInitialized : Bool
  timeoutsCalc : TimeoutsCalc

/-- `_should_monitor_section` -/
def shouldMonitorSection (cfg : SectionConfig) (sectionName : SectionName) : Bool :=
  sectionName ∈ cfg.sectionNames.map some

/-! ## The link -/

/-- A client, its server, and the messages in flight. -/
structure SectionLink where
  client : RankMonitorClient
  server : RankMonitorServer
  channel : List SectionMsg
  /-- The message whose reply the client's current call is waiting for. -/
  awaiting : Option SectionMsg
  connected : Bool
  lastCall : Option SectionCall
  lastError : Option RankMonitorClientError

namespace SectionLink

/-- The end of `_send_section_msg_impl`: the calculator takes the event. -/
def finishCall (link : SectionLink) (msg : SectionMsg) (now : Int) : SectionLink :=
  match link.client.timeoutsCalc.updateOnSectionEvent msg.sectionName msg.action now with
  | .ok timeouts =>
    { link with client := { link.client with timeoutsCalc := timeouts }, awaiting := none }
  | .error error =>
    { link with
      awaiting := none
      lastError := some (.couldNotSendSectionUpdate (.timeouts error)) }

/-- `_send_section_msg_impl`, up to the wait for a reply. -/
def sendSectionMsg (cfg : SectionConfig) (link : SectionLink) (call : SectionCall)
    (iteration : Option Int) (now : Int) : SectionLink :=
  let link := { link with lastCall := some call, lastError := none }
  if link.client.isInitialized = false then
    { link with lastError := some .notInitialized }
  else if shouldMonitorSection cfg call.sectionName = false then link
  else if link.connected = false then
    { link with lastError := some (.couldNotSendSectionUpdate .brokenPipe) }
  else
    let msg : SectionMsg := ⟨call.sectionName, call.action, iteration⟩
    let link := { link with channel := link.channel ++ [msg] }
    if cfg.skipSectionResponse then link.finishCall msg now
    else { link with awaiting := some msg }

/-- The server reads the next message.  A raising handler drops the connection,
which fails a waiting call; otherwise the reply, if any, ends the call. -/
def process (cfg : SectionConfig) (link : SectionLink) (serverTime clientTime : Int) :
    Option SectionLink :=
  match link.channel with
  | [] => none
  | msg :: rest =>
    match link.server.handleSectionMsg cfg msg serverTime with
    | .error _ =>
      some { link with
        server := link.server.handleIpcConnectionLost
        channel := []
        connected := false
        awaiting := none
        lastError :=
          if link.awaiting = none then link.lastError
          else some (.couldNotSendSectionUpdate .connectionClosed) }
    | .ok (server, reply) =>
      let link := { link with server := server, channel := rest }
      match link.awaiting, reply with
      | some sent, some .ok => some (link.finishCall sent clientTime)
      | some _, some (.error cause) =>
        some { link with
          awaiting := none
          lastError :=
            some (.couldNotSendSectionUpdate (.unexpectedReply (.error cause))) }
      | _, _ => some link

end SectionLink

/-- What happens next: a call of the client at its current iteration and time,
or a read of the server. -/
inductive LinkAction where
  | call (call : SectionCall) (iteration : Option Int) (now : Int)
  | process (serverTime clientTime : Int)

/-- The link of a client that has just been initialized: the server's state
machine may be anywhere in its life. -/
def sectionLink (cfg : SectionConfig) : System SectionLink LinkAction where
  init link :=
    link.client.isInitialized = true ∧
    link.client.timeoutsCalc.openSections.keys = [] ∧
    link.client.timeoutsCalc.sectionToMaxTime.keys = cfg.sectionNames.map some ∧
    link.server.openSections.keys = [] ∧
    link.server.outOfSectionTime.isSome = true ∧
    link.channel = [] ∧ link.awaiting = none ∧ link.connected = true ∧ link.lastCall = none
  step link action :=
    match action with
    | .call call iteration now =>
      if link.awaiting = none then some (link.sendSectionMsg cfg call iteration now)
      else none
    | .process serverTime clientTime => link.process cfg serverTime clientTime

/-- `end_all_sections` is called only when the client has no section open, and
the server reads messages only while its state machine accepts them. -/
def NothingToEndAll (link : SectionLink) : LinkAction → Prop
  | .call call _ _ => call = .endAllSections → link.client.timeoutsCalc.openSections.keys = []
  | .process _ _ => link.server.stateMachine.isTerminal = false

instance (link : SectionLink) (action : LinkAction) : Decidable (NothingToEndAll link action) :=
  match action with
  | .call call _ _ =>
    inferInstanceAs (Decidable (call = .endAllSections →
      link.client.timeoutsCalc.openSections.keys = []))
  | .process _ _ => inferInstanceAs (Decidable (link.server.stateMachine.isTerminal = false))

/-- Once the sent messages are processed, both sides have the same sections
open, none after `end_all_sections`, and the server's out-of-section clock runs
exactly while none is open. -/
def SectionsAgree (link : SectionLink) : Prop :=
  link.channel = [] →
    (∀ name, name ∈ link.server.openSections.keys ↔
      name ∈ link.client.timeoutsCalc.openSections.keys) ∧
    (link.lastCall = some .endAllSections →
      link.server.openSections.keys = [] ∧ link.client.timeoutsCalc.openSections.keys = []) ∧
    (link.server.outOfSectionTime.isSome ↔ link.server.openSections.keys = [])

/-! ## The invariant -/

/-- The client is ahead of the server by the messages in flight; a waiting call
has not touched the calculator yet. -/
structure LinkInvariant (cfg : SectionConfig) (link : SectionLink) : Prop where
  ready : link.client.isInitialized = true ∧ link.connected = true
  known : link.client.timeoutsCalc.sectionToMaxTime.keys = cfg.sectionNames.map some
  sent : ∀ msg, link.awaiting = some msg → link.channel = [msg] ∧
    msg.sectionName ∈ cfg.sectionNames.map some ∧ msg.action ≠ .closeAll ∧
    cfg.skipSectionResponse = false ∧
    link.client.timeoutsCalc.openSections.keys = link.server.openSections.keys
  ahead : link.awaiting = none →
    link.client.timeoutsCalc.openSections.keys =
      link.channel.foldl openAfter link.server.openSections.keys
  idle : cfg.skipSectionResponse = false → link.awaiting = none → link.channel = []
  clock : link.server.ClockMatches
  ended : link.lastCall = some .endAllSections →
    link.awaiting = none ∧ link.client.timeoutsCalc.openSections.keys = []

variable {cfg : SectionConfig} {link : SectionLink}

theorem linkInvariant_init (h : (sectionLink cfg).init link) : LinkInvariant cfg link := by
  obtain ⟨hready, hclient, hknown, hserver, hclock, hchannel, hawaiting, hconnected, hlast⟩ := h
  refine ⟨⟨hready, hconnected⟩, hknown, ?_, ?_, fun _ _ => hchannel, ?_, ?_⟩
  · intro msg hmsg
    simp [hawaiting] at hmsg
  · intro _
    rw [hclient, hchannel, hserver]
    rfl
  · simp [RankMonitorServer.ClockMatches, hclock, hserver]
  · intro hcall
    simp [hlast] at hcall

/-- The end of a call for a known section follows the meaning of its message
and touches nothing but the client. -/
theorem finishCall_spec (link : SectionLink) (msg : SectionMsg) (now : Int)
    (hknown : msg.sectionName ∈ link.client.timeoutsCalc.sectionToMaxTime.keys)
    (haction : msg.action ≠ .closeAll) :
    let next := link.finishCall msg now
    next.client.timeoutsCalc.openSections.keys =
        openAfter link.client.timeoutsCalc.openSections.keys msg ∧
      next.client.timeoutsCalc.sectionToMaxTime.keys =
        link.client.timeoutsCalc.sectionToMaxTime.keys ∧
      next.awaiting = none ∧ next.server = link.server ∧ next.channel = link.channel ∧
      next.client.isInitialized = link.client.isInitialized ∧
      next.connected = link.connected ∧ next.lastCall = link.lastCall := by
  rcases TimeoutsCalc.keys_updateOnSectionEvent now hknown haction with
    ⟨timeouts, hupdate, hkeys, hmax⟩ | ⟨error, hupdate, hkeys⟩
  · simp [SectionLink.finishCall, hupdate, hkeys, hmax]
  · simp [SectionLink.finishCall, hupdate, hkeys]

/-- A call that sends nothing keeps the invariant; `end_all_sections` is one of
them, and is where the condition enters. -/
theorem LinkInvariant.unsent (hinv : LinkInvariant cfg link) (call : SectionCall)
    (error : Option RankMonitorClientError) (hawaiting : link.awaiting = none)
    (hended : call = .endAllSections → link.client.timeoutsCalc.openSections.keys = []) :
    LinkInvariant cfg { link with lastCall := some call, lastError := error } := by
  refine ⟨hinv.ready, hinv.known, hinv.sent, hinv.ahead, hinv.idle, hinv.clock, ?_⟩
  intro hcall
  exact ⟨hawaiting, hended (some.inj hcall)⟩

theorem LinkInvariant.call_step (hinv : LinkInvariant cfg link) (call : SectionCall)
    (iteration : Option Int) (now : Int) (hawaiting : link.awaiting = none)
    (hended : call = .endAllSections → link.client.timeoutsCalc.openSections.keys = []) :
    LinkInvariant cfg (link.sendSectionMsg cfg call iteration now) := by
  have hready : ¬ link.client.isInitialized = false := by simp [hinv.ready.1]
  have hconnected : ¬ link.connected = false := by simp [hinv.ready.2]
  unfold SectionLink.sendSectionMsg
  simp only [if_neg hready, if_neg hconnected]
  cases hmonitor : shouldMonitorSection cfg call.sectionName with
  | false =>
    simp only [if_true]
    exact hinv.unsent call none hawaiting hended
  | true =>
    simp only [Bool.true_eq_false, if_false]
    have hname : call.sectionName ∈ cfg.sectionNames.map some := by
      simpa [shouldMonitorSection] using hmonitor
    have hnotAll : call ≠ .endAllSections := by
      rintro rfl
      simp [SectionCall.sectionName] at hname
    have haction : call.action ≠ .closeAll := by
      cases call <;> simp_all [SectionCall.action]
    have hahead := hinv.ahead hawaiting
    cases hskip : cfg.skipSectionResponse with
    | true =>
      simp only [if_true]
      obtain ⟨hkeys, hmax, hnone, hserver, hchannel, hready, hconnected, hlast⟩ :=
        finishCall_spec
          { link with
            lastCall := some call
            lastError := none
            channel := link.channel ++ [⟨call.sectionName, call.action, iteration⟩] }
          ⟨call.sectionName, call.action, iteration⟩ now (hinv.known ▸ hname) haction
      refine ⟨⟨hready.trans hinv.ready.1, hconnected.trans hinv.ready.2⟩,
        hmax.trans hinv.known, ?_, ?_, ?_, ?_, ?_⟩
      · intro msg hmsg
        simp [hnone] at hmsg
      · intro _
        rw [hkeys, hserver, hchannel, List.foldl_append, ← hahead]
        rfl
      · intro hfalse
        simp [hskip] at hfalse
      · rw [hserver]
        exact hinv.clock
      · intro hcall
        exact absurd (some.inj (hlast.symm.trans hcall)) hnotAll
    | false =>
      have hempty : link.channel = [] := hinv.idle hskip hawaiting
      simp only [Bool.false_eq_true, if_false]
      refine ⟨hinv.ready, hinv.known, ?_, ?_, ?_, hinv.clock, ?_⟩
      · rintro msg ⟨⟩
        exact ⟨by simp [hempty], hname, haction, hskip, by rw [hahead, hempty]; rfl⟩
      · intro hfalse
        simp at hfalse
      · intro _ hfalse
        simp at hfalse
      · intro hcall
        exact absurd (some.inj hcall) hnotAll

theorem LinkInvariant.process_step {next : SectionLink} {serverTime clientTime : Int}
    (hinv : LinkInvariant cfg link) (haccepts : link.server.stateMachine.isTerminal = false)
    (hstep : link.process cfg serverTime clientTime = some next) : LinkInvariant cfg next := by
  unfold SectionLink.process at hstep
  cases hchannel : link.channel with
  | nil => simp [hchannel] at hstep
  | cons msg rest =>
    obtain ⟨server, reply, hhandled⟩ :=
      RankMonitorServer.handleSectionMsg_of_not_terminal cfg msg serverTime haccepts
    obtain ⟨hkeys, hclock, hreply, herror⟩ := RankMonitorServer.handleSectionMsg_ok hhandled
    simp only [hchannel, hhandled] at hstep
    cases hawaiting : link.awaiting with
    | none =>
      simp only [hawaiting, some.injEq] at hstep
      subst hstep
      refine ⟨hinv.ready, hinv.known, ?_, ?_, ?_, hclock hinv.clock,
        fun hended => ⟨rfl, (hinv.ended hended).2⟩⟩
      · intro sent hsent
        simp at hsent
      · intro _
        simp only [hinv.ahead hawaiting, hchannel, hkeys, List.foldl_cons]
      · intro hskip _
        have hempty := hinv.idle hskip hawaiting
        simp [hchannel] at hempty
    | some sent =>
      obtain ⟨hsingle, hname, haction, hskip, hsame⟩ := hinv.sent sent hawaiting
      obtain ⟨rfl, rfl⟩ : msg = sent ∧ rest = [] := by simpa [hchannel] using hsingle
      have hlast : link.lastCall ≠ some .endAllSections := by
        intro hcall
        simpa [hawaiting] using (hinv.ended hcall).1
      simp only [hawaiting] at hstep
      cases reply with
      | none => simp [hskip] at hreply
      | some answer =>
        cases answer with
        | ok =>
          simp only [some.injEq] at hstep
          subst hstep
          obtain ⟨hopen, hmax, hnone, hserver, hrest, hready, hconnected, hcall⟩ :=
            finishCall_spec
              { link with server := server, channel := [], awaiting := some msg }
              msg clientTime (hinv.known ▸ hname) haction
          refine ⟨⟨hready.trans hinv.ready.1, hconnected.trans hinv.ready.2⟩,
            hmax.trans hinv.known, ?_, ?_, fun _ _ => hrest, ?_, ?_⟩
          · intro other hother
            simp [hnone] at hother
          · intro _
            simp only [hopen, hrest, hserver, hkeys, hsame, List.foldl_nil]
          · rw [hserver]
            exact hclock hinv.clock
          · intro hended
            exact absurd (hcall.symm.trans hended) hlast
        | error cause =>
          simp only [some.injEq] at hstep
          subst hstep
          refine ⟨hinv.ready, hinv.known, ?_, ?_, fun _ _ => rfl,
            hclock hinv.clock, fun hended => absurd hended hlast⟩
          · intro other hother
            simp at hother
          · intro _
            simp only [List.foldl_nil, hkeys, herror cause rfl, hsame]

theorem linkInvariant_step {next : SectionLink} {action : LinkAction}
    (hinv : LinkInvariant cfg link) (hcond : NothingToEndAll link action)
    (hstep : (sectionLink cfg).step link action = some next) : LinkInvariant cfg next := by
  cases action with
  | call call iteration now =>
    simp only [sectionLink] at hstep
    split at hstep
    · rename_i hawaiting
      simp only [some.injEq] at hstep
      subst hstep
      exact hinv.call_step call iteration now hawaiting hcond
    · simp at hstep
  | process serverTime clientTime => exact hinv.process_step hcond hstep

/-! ## Agreement -/

/-- In every run in which `end_all_sections` has nothing to end and the server
takes messages, the two sides agree whenever the messages are processed. -/
theorem sections_agree {cfg : SectionConfig} {link : SectionLink}
    (hlink : (sectionLink cfg).Reachable NothingToEndAll link) : SectionsAgree link := by
  have hinv : LinkInvariant cfg link :=
    hlink.invariant (fun _ => linkInvariant_init) (fun _ _ _ => linkInvariant_step)
  intro hchannel
  have hawaiting : link.awaiting = none := by
    cases hcase : link.awaiting with
    | none => rfl
    | some msg => simpa [hchannel] using (hinv.sent msg hcase).1
  have hkeys : link.client.timeoutsCalc.openSections.keys = link.server.openSections.keys := by
    rw [hinv.ahead hawaiting, hchannel]
    rfl
  refine ⟨fun name => by rw [hkeys], fun hended => ?_, hinv.clock⟩
  have hclosed := (hinv.ended hended).2
  exact ⟨hkeys ▸ hclosed, hclosed⟩

/-! ## A rank with one monitored section -/

/-- The step section is monitored and replies are skipped, as by default. -/
def stepConfig : SectionConfig where
  sectionNames := ["step"]
  nodup := by decide
  skipSectionResponse := true

/-- Client and server right after the handshake. -/
def stepLink : SectionLink where
  client :=
    { isInitialized := true
      timeoutsCalc :=
        { openSections := .empty
          lastSectionCloseTime := 0
          outOfSectionMaxTime := -1
          sectionToMaxTime := .const [some "step"] (by decide) (-1) } }
  server :=
    { stateMachine := .uninitialized
      openSections := .empty
      outOfSectionTime := some 0
      initialIteration := none
      currentIteration := none
      stepSectionSeenThisCycle := false }
  channel := []
  awaiting := none
  connected := true
  lastCall := none
  lastError := none

theorem stepLink_init : (sectionLink stepConfig).init stepLink :=
  ⟨rfl, rfl, rfl, rfl, rfl, rfl, rfl, rfl, rfl⟩

theorem sections_agree_step :
    ∃ link : SectionLink, (link.channel = [] ∧ link.lastCall = some .endAllSections) ∧
      SectionsAgree link := by
  have hrun : ((sectionLink stepConfig).execute NothingToEndAll stepLink
      [.call (.startSection "step") none 1, .call (.endSection "step") none 2,
        .process 2 2, .process 3 3, .call .endAllSections none 4]).any (fun link =>
        link.channel = [] ∧ link.lastCall = some .endAllSections) = true := by
    decide
  obtain ⟨link, hlink, hdone⟩ := System.exists_reachable_of_execute stepLink_init hrun
  exact ⟨link, by simpa using hdone, sections_agree hlink⟩

/-- `end_all_sections` inside an open section leaves it open on both sides. -/
theorem end_all_sections_leaves_section_open :
    ∃ link, (sectionLink stepConfig).Reachable (fun _ _ => True) link ∧
      link.server.stateMachine.isTerminal = false ∧ link.channel = [] ∧
      link.lastCall = some .endAllSections ∧
      link.server.openSections.keys = [some "step"] ∧
      link.client.timeoutsCalc.openSections.keys = [some "step"] ∧
      ¬ SectionsAgree link := by
  have hrun : ((sectionLink stepConfig).execute (fun _ _ => True) stepLink
      [.call (.startSection "step") none 1, .process 1 1,
        .call .endAllSections none 2]).any (fun link =>
        link.server.stateMachine.isTerminal = false ∧ link.channel = [] ∧
          link.lastCall = some .endAllSections ∧
          link.server.openSections.keys = [some "step"] ∧
          link.client.timeoutsCalc.openSections.keys = [some "step"]) = true := by
    decide
  obtain ⟨link, hlink, hdone⟩ := System.exists_reachable_of_execute stepLink_init hrun
  simp only [decide_eq_true_eq] at hdone
  obtain ⟨hstate, hchannel, hcall, hserver, hclient⟩ := hdone
  refine ⟨link, hlink, hstate, hchannel, hcall, hserver, hclient, fun hagree => ?_⟩
  have hempty := ((hagree hchannel).2.1 hcall).1
  simp [hserver] at hempty

end ResiliencyExt.FaultTolerance.RankMonitor
