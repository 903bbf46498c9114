import ResiliencyExt.Foundation.Agents
import ResiliencyExt.Foundation.AsyncLock
import ResiliencyExt.FaultTolerance.RankMonitor.Sections

set_option autoImplicit false

/-!
# Rank monitor: who owns the monitored state

Every connection to the server runs `_handle_ipc_connection`.  A handler takes
`connection_lock`, applies the messages of its connection until the connection
is lost, and ends in a `finally` block that clears the state and releases the
lock.  A handler that gives up waiting for the lock runs the same block.

A handler is an agent.  It is interrupted only where it awaits: at the lock and
between two messages.  What a message changes is changed before its reply is
sent, so that a reply that cannot be sent is a loss like any other.  The launcher
closes the transport of `current_writer`, which its handler sees as a loss too.
-/

namespace ResiliencyExt.FaultTolerance.RankMonitor

open Foundation Function
open Agents (Configuration condition)

/-! ## What messages and losses do to the state -/

structure RankInfo where
  globalRank : Nat
  localRank : Nat
  host : String
  pid : Nat
  deriving DecidableEq, Repr

/-- The messages a handler tells apart; what they change of the configuration is
no part of the monitored state. -/
inductive WorkerMsg where
  | authkey
  | init (rankInfo : RankInfo)
  /-- A heartbeat may carry a state, which is not supported. -/
  | heartbeat (hasState : Bool)
  | updateConfig
  | sectionMsg (msg : SectionMsg)
  | unknown
  deriving DecidableEq, Repr

/-- What the server knows of the rank it is connected to. -/
structure MonitoredRank where
  rankInfo : Option RankInfo
  startTime : Option Int
  lastHbTime : Option Int
  sections : RankMonitorServer

namespace MonitoredRank

/-- `_handle_init_msg`, which reads the clock twice. -/
def handleInitMsg (rank : MonitoredRank) (rankInfo : RankInfo) (now later : Int) :
    MonitoredRank where
  rankInfo := some rankInfo
  startTime := some now
  lastHbTime := none
  sections := { rank.sections with outOfSectionTime := some later, openSections := .empty }

/-- `_handle_heartbeat_msg`, and whether it returns. -/
def handleHeartbeatMsg (rank : MonitoredRank) (hasState : Bool) (now : Int) :
    MonitoredRank × Bool :=
  match rank.sections.stateMachine.handleMsg with
  | .error _ => (rank, false)
  | .ok stateMachine =>
    ({ rank with
        lastHbTime := some now
        sections := { rank.sections with stateMachine := stateMachine } }, !hasState)

/-- The branches of the message loop, and whether the branch returns. -/
def handleMsg (cfg : SectionConfig) (rank : MonitoredRank) (now later : Int) :
    WorkerMsg → MonitoredRank × Bool
  | .authkey | .updateConfig => (rank, true)
  | .init rankInfo => (rank.handleInitMsg rankInfo now later, true)
  | .heartbeat hasState => rank.handleHeartbeatMsg hasState now
  | .sectionMsg msg =>
    match rank.sections.handleSectionMsg cfg msg now with
    | .error _ => (rank, false)
    | .ok (sections, _) => ({ rank with sections := sections }, true)
  | .unknown => (rank, false)

/-- `_handle_ipc_connection_lost`, up to the release of the lock. -/
def handleIpcConnectionLost (rank : MonitoredRank) : MonitoredRank where
  rankInfo := none
  startTime := none
  lastHbTime := none
  sections := rank.sections.handleIpcConnectionLost

/-- `rank_info`, `start_time`, `last_hb_time`, `open_sections` and
`out_of_section_time` -/
def monitored (rank : MonitoredRank) :
    Option RankInfo × Option Int × Option Int × Dict SectionName Int × Option Int :=
  (rank.rankInfo, rank.startTime, rank.lastHbTime, rank.sections.openSections,
    rank.sections.outOfSectionTime)

end MonitoredRank

/-! ## The handlers -/

structure ConnectionServer where
  rank : MonitoredRank
  connectionLock : AsyncLock Nat
  currentWriter : Option Nat
  isClosing : Bool

inductive ConnectionPhase where
  | idle
  /-- In the queue of the lock. -/
  | waiting
  /-- The lock is taken, and the handler has not gone on yet. -/
  | acquired
  /-- In the message loop. -/
  | reading
  | closed
  deriving DecidableEq, Repr

inductive ConnectionEvent where
  | connect
  /-- The waiting handler is given the lock. -/
  | wake
  /-- Its acquire times out, or the handler is cancelled while it waits. -/
  | giveUp
  | enter
  | receive (msg : WorkerMsg) (now later : Int)
  /-- The stream ends or fails, or the handler is cancelled. -/
  | disconnect
  /-- A termination signal, at a time when any of the handlers may be interrupted. -/
  | signal
  deriving DecidableEq, Repr

namespace ConnectionServer

/-- The `finally` block. -/
def finish (server : ConnectionServer) : ConnectionServer :=
  { server with
    rank := server.rank.handleIpcConnectionLost
    currentWriter := none
    connectionLock :=
      if server.connectionLock.locked then server.connectionLock.release
      else server.connectionLock }

/-- `_handle_signal` -/
def handleSignal (server : ConnectionServer) : ConnectionServer :=
  { server with
    isClosing := true
    rank := { server.rank with sections := { server.rank.sections with
      stateMachine := match server.rank.sections.stateMachine.handleSignal with
        | .ok stateMachine => stateMachine
        | .error _ => server.rank.sections.stateMachine } } }

/-- One step of the handler of connection `p`. -/
def connectionStep (cfg : SectionConfig) (p : Nat) (server : ConnectionServer) :
    ConnectionPhase → ConnectionEvent → Option (ConnectionServer × ConnectionPhase)
  | .idle, .connect =>
    if server.isClosing then some (server, .closed)
    else
      match server.connectionLock.acquire p with
      | (lock, true) => some ({ server with connectionLock := lock }, .acquired)
      | (lock, false) => some ({ server with connectionLock := lock }, .waiting)
  | .waiting, .wake =>
    (server.connectionLock.resume p).map fun lock =>
      ({ server with connectionLock := lock }, .acquired)
  | .waiting, .giveUp =>
    some ({ server with connectionLock := server.connectionLock.cancel p }.finish, .closed)
  | .acquired, .enter => some ({ server with currentWriter := some p }, .reading)
  | .reading, .receive msg now later =>
    match server.rank.handleMsg cfg now later msg with
    | (rank, true) => some ({ server with rank := rank }, .reading)
    | (rank, false) => some ({ server with rank := rank }.finish, .closed)
  | .reading, .disconnect => some (server.finish, .closed)
  | phase, .signal => some (server.handleSignal, phase)
  | _, _ => none

/-- The server before its first connection. -/
def fresh : ConnectionServer where
  rank := ⟨none, none, none, ⟨.uninitialized, .empty, none, none, none, false⟩⟩
  connectionLock := .unlocked
  currentWriter := none
  isClosing := false

/-- Any number of connections to one server. -/
def agents (cfg : SectionConfig) : Agents ConnectionServer ConnectionPhase ConnectionEvent where
  shared := fresh
  start _ := .idle
  step := connectionStep cfg

end ConnectionServer

/-- The handler has taken the lock and not yet run its `finally` block. -/
def ConnectionPhase.Holds : ConnectionPhase → Prop
  | .acquired | .reading => True
  | _ => False

/-- No handler gives up waiting while the lock is taken. -/
def KeepsWaiting (_ : Nat) (server : ConnectionServer) (_ : ConnectionPhase)
    (event : ConnectionEvent) : Prop :=
  event = .giveUp → server.connectionLock.locked = false

instance (p : Nat) (server : ConnectionServer) (phase : ConnectionPhase)
    (event : ConnectionEvent) : Decidable (KeepsWaiting p server phase event) :=
  inferInstanceAs (Decidable (_ → _))

/-- What a step may do to the state of others: while a connection holds the lock, the
monitored fields change by its messages or its own loss, and the lock is released by the
handler that holds it. -/
structure RespectsOwner (c : Configuration ConnectionServer ConnectionPhase)
    (a : Nat × ConnectionEvent) (d : Configuration ConnectionServer ConnectionPhase) :
    Prop where
  fields : ∀ h, (c.agent h).Holds → d.shared.rank.monitored ≠ c.shared.rank.monitored →
    a.1 = h ∧ ((∃ msg now later, a.2 = .receive msg now later) ∨ a.2 = .disconnect)
  released : c.shared.connectionLock.locked = true → d.shared.connectionLock.locked = false →
    (c.agent a.1).Holds

namespace ConnectionServer

variable {cfg : SectionConfig} {p : Nat} {server server' : ConnectionServer}
  {phase phase' : ConnectionPhase} {event : ConnectionEvent}

/-! ## What a step can do -/

/-- The four things a step does with the lock. -/
inductive ConnectionMove (server : ConnectionServer) (phase : ConnectionPhase)
    (event : ConnectionEvent) (server' : ConnectionServer) (phase' : ConnectionPhase) : Prop
  /-- The lock stays with whom it is; only a message changes the monitored fields. -/
  | keep (hlocked : server'.connectionLock.locked = server.connectionLock.locked)
      (hholds : phase'.Holds ↔ phase.Holds)
      (hfields : server'.rank.monitored = server.rank.monitored ∨
        (phase.Holds ∧ ∃ msg now later, event = .receive msg now later))
      (hevent : event ≠ .giveUp)
  /-- A free lock is taken. -/
  | take (hfree : server.connectionLock.locked = false)
      (hlocked : server'.connectionLock.locked = true)
      (hholds : phase'.Holds) (hrank : server'.rank = server.rank)
  /-- The connection of the handler is lost. -/
  | lose (hholds : phase.Holds) (hclosed : ¬ phase'.Holds)
      (hfree : server'.connectionLock.locked = false)
      (hevent : (∃ msg now later, event = .receive msg now later) ∨ event = .disconnect)
  /-- The handler gives up waiting, and frees the lock whoever holds it. -/
  | giveUp (hevent : event = .giveUp) (hwaiting : ¬ phase.Holds) (hclosed : ¬ phase'.Holds)
      (hfree : server'.connectionLock.locked = false)

variable {c : Configuration ConnectionServer ConnectionPhase}

theorem locked_finish (server : ConnectionServer) :
    server.finish.connectionLock.locked = false := by
  unfold finish
  dsimp only
  split
  · rfl
  · rename_i hfree
    exact Bool.eq_false_iff.mpr hfree

theorem sound_finish (h : server.connectionLock.Sound) : server.finish.connectionLock.Sound := by
  unfold finish
  dsimp only
  split
  · exact AsyncLock.sound_release _
  · exact h

theorem connectionStep_move (hsound : server.connectionLock.Sound)
    (h : connectionStep cfg p server phase event = some (server', phase')) :
    ConnectionMove server phase event server' phase' ∧ server'.connectionLock.Sound := by
  unfold connectionStep at h
  split at h
  · -- connect
    split at h
    · cases h
      exact ⟨.keep rfl Iff.rfl (Or.inl rfl) (by simp), hsound⟩
    · have hacquired := hsound.acquire p
      split at h
      · rename_i lock heq
        obtain ⟨hfree, hlocked⟩ := AsyncLock.acquire_done heq
        rw [heq] at hacquired
        cases h
        exact ⟨.take hfree hlocked trivial rfl, hacquired⟩
      · rename_i lock heq
        have hlocked := AsyncLock.acquire_waiting heq
        rw [heq] at hacquired
        cases h
        exact ⟨.keep hlocked Iff.rfl (Or.inl rfl) (by simp), hacquired⟩
  · -- wake
    obtain ⟨lock, hresume, heq⟩ := Option.map_eq_some_iff.mp h
    obtain ⟨hfree, hlocked, hsound'⟩ := hsound.resume hresume
    cases heq
    exact ⟨.take hfree hlocked trivial rfl, hsound'⟩
  · -- giveUp
    cases h
    exact ⟨.giveUp rfl id id (locked_finish _), sound_finish (hsound.cancel p)⟩
  · -- enter
    cases h
    exact ⟨.keep rfl Iff.rfl (Or.inl rfl) (by simp), hsound⟩
  · -- receive
    split at h
    · cases h
      exact ⟨.keep rfl Iff.rfl (Or.inr ⟨trivial, _, _, _, rfl⟩) (by simp), hsound⟩
    · cases h
      exact ⟨.lose trivial id (locked_finish _) (Or.inl ⟨_, _, _, rfl⟩), sound_finish hsound⟩
  · -- disconnect
    cases h
    exact ⟨.lose trivial id (locked_finish _) (Or.inr rfl), sound_finish hsound⟩
  · -- signal
    cases h
    exact ⟨.keep rfl Iff.rfl (Or.inl rfl) (by simp), hsound⟩
  · cases h

/-! ## One owner at a time -/

/-- The lock is taken exactly by `holder`. -/
structure OwnedBy (holder : Option Nat) (server : ConnectionServer)
    (phase : Nat → ConnectionPhase) : Prop where
  holds_iff : ∀ q, (phase q).Holds ↔ holder = some q
  locked : server.connectionLock.locked = holder.isSome
  sound : server.connectionLock.Sound

theorem OwnedBy.move {holder : Option Nat} {phase : Nat → ConnectionPhase}
    (howned : OwnedBy holder server phase)
    (hmove : ConnectionMove server (phase p) event server' phase')
    (hsound : server'.connectionLock.Sound)
    (hkeeps : event = .giveUp → server.connectionLock.locked = false) :
    ∃ holder', OwnedBy holder' server' (update phase p phase') := by
  have hother : ∀ q, q ≠ p → ((update phase p phase' q).Holds ↔ (phase q).Holds) :=
    fun q hne => by rw [update_of_ne hne]
  -- a free lock has no holder
  have hnone : server.connectionLock.locked = false → holder = none := fun hfree =>
    Option.not_isSome_iff_eq_none.mp (by rw [← howned.locked, hfree]; nofun)
  cases hmove with
  | keep hlocked hholds _ _ =>
    refine ⟨holder, fun q => ?_, hlocked.trans howned.locked, hsound⟩
    rcases eq_or_ne q p with rfl | hne
    · rw [update_self, hholds]
      exact howned.holds_iff q
    · exact (hother q hne).trans (howned.holds_iff q)
  | take hfree hlocked hholds _ =>
    refine ⟨some p, fun q => ?_, hlocked, hsound⟩
    rcases eq_or_ne q p with rfl | hne
    · rw [update_self]
      exact iff_of_true hholds rfl
    · rw [hother q hne, howned.holds_iff q, hnone hfree]
      exact iff_of_false nofun fun heq => hne (Option.some.inj heq).symm
  | lose hholds hclosed hfree _ =>
    have hholder := (howned.holds_iff p).mp hholds
    refine ⟨none, fun q => ?_, hfree, hsound⟩
    rcases eq_or_ne q p with rfl | hne
    · rw [update_self]
      exact iff_of_false hclosed nofun
    · rw [hother q hne, howned.holds_iff q, hholder]
      exact iff_of_false (fun heq => hne (Option.some.inj heq).symm) nofun
  | giveUp hevent hwaiting hclosed hfree =>
    refine ⟨none, fun q => ?_, hfree, hsound⟩
    rcases eq_or_ne q p with rfl | hne
    · rw [update_self]
      exact iff_of_false hclosed nofun
    · rw [hother q hne, howned.holds_iff q, hnone (hkeeps hevent)]

theorem reachable_owned (hc : (agents cfg).system.Reachable (condition KeepsWaiting) c) :
    ∃ holder, OwnedBy holder c.shared c.agent := by
  refine hc.invariant (P := fun c => ∃ holder, OwnedBy holder c.shared c.agent) ?_ ?_
  · rintro _ rfl
    exact ⟨none, fun _ => iff_of_false id nofun, rfl, AsyncLock.sound_unlocked⟩
  · intro c a d ⟨holder, howned⟩ hkeeps hstep
    obtain ⟨server, phase, hlocal, rfl⟩ := Agents.system_step_eq_some.mp hstep
    obtain ⟨hmove, hsound⟩ := connectionStep_move howned.sound hlocal
    exact howned.move hmove hsound hkeeps

/-- The step of a handler that does not give up on a lock that is taken respects the
owner. -/
theorem OwnedBy.respectsOwner {holder : Option Nat} {a : Nat × ConnectionEvent}
    (howned : OwnedBy holder c.shared c.agent)
    (hmove : ConnectionMove c.shared (c.agent a.1) a.2 server' phase')
    (hkeeps : a.2 = .giveUp → c.shared.connectionLock.locked = false) :
    RespectsOwner c a ⟨server', update c.agent a.1 phase'⟩ := by
  have huniq : (c.agent a.1).Holds → ∀ h, (c.agent h).Holds → a.1 = h := fun ha h hh =>
    Option.some.inj (((howned.holds_iff a.1).mp ha).symm.trans ((howned.holds_iff h).mp hh))
  have hlocked : ∀ h, (c.agent h).Holds → c.shared.connectionLock.locked = true := fun h hh => by
    rw [howned.locked, (howned.holds_iff h).mp hh]
    rfl
  cases hmove with
  | keep hsame _ hfields _ =>
    refine ⟨fun h hh hchanged => ?_, fun htaken hfree => ?_⟩
    · rcases hfields with hfields | ⟨ha, hreceive⟩
      · exact absurd hfields hchanged
      · exact ⟨huniq ha h hh, Or.inl hreceive⟩
    · rw [hsame, htaken] at hfree
      cases hfree
  | take hfree _ _ hrank =>
    refine ⟨fun h hh hchanged => ?_, fun htaken _ => ?_⟩
    · exact absurd (congrArg MonitoredRank.monitored hrank) hchanged
    · rw [hfree] at htaken
      cases htaken
  | lose ha _ _ hevent => exact ⟨fun h hh _ => ⟨huniq ha h hh, hevent⟩, fun _ _ => ha⟩
  | giveUp hevent _ _ _ =>
    have hfree := hkeeps hevent
    refine ⟨fun h hh _ => ?_, fun htaken _ => ?_⟩
    · rw [hlocked h hh] at hfree
      cases hfree
    · rw [hfree] at htaken
      cases htaken

/-- A handler that gives up on a lock that is taken frees it without holding it. -/
theorem not_respectsOwner_of_giveUp {d : Configuration ConnectionServer ConnectionPhase}
    {a : Nat × ConnectionEvent} (hsound : c.shared.connectionLock.Sound)
    (hstep : (agents cfg).system.step c a = some d) (hevent : a.2 = .giveUp)
    (hlocked : c.shared.connectionLock.locked = true) : ¬ RespectsOwner c a d := by
  obtain ⟨server, phase, hlocal, rfl⟩ := Agents.system_step_eq_some.mp hstep
  obtain ⟨hmove, _⟩ := connectionStep_move hsound hlocal
  intro hrespects
  cases hmove with
  | keep _ _ _ hother => exact hother hevent
  | take hfree _ _ _ =>
    rw [hfree] at hlocked
    cases hlocked
  | lose _ _ _ hother =>
    rw [hevent] at hother
    rcases hother with ⟨_, _, _, heq⟩ | heq <;> cases heq
  | giveUp _ hwaiting _ hfree => exact hwaiting (hrespects.released hlocked hfree)

/-- In every run in which no handler gives up waiting while the lock is taken, at most
one connection holds the lock, so that at most one has its messages applied, and a next
step respects the owner exactly when it is no such giving up either. -/
theorem connection_owns_state (cfg : SectionConfig)
    {c : Configuration ConnectionServer ConnectionPhase}
    (hc : (agents cfg).system.Reachable (condition KeepsWaiting) c) :
    (∀ p q, (c.agent p).Holds → (c.agent q).Holds → p = q) ∧
    (c.shared.connectionLock.locked = true ↔ ∃ p, (c.agent p).Holds) ∧
    ∀ a d, (agents cfg).system.step c a = some d →
      (RespectsOwner c a d ↔ condition KeepsWaiting c a) := by
  obtain ⟨holder, howned⟩ := reachable_owned hc
  refine ⟨fun p q hp hq => ?_, ?_, fun a d hstep => ?_⟩
  · have hholder := ((howned.holds_iff p).mp hp).symm.trans ((howned.holds_iff q).mp hq)
    exact Option.some.inj hholder
  · rw [howned.locked, Option.isSome_iff_exists]
    exact exists_congr fun p => (howned.holds_iff p).symm
  · refine ⟨fun hrespects hevent => ?_, fun hkeeps => ?_⟩
    · rw [Bool.eq_false_iff]
      intro hlocked
      exact not_respectsOwner_of_giveUp howned.sound hstep hevent hlocked hrespects
    · obtain ⟨server, phase, hlocal, rfl⟩ := Agents.system_step_eq_some.mp hstep
      exact howned.respectsOwner (connectionStep_move howned.sound hlocal).1 hkeeps

/-! ## A restarted worker -/

/-- No sections are configured. -/
def noSections : SectionConfig where
  sectionNames := []
  nodup := List.nodup_nil
  skipSectionResponse := false

/-- The rank of the worker that stays connected. -/
def oldWorker : RankInfo :=
  ⟨0, 0, "node0", 100⟩

/-- A second connection waits, is given the lock when the first one is lost, and its
messages are applied. -/
theorem connection_owns_state_restart :
    ∃ c : Configuration ConnectionServer ConnectionPhase,
      c.agent 1 = .reading ∧ ∀ p, (c.agent p).Holds → p = 1 := by
  have hrun : ((agents noSections).system.execute (condition KeepsWaiting)
      (agents noSections).initial
      [(0, .connect), (0, .enter), (0, .receive (.init oldWorker) 5 5), (1, .connect),
        (0, .disconnect), (1, .wake), (1, .enter),
        (1, .receive (.heartbeat false) 9 9)]).any
      (fun c => c.agent 1 = .reading) = true := by
    decide +kernel
  obtain ⟨c, hc, htest⟩ := System.exists_reachable_of_execute rfl hrun
  have hreading : c.agent 1 = .reading := of_decide_eq_true htest
  refine ⟨c, hreading, fun p hp => ?_⟩
  refine (connection_owns_state noSections hc).1 p 1 hp ?_
  rw [hreading]
  trivial

/-- Connection 0 is in its message loop when connection 1 gives up waiting: that clears
the state of connection 0 and frees its lock, and connection 2 comes to read beside it. -/
theorem give_up_clears_foreign_state :
    ∃ c d e : Configuration ConnectionServer ConnectionPhase,
      (agents noSections).system.Reachable (fun _ _ => True) c ∧
      (agents noSections).system.step c (1, .giveUp) = some d ∧
      (c.agent 0 = .reading ∧ ¬ RespectsOwner c (1, .giveUp) d) ∧
      (c.shared.rank.rankInfo = some oldWorker ∧ d.shared.rank.rankInfo = none) ∧
      (agents noSections).system.Reachable (fun _ _ => True) e ∧
      e.agent 0 = .reading ∧ e.agent 2 = .reading := by
  have hbefore : ((agents noSections).system.execute (condition KeepsWaiting)
      (agents noSections).initial
      [(0, .connect), (0, .enter), (0, .receive (.init oldWorker) 5 5), (1, .connect)]).any
      (fun c => ((agents noSections).system.step c (1, .giveUp)).any fun d =>
        (c.agent 0 = .reading ∧ c.shared.connectionLock.locked = true) ∧
          c.shared.rank.rankInfo = some oldWorker ∧ d.shared.rank.rankInfo = none) = true := by
    decide +kernel
  have hafter : ((agents noSections).system.execute (fun _ _ => True)
      (agents noSections).initial
      [(0, .connect), (0, .enter), (1, .connect), (1, .giveUp), (2, .connect),
        (2, .enter)]).any (fun e => e.agent 0 = .reading ∧ e.agent 2 = .reading) = true := by
    decide +kernel
  obtain ⟨c, hc, htest⟩ := System.exists_reachable_of_execute rfl hbefore
  obtain ⟨d, hstep, htest⟩ := (Option.any_eq_true _ _).mp htest
  obtain ⟨⟨hreading, hlocked⟩, hrank⟩ := of_decide_eq_true htest
  obtain ⟨e, he, htwo⟩ := System.exists_reachable_of_execute rfl hafter
  obtain ⟨_, howned⟩ := reachable_owned hc
  refine ⟨c, d, e, hc.mono fun _ _ _ => trivial, hstep, ⟨hreading, ?_⟩, hrank, he,
    of_decide_eq_true htwo⟩
  exact not_respectsOwner_of_giveUp howned.sound hstep rfl hlocked

end ConnectionServer

end ResiliencyExt.FaultTolerance.RankMonitor
