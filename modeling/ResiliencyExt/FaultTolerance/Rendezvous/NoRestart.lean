import ResiliencyExt.FaultTolerance.Rendezvous.RankAgreement

set_option autoImplicit false

/-!
# Rendezvous: the no-restart broadcast

A node that decides that the job must not be restarted records the reason under
the shutdown key and opens the next round.  The others meet the reason where they
poll the next round, where they wait for a round to open, or where they wait for it
to close, and all three ways end in `NoRestartRequested` with the recorded reason.

A launcher whose own workers fail does not look at the key.  It goes to its restart
decision, and with an exhausted budget it returns a failed `RunResult`, although its
workers may have failed because of the stop.  Exceptions of its own end a launcher
in other ways too.  In every run without such a step the reason reaches everybody.
-/

namespace ResiliencyExt.FaultTolerance.Rendezvous

open Foundation
open Agents (condition)
open Launcher (goto_phase)

/-- The next operation of a fenced call raises `RuntimeError`. -/
def Conflicts (desired : Bytes) (cell : Option Bytes) : FencedPhase → Prop
  | .get => ∃ b ∈ cell, storeValueRound b = storeValueRound desired ∧ b ≠ desired
  | .compareSet expected =>
    (compareSet .empty cell expected desired).2 ≠ desired ∧
      storeValueRound (compareSet .empty cell expected desired).2 ≤ storeValueRound desired
  | _ => False

instance (desired : Bytes) (cell : Option Bytes) (call : FencedPhase) :
    Decidable (Conflicts desired cell call) := by
  unfold Conflicts
  split <;> infer_instance

def HostDecision.raises : HostDecision → Bool
  | .raised _ => true
  | _ => false

/-- The steps that end a launcher in another way than the recorded reason: a decision
with an exhausted budget, a stop decision of its own with another reason, an unhealthy
node, and the other exceptions. -/
def LeavesOtherwise (cfg : JobConfig) (p : Nat) (x : BarrierStore) (l : Launcher)
    (event : Event) (recorded : ShutdownReason) : Prop :=
  match event, l.phase with
  | .fault, _ => True
  | .decide false, .agent (.decide _) => l.remainingRestarts ≤ 0
  | .next, .agent (.signal reason (.noRestart _)) => reason ≠ recorded
  | .hook .unhealthy, .join .hook => True
  | .next, .join .exclude => True
  | .next, .join (.rank call) => Conflicts (rankPlaceholder l.round) (x.slotRank l.slot) call
  | .next, .join (.slot call) => Conflicts (slotValue cfg p l.round) (x.slot l.slot) call
  | .evaluate expired, .close (.evaluate slots) =>
    (hostDecision cfg l.round l.previousActive (x.unhealthyGroups l.round) slots
      expired).raises = true
  | .workers .unknown, .agent .monitor => True
  | _, _ => False

instance (cfg : JobConfig) (p : Nat) (x : BarrierStore) (l : Launcher) (event : Event)
    (recorded : ShutdownReason) : Decidable (LeavesOtherwise cfg p x l event recorded) := by
  unfold LeavesOtherwise
  match l with
  | ⟨phase, _, _, _, _, _⟩ =>
    dsimp only
    split <;> infer_instance

/-- Once a no-restart reason is recorded, no launcher takes such a step. -/
def HeedsStop (cfg : JobConfig) (p : Nat) (x : BarrierStore) (l : Launcher)
    (event : Event) : Prop :=
  cfg.isControl p = false →
    ∀ recorded ∈ x.noRestartReason, ¬ LeavesOtherwise cfg p x l event recorded

instance (cfg : JobConfig) (p : Nat) (x : BarrierStore) (l : Launcher) (event : Event) :
    Decidable (HeedsStop cfg p x l event) :=
  inferInstanceAs (Decidable (_ → ∀ recorded ∈ x.noRestartReason, _))

/-- The ways out that are left once `recorded` is recorded. -/
def LeftOk (recorded : ShutdownReason) : Phase → Prop
  | .leaving outcome | .exited outcome =>
    outcome = .succeeded ∨ outcome = .signalled ∨ outcome = .noRestart recorded
  | _ => True

/-- How the process left, once it has. -/
def Phase.outcome : Phase → Option Outcome
  | .leaving outcome | .exited outcome => some outcome
  | _ => none

/-- From `c` to `d` the reason stays recorded, and every launcher that has left in
between has left with it. -/
structure StopReaches (cfg : JobConfig) (recorded : ShutdownReason) (c d : JobState) :
    Prop where
  stays : d.shared.shutdownReason = some recorded
  left : ∀ p, cfg.isControl p = false → (c.agent p).phase.left = false →
    LeftOk recorded (d.agent p).phase

/-! ## Who can record a reason -/

/-- Some round has been assigned. -/
def Trained (x : BarrierStore) : Prop :=
  ∃ n, x.assignment n ≠ none

/-- The shutdown key was written; a no-restart reason in it is `reason`. -/
def Told (x : BarrierStore) (reason : ShutdownReason) : Prop :=
  ∃ recorded, x.shutdownReason = some recorded ∧
    (recorded.isNoRestart = true → recorded = reason)

/-- A rank can only be read after an assignment. -/
def RanksAssigned (x : BarrierStore) : Prop :=
  ∀ slot b, x.slotRank slot = some b → ∃ n rank total,
    b = .packed (packRankValue rank total n) ∧ (rank ≠ UNASSIGNED → Trained x)

/-- Nothing has been assigned and no stop decided. -/
def Fresh (x : BarrierStore) : Prop :=
  (∀ n, x.assignment n = none) ∧ x.noRestartReason = none

def StopPhase (cfg : JobConfig) (p : Nat) (x : BarrierStore) : Phase → Prop
  | .construct .setShutdown => p = cfg.storeHost ∧ Fresh x
  | .construct _ => p = cfg.storeHost → Fresh x
  | .close _ => p = cfg.storeHost
  | .agent (.signal _ .wait) | .agent (.signal _ .close) => p = cfg.storeHost
  | .agent (.openCheck .close) | .agent (.openSet .close) => p = cfg.storeHost
  | .agent (.signal reason (.noRestart raised)) => Trained x ∧ reason = raised
  | .agent (.openCheck (.noRestart reason)) | .agent (.openSet (.noRestart reason)) =>
    Trained x ∧ (cfg.isControl p = false → Told x reason)
  | .agent (.synchronize _) | .agent (.openCheck _) | .agent (.openSet _) => True
  | .agent _ => Trained x
  | _ => True

/-! ## What a step does -/

section Step

variable {cfg : JobConfig} {p q : Nat} {x y : BarrierStore} {l m k : Launcher}
  {event : Event}

theorem setShutdown_of_some {recorded : ShutdownReason} (reason : ShutdownReason)
    (h : x.shutdownReason = some recorded) :
    (x.setShutdown reason).shutdownReason = some recorded := by
  have hkey : x.shutdown = some (some recorded) := Option.join_eq_some_iff.mp h
  simp [BarrierStore.setShutdown, BarrierStore.shutdownReason, compareSet, hkey]

theorem setShutdown_of_none {reason : ShutdownReason} (h : x.shutdownReason = none) :
    (x.setShutdown reason).shutdownReason = some reason := by
  cases hkey : x.shutdown with
  | none => simp [BarrierStore.setShutdown, BarrierStore.shutdownReason, compareSet, hkey]
  | some value =>
    cases value with
    | none => simp [BarrierStore.setShutdown, BarrierStore.shutdownReason, compareSet, hkey]
    | some recorded => simp [BarrierStore.shutdownReason, hkey] at h

/-- A recorded reason is only lost when the host writes the sentinel. -/
theorem Effect.shutdownReason (heffect : Effect cfg p x l event y)
    (hphase : l.phase ≠ .construct .setShutdown) {recorded : ShutdownReason}
    (h : x.shutdownReason = some recorded) : y.shutdownReason = some recorded := by
  cases heffect with
  | sentinel hsentinel => exact absurd hsentinel hphase
  | shutdown _ => exact setShutdown_of_some _ h
  | _ => exact h

theorem Effect.trained (heffect : Effect cfg p x l event y) (h : Trained x) : Trained y := by
  obtain ⟨n, hn⟩ := h
  cases heffect with
  | @assign _ a _ => exact ⟨l.round, by simp [BarrierStore.assign]⟩
  | _ => exact ⟨n, hn⟩

theorem Effect.assignment_of_ne_host (heffect : Effect cfg p x l event y)
    (hinv : StopPhase cfg p x l.phase) (hp : p ≠ cfg.storeHost) :
    y.assignment = x.assignment := by
  refine heffect.assignment_eq fun activeCandidates a hphase => hp ?_
  rw [hphase] at hinv
  exact hinv

/-- A launcher that is not the host records a reason only after it has trained. -/
theorem Effect.noRestartReason_of_ne_host (heffect : Effect cfg p x l event y)
    (hinv : StopPhase cfg p x l.phase) (hp : p ≠ cfg.storeHost) (htrained : ¬ Trained x)
    (h : x.noRestartReason = none) : y.noRestartReason = none := by
  cases heffect with
  | sentinel _ => rfl
  | @shutdown reason hreason =>
    cases hno : reason.isNoRestart with
    | true =>
      obtain ⟨after, hphase⟩ := hreason hno
      rw [hphase] at hinv
      cases after with
      | wait => exact absurd hinv hp
      | close => exact absurd hinv hp
      | restart => exact absurd hinv htrained
      | noRestart _ => exact absurd hinv.1 htrained
    | false =>
      cases hkey : x.shutdownReason with
      | none =>
        simp only [BarrierStore.noRestartReason, setShutdown_of_none hkey]
        simp [hno]
      | some recorded =>
        simp only [BarrierStore.noRestartReason, hkey] at h
        simp only [BarrierStore.noRestartReason, setShutdown_of_some _ hkey]
        exact h
  | _ => exact h

theorem Fresh.not_trained (h : Fresh x) : ¬ Trained x :=
  fun ⟨n, hn⟩ => hn (h.1 n)

/-- Only the host changes that, if not by a launcher that has trained. -/
theorem Fresh.of_ne_host (h : Fresh x) (heffect : Effect cfg p x l event y)
    (hinv : StopPhase cfg p x l.phase) (hp : p ≠ cfg.storeHost) : Fresh y := by
  refine ⟨fun n => ?_, heffect.noRestartReason_of_ne_host hinv hp h.not_trained h.2⟩
  rw [heffect.assignment_of_ne_host hinv hp]
  exact h.1 n

theorem StopPhase.ne_setShutdown (hinv : StopPhase cfg p x l.phase) (h : Trained x) :
    l.phase ≠ .construct .setShutdown := by
  intro hphase
  rw [hphase] at hinv
  exact hinv.2.not_trained h

theorem Told.effect {reason : ShutdownReason} (h : Told x reason)
    (heffect : Effect cfg p x l event y) (hphase : l.phase ≠ .construct .setShutdown) :
    Told y reason := by
  obtain ⟨recorded, hrecorded, hsame⟩ := h
  exact ⟨recorded, heffect.shutdownReason hphase hrecorded, hsame⟩

/-- A process that does not move keeps what it relies on. -/
theorem StopPhase.others (hne : p ≠ q) (heffect : Effect cfg p x l event y)
    (hinv : StopPhase cfg p x l.phase) {phase : Phase} (h : StopPhase cfg q x phase) :
    StopPhase cfg q y phase := by
  have hhost : q = cfg.storeHost → p ≠ cfg.storeHost := fun hq hp => hne (hp.trans hq.symm)
  revert h
  unfold StopPhase
  split
  · exact fun h => ⟨h.1, h.2.of_ne_host heffect hinv (hhost h.1)⟩
  · exact fun h hq => (h hq).of_ne_host heffect hinv (hhost hq)
  · exact fun h => h
  · exact fun h => h
  · exact fun h => h
  · exact fun h => h
  · exact fun h => h
  · exact fun h => ⟨heffect.trained h.1, h.2⟩
  · exact fun h => ⟨heffect.trained h.1, fun hcontrol =>
      (h.2 hcontrol).effect heffect (hinv.ne_setShutdown h.1)⟩
  · exact fun h => ⟨heffect.trained h.1, fun hcontrol =>
      (h.2 hcontrol).effect heffect (hinv.ne_setShutdown h.1)⟩
  · exact fun h => h
  · exact fun h => h
  · exact fun h => h
  · exact heffect.trained
  · exact fun h => h

theorem Effect.ranksAssigned (heffect : Effect cfg p x l event y) (h : RanksAssigned x) :
    RanksAssigned y := by
  intro s b hb
  have hold : x.slotRank s = some b → ∃ n rank total,
      b = .packed (packRankValue rank total n) ∧ (rank ≠ UNASSIGNED → Trained y) := by
    intro hx
    obtain ⟨n, rank, total, heq, htrained⟩ := h s b hx
    exact ⟨n, rank, total, heq, fun hrank => heffect.trained (htrained hrank)⟩
  cases heffect with
  | rank _ hcall =>
    obtain hx | ⟨_, rfl⟩ := update_fenced_eq_some hcall hb
    · exact hold hx
    · exact ⟨l.round, UNASSIGNED, 0, rfl, fun hne => absurd rfl hne⟩
  | @assign _ a _ =>
    simp only [BarrierStore.assign] at hb
    cases hrank : a.rank s with
    | none =>
      simp only [hrank] at hb
      exact hold hb
    | some r =>
      simp only [hrank, Option.some.injEq] at hb
      exact ⟨l.round, r, _, hb.symm, fun _ => ⟨l.round, by simp [BarrierStore.assign]⟩⟩
  | _ => exact hold hb

theorem constructStep_stop {phase : ConstructPhase}
    (hinv : StopPhase cfg p x (.construct phase))
    (h : constructStep cfg p x l phase event = some (y, m)) : StopPhase cfg p y m.phase := by
  unfold constructStep at h
  split at h
  · cases h
    simp only [goto_phase]
    split <;> exact hinv
  · cases h
    exact hinv
  · split at h
    · rename_i hhost
      cases h
      exact ⟨hhost.1, hinv hhost.1⟩
    · split at h <;> cases h <;> trivial
  · cases h
    simp only [goto_phase]
    split <;> trivial
  · cases h

theorem waitStep_stop {phase : WaitPhase}
    (h : waitStep cfg p x l phase event = some (y, m)) : StopPhase cfg p y m.phase := by
  unfold waitStep at h
  split at h
  · split at h
    · rename_i hhost
      cases h
      exact hhost
    · cases h
  · cases h
    simp only [goto_phase]
    split <;> trivial
  · split at h
    · cases h
      simp only [goto_phase]
      split
      · rename_i hcontrol
        simp only [JobConfig.isControl, Bool.and_eq_true, decide_eq_true_eq] at hcontrol
        exact hcontrol.2
      · trivial
    · cases h
      trivial
  · split at h <;> cases h
    trivial
  · split at h <;> cases h <;> trivial
  · cases h

theorem joinStep_stop {phase : JoinPhase} (hphase : l.phase = .join phase)
    (h : joinStep cfg p x l phase event = some (y, m)) : StopPhase cfg p y m.phase := by
  unfold joinStep at h
  split at h
  · cases h
    trivial
  · cases h
    rw [hphase]
    trivial
  · cases h
    trivial
  · split at h <;> cases h <;> trivial
  · cases h
    trivial
  · obtain ⟨result, _, heq⟩ := Option.map_eq_some_iff.mp h
    cases heq
    simp only [goto_phase]
    split <;> trivial
  · obtain ⟨result, _, heq⟩ := Option.map_eq_some_iff.mp h
    cases heq
    simp only [goto_phase]
    split
    · split
      · rename_i hhost
        exact hhost
      · trivial
    · trivial
    · trivial
    · trivial
  · cases h

theorem closeStep_stop {phase : ClosePhase} (hhost : p = cfg.storeHost)
    (h : closeStep cfg p x l phase event = some (y, m)) : StopPhase cfg p y m.phase := by
  unfold closeStep at h
  split at h
  case h_2 =>
    cases h
    simp only [goto_phase]
    split <;> trivial
  case h_3 =>
    cases h
    simp only [goto_phase]
    split
    · trivial
    · exact hhost
  case h_10 =>
    cases h
    simp only [goto_phase]
    split
    · trivial
    · exact hhost
    · exact hhost
    · exact hhost
  case h_12 =>
    cases h
    simp only [goto_phase]
    split <;> trivial
  case h_13 => cases h
  all_goals
    cases h
    exact hhost

theorem awaitStep_stop {phase : AwaitPhase} (hranks : RanksAssigned x)
    (h : awaitStep cfg p x l phase event = some (y, m)) : StopPhase cfg p y m.phase := by
  unfold awaitStep at h
  split at h
  · cases h
    simp only [goto_phase]
    split <;> trivial
  · cases h
    simp only [goto_phase]
    split <;> trivial
  · obtain ⟨value, _, heq⟩ := Option.map_eq_some_iff.mp h
    cases heq
    trivial
  · split at h
    · cases h
      trivial
    · rename_i value hvalue
      split at h
      · cases h
        trivial
      · rename_i hunpack
        split at h
        · rename_i hactive
          cases h
          obtain ⟨n, rank, total, hb, htrained⟩ := hranks _ _ hvalue
          have hread := unpackRankValue_eq_some.mp hunpack
          rw [hb] at hread
          simp only [packRankValue, Bytes.packed.injEq, RendezvousStoreValue.mk.injEq,
            Payload.rank.injEq] at hread
          obtain ⟨_, rfl, _⟩ := hread
          exact htrained hactive.2.1
        · cases h
          trivial
  · cases h

theorem stopPhase_after {after : AfterOpen} (h : after = .close → p = cfg.storeHost) :
    StopPhase cfg p x after.phase := by
  cases after with
  | close => exact h rfl
  | _ => trivial

theorem agentStep_stop {phase : AgentPhase} (hphase : l.phase = .agent phase)
    (hinv : StopPhase cfg p x (.agent phase)) (hheeds : HeedsStop cfg p x l event)
    (h : agentStep cfg p x l phase event = some (y, m)) : StopPhase cfg p y m.phase := by
  unfold agentStep at h
  split at h
  · split at h <;> cases h <;> trivial
  · cases h
    trivial
  · split at h <;> cases h
    exact ⟨hinv, rfl⟩
  · cases h
    exact hinv
  · cases h
    exact hinv
  · cases h
    exact hinv
  · cases h
    trivial
  · cases h
    simp only [goto_phase]
    split <;> exact hinv
  · cases h
    simp only [goto_phase]
    split
    · trivial
    · exact hinv
  · split at h
    · cases h
      exact ⟨hinv, rfl⟩
    · split at h
      · cases h
        simp only
        split <;> trivial
      · cases h
        trivial
  · rename_i reason after
    cases h
    cases after with
    | noRestart raised =>
      obtain ⟨htrained, rfl⟩ := hinv
      refine ⟨htrained, fun hcontrol => ?_⟩
      cases hkey : x.shutdownReason with
      | none => exact ⟨reason, setShutdown_of_none hkey, fun _ => rfl⟩
      | some recorded =>
        refine ⟨recorded, setShutdown_of_some _ hkey, fun hno => ?_⟩
        have hnot := hheeds hcontrol recorded (by
          simp [BarrierStore.noRestartReason, hkey, hno])
        simp only [LeavesOtherwise, hphase, ne_eq, not_not] at hnot
        exact hnot.symm
    | close => exact hinv
    | _ => trivial
  · rename_i after
    cases h
    simp only [goto_phase]
    split
    · refine stopPhase_after fun hafter => ?_
      subst hafter
      exact hinv
    · cases after <;> exact hinv
  · rename_i after
    cases h
    refine stopPhase_after fun hafter => ?_
    subst hafter
    exact hinv
  · cases h

/-- The process that moves knows what it relies on next. -/
theorem jobStep_stop (hranks : RanksAssigned x) (hinv : StopPhase cfg p x l.phase)
    (hheeds : HeedsStop cfg p x l event) (h : jobStep cfg p x l event = some (y, m)) :
    StopPhase cfg p y m.phase := by
  unfold jobStep at h
  split at h
  · split at h <;> cases h
    trivial
  · split at h <;> cases h
    trivial
  · split at h
    · rename_i hphase
      exact constructStep_stop (hphase ▸ hinv) h
    · exact waitStep_stop h
    · rename_i hphase
      exact joinStep_stop hphase h
    · rename_i hphase
      rw [hphase] at hinv
      exact closeStep_stop hinv h
    · exact awaitStep_stop hranks h
    · rename_i hphase
      exact agentStep_stop hphase (hphase ▸ hinv) hheeds h
    · split at h <;> cases h
      trivial
    · split at h <;> cases h
      trivial
    · cases h

end Step

theorem stop_preserves (cfg : JobConfig) :
    (job cfg).Preserves (HeedsStop cfg) RanksAssigned
      (fun p x l => StopPhase cfg p x l.phase) where
  shared _ _ _ _ _ _ hranks _ _ hstep := (jobStep_effect hstep).ranksAssigned hranks
  agent _ _ _ _ _ _ hranks hinv hheeds hstep := jobStep_stop hranks hinv hheeds hstep
  others _ _ _ _ _ _ _ _ hne _ hinv hother _ hstep :=
    StopPhase.others hne (jobStep_effect hstep) hinv hother

theorem stop_initial (cfg : JobConfig) :
    Agents.Holding RanksAssigned (fun p x l => StopPhase cfg p x l.phase)
      (job cfg).initial where
  shared _ _ h := nomatch h
  agent _ _ := ⟨fun _ => rfl, rfl⟩

/-! ## The ways out -/

section Leave

variable {cfg : JobConfig} {p : Nat} {x y : BarrierStore} {l m : Launcher} {event : Event}
  {recorded : ShutdownReason}

/-- A call that does not conflict returns or is stale. -/
theorem fencedStep_outcome {value : RendezvousStoreValue} {cell cell' : Option Bytes}
    {call : FencedPhase} {outcome : FencedOutcome}
    (hno : ¬ Conflicts (.packed value) cell call)
    (h : fencedStep (.packed value) cell call = some (cell', .done outcome)) :
    outcome = .returned ∨ ∃ observed attempted, outcome = .stale observed attempted := by
  obtain ⟨rfl, current, hcell, _, hget⟩ | ⟨expected, rfl, _, hswap⟩ := fencedStep_to_done h
  · unfold fencedAfterGet at hget
    split at hget
    · cases hget
      exact Or.inr ⟨_, _, rfl⟩
    · split at hget
      · rename_i hsame
        exact absurd ⟨current, hcell, hsame.1, hsame.2⟩ hno
      · cases hget
  · unfold fencedAfterSwap at hswap
    split at hswap
    · exact Or.inl hswap.symm
    · rename_i hne
      split at hswap
      · exact Or.inr ⟨_, _, hswap.symm⟩
      · rename_i hle
        exact absurd ⟨hne, by omega⟩ hno

theorem isShutdown_of_recorded (h : x.shutdownReason = some recorded) :
    x.isShutdown = true := by
  simp [BarrierStore.isShutdown, h]

theorem noRestartReason_of_recorded (h : x.shutdownReason = some recorded)
    (hno : recorded.isNoRestart = true) : x.noRestartReason = some recorded := by
  simp [BarrierStore.noRestartReason, h, hno]

theorem constructStep_leftOk {phase : ConstructPhase}
    (h : constructStep cfg p x l phase event = some (y, m)) : LeftOk recorded m.phase := by
  unfold constructStep at h
  split at h
  · cases h
    trivial
  · cases h
    trivial
  · split at h
    · cases h
      trivial
    · split at h <;> cases h <;> trivial
  · cases h
    simp only [goto_phase]
    split <;> trivial
  · cases h

theorem waitStep_leftOk {phase : WaitPhase}
    (h : waitStep cfg p x l phase event = some (y, m)) : LeftOk recorded m.phase := by
  unfold waitStep at h
  split at h
  · split at h <;> cases h
    trivial
  · cases h
    simp only [goto_phase]
    split <;> trivial
  · split at h
    · cases h
      simp only [goto_phase]
      split <;> trivial
    · cases h
      trivial
  · split at h <;> cases h
    trivial
  · split at h <;> cases h <;> trivial
  · cases h

theorem joinStep_leftOk {phase : JoinPhase} (hphase : l.phase = .join phase)
    (hnot : ¬ LeavesOtherwise cfg p x l event recorded)
    (h : joinStep cfg p x l phase event = some (y, m)) : LeftOk recorded m.phase := by
  unfold joinStep at h
  split at h
  · cases h
    trivial
  · cases h
    rw [hphase]
    trivial
  · cases h
    trivial
  · simp [LeavesOtherwise, hphase] at hnot
  · cases h
    trivial
  · obtain ⟨⟨cell, call'⟩, hcall, heq⟩ := Option.map_eq_some_iff.mp h
    cases heq
    simp only [LeavesOtherwise, hphase] at hnot
    simp only [goto_phase]
    split
    · trivial
    · trivial
    · rename_i outcome hreturned hstale
      obtain rfl | ⟨observed, attempted, rfl⟩ := fencedStep_outcome hnot hcall
      · exact (hreturned rfl).elim
      · exact (hstale observed attempted rfl).elim
    · trivial
  · obtain ⟨⟨cell, call'⟩, hcall, heq⟩ := Option.map_eq_some_iff.mp h
    cases heq
    simp only [LeavesOtherwise, hphase] at hnot
    simp only [goto_phase]
    split
    · split <;> trivial
    · trivial
    · rename_i outcome hreturned hstale
      obtain rfl | ⟨observed, attempted, rfl⟩ := fencedStep_outcome hnot hcall
      · exact (hreturned rfl).elim
      · exact (hstale observed attempted rfl).elim
    · trivial
  · cases h

theorem closeStep_leftOk {phase : ClosePhase} (hphase : l.phase = .close phase)
    (hrecorded : x.shutdownReason = some recorded)
    (hnot : ¬ LeavesOtherwise cfg p x l event recorded)
    (h : closeStep cfg p x l phase event = some (y, m)) : LeftOk recorded m.phase := by
  unfold closeStep at h
  split at h
  case h_2 =>
    cases h
    simp only [isShutdown_of_recorded hrecorded]
    trivial
  case h_3 =>
    cases h
    simp only [isShutdown_of_recorded hrecorded]
    trivial
  case h_10 =>
    cases h
    simp only [LeavesOtherwise, hphase] at hnot
    simp only [goto_phase]
    split
    · rename_i hraised
      rw [hraised] at hnot
      exact absurd rfl hnot
    · trivial
    · trivial
    · trivial
  case h_12 =>
    cases h
    simp only [goto_phase]
    split <;> trivial
  case h_13 => cases h
  all_goals
    cases h
    trivial

theorem awaitStep_leftOk {phase : AwaitPhase} (hranks : RanksAssigned x)
    (hrecorded : x.shutdownReason = some recorded)
    (h : awaitStep cfg p x l phase event = some (y, m)) : LeftOk recorded m.phase := by
  unfold awaitStep at h
  split at h
  · cases h
    simp only [isShutdown_of_recorded hrecorded]
    trivial
  · cases h
    simp only [isShutdown_of_recorded hrecorded]
    trivial
  · obtain ⟨value, _, heq⟩ := Option.map_eq_some_iff.mp h
    cases heq
    trivial
  · split at h
    · cases h
      trivial
    · rename_i value hvalue
      split at h
      · rename_i hmalformed
        obtain ⟨n, rank, total, rfl, _⟩ := hranks _ _ hvalue
        rw [unpackRankValue_eq_some.mpr rfl] at hmalformed
        cases hmalformed
      · split at h <;> cases h <;> trivial
  · cases h

theorem leftOk_after {after : AfterOpen}
    (h : ∀ reason, after = .noRestart reason → reason = recorded) :
    LeftOk recorded after.phase := by
  cases after with
  | noRestart reason =>
    obtain rfl := h reason rfl
    exact Or.inr (Or.inr rfl)
  | _ => trivial

theorem agentStep_leftOk {phase : AgentPhase} (hphase : l.phase = .agent phase)
    (hrecorded : x.shutdownReason = some recorded) (hno : recorded.isNoRestart = true)
    (hcontrol : cfg.isControl p = false) (hinv : StopPhase cfg p x (.agent phase))
    (hnot : ¬ LeavesOtherwise cfg p x l event recorded)
    (h : agentStep cfg p x l phase event = some (y, m)) : LeftOk recorded m.phase := by
  have htold : ∀ reason, Told x reason → reason = recorded := by
    rintro reason ⟨other, hother, hsame⟩
    rw [hrecorded] at hother
    obtain rfl := Option.some.inj hother
    exact (hsame hno).symm
  unfold agentStep at h
  split at h
  · split at h <;> cases h <;> trivial
  · cases h
    exact Or.inl rfl
  · split at h <;> cases h
    trivial
  · cases h
    trivial
  · cases h
    trivial
  · cases h
    trivial
  · simp [LeavesOtherwise, hphase] at hnot
  · cases h
    trivial
  · cases h
    simp only [noRestartReason_of_recorded hrecorded hno]
    exact Or.inr (Or.inr rfl)
  · split at h
    · cases h
      trivial
    · rename_i openRendezvous terminateEarly hterminate
      split at h
      · cases h
        simp only
        split <;> trivial
      · rename_i hbudget
        cases terminateEarly with
        | true => exact absurd rfl hterminate
        | false =>
          simp only [LeavesOtherwise, hphase] at hnot
          omega
  · cases h
    trivial
  · rename_i after
    cases h
    simp only [goto_phase]
    split
    · refine leftOk_after fun reason hafter => ?_
      subst hafter
      exact htold reason (hinv.2 hcontrol)
    · trivial
  · rename_i after
    cases h
    refine leftOk_after fun reason hafter => ?_
    subst hafter
    exact htold reason (hinv.2 hcontrol)
  · cases h

/-- Once a reason is recorded, a launcher that leaves leaves with it. -/
theorem jobStep_leftOk (hranks : RanksAssigned x) (hinv : StopPhase cfg p x l.phase)
    (hrecorded : x.shutdownReason = some recorded) (hno : recorded.isNoRestart = true)
    (hcontrol : cfg.isControl p = false) (hheeds : HeedsStop cfg p x l event)
    (hleft : LeftOk recorded l.phase) (h : jobStep cfg p x l event = some (y, m)) :
    LeftOk recorded m.phase := by
  have hnot : ¬ LeavesOtherwise cfg p x l event recorded :=
    hheeds hcontrol recorded (noRestartReason_of_recorded hrecorded hno)
  unfold jobStep at h
  split at h
  · split at h <;> cases h
    exact Or.inr (Or.inl rfl)
  · exact absurd trivial hnot
  · split at h
    · exact constructStep_leftOk h
    · exact waitStep_leftOk h
    · rename_i hphase
      exact joinStep_leftOk hphase hnot h
    · rename_i hphase
      exact closeStep_leftOk hphase hrecorded hnot h
    · exact awaitStep_leftOk hranks hrecorded h
    · rename_i hphase
      exact agentStep_leftOk hphase hrecorded hno hcontrol (hphase ▸ hinv) hnot h
    · split at h <;> cases h
      simp only [raisedOutcome, hcontrol, noRestartReason_of_recorded hrecorded hno]
      exact Or.inr (Or.inr rfl)
    · rename_i hphase
      split at h <;> cases h
      rw [hphase] at hleft
      exact hleft
    · cases h

end Leave

/-- A recorded reason reaches every launcher that leaves later, in every run without
a step that ends a launcher otherwise. -/
theorem no_restart_reaches {cfg : JobConfig} {recorded : ShutdownReason} {c d : JobState}
    {actions : List (Nat × Event)}
    (hc : (job cfg).system.Reachable (condition (HeedsStop cfg)) c)
    (hrecorded : c.shared.shutdownReason = some recorded)
    (hno : recorded.isNoRestart = true)
    (hrun : (job cfg).system.Run (condition (HeedsStop cfg)) c actions d) :
    StopReaches cfg recorded c d := by
  have hstart := (stop_preserves cfg).reachable (stop_initial cfg) hc
  have hleaves : (job cfg).Preserves
      (fun p x l event => HeedsStop cfg p x l event ∧ RanksAssigned x ∧
        StopPhase cfg p x l.phase)
      (fun x => x.shutdownReason = some recorded)
      (fun p _ l => cfg.isControl p = false → (c.agent p).phase.left = false →
        LeftOk recorded l.phase) := by
    constructor
    · rintro p x l event y m hx _ ⟨_, _, hinv⟩ hstep
      refine (jobStep_effect hstep).shutdownReason (fun hphase => ?_) hx
      rw [hphase] at hinv
      have hfresh := hinv.2.2
      rw [noRestartReason_of_recorded hx hno] at hfresh
      cases hfresh
    · rintro p x l event y m hx hleft ⟨hheeds, hranks, hinv⟩ hstep hcontrol hstays
      exact jobStep_leftOk hranks hinv hx hno hcontrol hheeds (hleft hcontrol hstays) hstep
    · intro p q x l k event y m _ _ _ hother _ _
      exact hother
  have hholding : Agents.Holding
      (fun x => RanksAssigned x ∧ x.shutdownReason = some recorded)
      (fun p x l => StopPhase cfg p x l.phase ∧ (cfg.isControl p = false →
        (c.agent p).phase.left = false → LeftOk recorded l.phase)) c := by
    refine ⟨⟨hstart.shared, hrecorded⟩, fun p => ⟨hstart.agent p, fun _ hstays => ?_⟩⟩
    cases hphase : (c.agent p).phase with
    | leaving outcome => simp [hphase, Phase.left] at hstays
    | exited outcome => simp [hphase, Phase.left] at hstays
    | _ => trivial
  have hend := ((stop_preserves cfg).and hleaves).run hholding hrun
  exact ⟨hend.shared.2, fun p hcontrol hstays => (hend.agent p).2 hcontrol hstays⟩

/-! ## A job without restarts left -/

/-- The job of the control process with no restart. -/
def lastCycleJob : JobConfig :=
  { controlJob with maxRestarts := 0 }

/-- Launcher 1 sees no progress across restarts and records it. -/
def recordNoProgress : List (Nat × Event) :=
  [(1, .workers .failed), (1, .decide true), (1, .next)]

/-- Launcher 2, whose workers are healthy, finds the next round open. -/
theorem no_restart_reaches_healthy :
    ∃ c d : JobState, c.shared.shutdownReason = some .noProgress ∧
      StopReaches lastCycleJob .noProgress c d := by
  have hrun : ((job lastCycleJob).system.execute
        (condition (HeedsStop lastCycleJob)) (job lastCycleJob).initial
        (firstRound ++ recordNoProgress)).any
      (fun c => c.shared.shutdownReason = some .noProgress ∧
        ((job lastCycleJob).system.execute (condition (HeedsStop lastCycleJob)) c
          ([(1, .next), (1, .next), (2, .workers .healthy)] ++ advance 2 2)).isSome = true) =
        true := by
    decide +kernel
  obtain ⟨c, hc, htest⟩ := System.exists_reachable_of_execute rfl hrun
  obtain ⟨hrecorded, hnext⟩ := of_decide_eq_true htest
  obtain ⟨d, hd⟩ := Option.isSome_iff_exists.mp hnext
  exact ⟨c, d, hrecorded, no_restart_reaches hc hrecorded rfl (System.run_of_execute hd)⟩

/-- The workers of launcher 2 fail while its budget is exhausted: it returns a failed
result. -/
theorem exhausted_budget_misses_stop :
    ¬ ∀ (cfg : JobConfig) (recorded : ShutdownReason) (c d : JobState)
        (actions : List (Nat × Event)),
        (job cfg).system.Reachable (condition fun _ _ _ _ => True) c →
          c.shared.shutdownReason = some recorded → recorded.isNoRestart = true →
          (job cfg).system.Run (condition fun _ _ _ _ => True) c actions d →
          StopReaches cfg recorded c d := by
  intro hclaim
  have hrun : ((job lastCycleJob).system.execute (condition fun _ _ _ _ => True)
        (job lastCycleJob).initial (firstRound ++ recordNoProgress)).any
      (fun c => c.shared.shutdownReason = some .noProgress ∧
        (c.agent 2).phase.left = false ∧
        ((job lastCycleJob).system.execute (condition fun _ _ _ _ => True) c
          [(2, .workers .failed), (2, .decide false)]).any
          fun d => (d.agent 2).phase.outcome = some .failed) = true := by
    decide +kernel
  obtain ⟨c, hc, htest⟩ := System.exists_reachable_of_execute rfl hrun
  obtain ⟨hrecorded, hstays, hnext⟩ := of_decide_eq_true htest
  obtain ⟨d, hd, hfailed⟩ := Option.any_eq_true _ _ |>.mp hnext
  have hleft := (hclaim lastCycleJob .noProgress c d _ hc hrecorded rfl
    (System.run_of_execute hd)).left 2 rfl hstays
  have houtcome := of_decide_eq_true hfailed
  cases hphase : (d.agent 2).phase with
  | leaving outcome | exited outcome =>
    rw [hphase] at hleft houtcome
    obtain rfl := Option.some.inj houtcome
    rcases hleft with h | h | h <;> cases h
  | _ =>
    rw [hphase] at houtcome
    cases houtcome

end ResiliencyExt.FaultTolerance.Rendezvous
