import ResiliencyExt.FaultTolerance.Rendezvous.RankAgreement

set_option autoImplicit false

/-!
# Rendezvous: the restart budget

`run` sets `_remaining_restarts` to `max_restarts` less the round it starts from,
and a restart decision takes one off.  The round advances somewhere else: in
`_sync_from_per_round_state`, past every closed round, whether or not this launcher
ran workers in it.  So the documented equation holds while a launcher goes past no
round but those it trained in, and a hot spare keeps the restarts that the job has
used up without it.
-/

namespace ResiliencyExt.FaultTolerance.Rendezvous

open Foundation

/-- The round whose workers the launcher is running: from the start of the monitor
loop to the decision to restart them. -/
def Launcher.runsRound (l : Launcher) : Option Nat :=
  match l.phase with
  | .agent .monitor | .agent .nextRound | .agent .reason | .agent (.decide _)
  | .agent (.signal _ (.noRestart _)) | .agent (.openCheck (.noRestart _))
  | .agent (.openSet (.noRestart _)) => some l.round
  | _ => none

/-- The documented invariant, and the decisions that rest on it. -/
structure BudgetAgreement (cfg : JobConfig) (c : JobState) : Prop where
  budget : ∀ p n, cfg.isControl p = false → (c.agent p).runsRound = some n →
    (c.agent p).remainingRestarts = (cfg.maxRestarts : Int) - n
  decision : ∀ p q n, cfg.isControl p = false → cfg.isControl q = false →
    (c.agent p).runsRound = some n → (c.agent q).runsRound = some n →
    (0 < (c.agent p).remainingRestarts ↔ 0 < (c.agent q).remainingRestarts)

/-- A launcher goes past a closed round only if it ran workers in it. -/
def SkipsNoRound (cfg : JobConfig) (p : Nat) (x : BarrierStore) (l : Launcher)
    (event : Event) : Prop :=
  match l.phase, event with
  | .wait (.scan n), .next =>
    cfg.isControl p = false → x.roundDone n = some .closed → l.lastRun = some n
  | _, _ => True

instance (cfg : JobConfig) (p : Nat) (x : BarrierStore) (l : Launcher) (event : Event) :
    Decidable (SkipsNoRound cfg p x l event) := by
  unfold SkipsNoRound
  match l with
  | ⟨phase, _, _, _, _, _⟩ =>
    dsimp only
    split <;> infer_instance

def RunsEveryRound (cfg : JobConfig) (p : Nat) (x : BarrierStore) (l : Launcher)
    (event : Event) : Prop :=
  NoReopen x l event ∧ SkipsNoRound cfg p x l event

instance (cfg : JobConfig) (p : Nat) (x : BarrierStore) (l : Launcher) (event : Event) :
    Decidable (RunsEveryRound cfg p x l event) :=
  inferInstanceAs (Decidable (NoReopen x l event ∧ SkipsNoRound cfg p x l event))

/-! ## What the budget stands for in every phase -/

/-- The cycle a launcher at round `n` goes for: the next one when it has run this
round already. -/
def Launcher.due (l : Launcher) (n : Nat) : Nat :=
  if l.lastRun = some n then n + 1 else n

/-- The budget is that of the cycle the launcher goes for. -/
def Waiting (cfg : JobConfig) (l : Launcher) (n : Nat) : Prop :=
  l.remainingRestarts = (cfg.maxRestarts : Int) - l.due n

/-- The launcher has entered a round that it has not run yet. -/
def Joining (cfg : JobConfig) (l : Launcher) : Prop :=
  l.lastRun ≠ some l.round ∧ l.remainingRestarts = (cfg.maxRestarts : Int) - l.round

def Running (cfg : JobConfig) (l : Launcher) : Prop :=
  l.lastRun = some l.round ∧ l.remainingRestarts = (cfg.maxRestarts : Int) - l.round

def BudgetPhase (cfg : JobConfig) (x : BarrierStore) (l : Launcher) : Phase → Prop
  | .construct _ | .agent (.synchronize _) => l.lastRun = none
  | .wait (.scan n) => Waiting cfg l n
  | .wait _ => Waiting cfg l l.round
  | .join _ | .close _ => Joining cfg l
  | .await .rank => Joining cfg l ∧ Closed x l.round
  | .await _ => Joining cfg l
  | .agent (.signal _ .close) | .agent (.openCheck .close) | .agent (.openSet .close) =>
    Joining cfg l
  | .agent (.signal _ .wait) | .agent (.openCheck .wait) | .agent (.openSet .wait)
  | .agent (.signal _ .restart) | .agent (.openCheck .restart)
  | .agent (.openSet .restart) => Waiting cfg l l.round
  | .agent _ => Running cfg l
  | .raised _ | .leaving _ | .exited _ => True

structure BudgetInv (cfg : JobConfig) (x : BarrierStore) (l : Launcher) : Prop where
  /-- The round it ran last is closed. -/
  ran : ∀ n, l.lastRun = some n → Closed x n
  phase : BudgetPhase cfg x l l.phase

section Step

variable {cfg : JobConfig} {p : Nat} {x y : BarrierStore} {l m : Launcher} {event : Event}

theorem Joining.waiting (h : Joining cfg l) : Waiting cfg l l.round := by
  unfold Waiting Launcher.due
  rw [if_neg h.1]
  exact h.2

theorem Waiting.joining (h : Waiting cfg l l.round) (hran : l.lastRun ≠ some l.round) :
    Joining cfg l := by
  unfold Waiting Launcher.due at h
  rw [if_neg hran] at h
  exact ⟨hran, h⟩

/-- Past the round that it ran, the launcher still goes for the same cycle. -/
theorem Waiting.next {n : Nat} (h : Waiting cfg l n) (hran : l.lastRun = some n) :
    Waiting cfg l (n + 1) := by
  unfold Waiting Launcher.due at h ⊢
  rw [if_pos hran] at h
  rw [if_neg (by rw [hran]; simp)]
  exact h

theorem BudgetPhase.stable (hclosed : ∀ {n}, Closed x n → Closed y n) {phase : Phase}
    (h : BudgetPhase cfg x l phase) : BudgetPhase cfg y l phase := by
  cases phase with
  | await phase =>
    cases phase with
    | rank => exact ⟨h.1, hclosed h.2⟩
    | _ => exact h
  | wait phase => cases phase <;> exact h
  | agent phase =>
    cases phase with
    | signal _ after => cases after <;> exact h
    | openCheck after => cases after <;> exact h
    | openSet after => cases after <;> exact h
    | _ => exact h
  | _ => exact h

theorem constructStep_budget {phase : ConstructPhase} (hcontrol : cfg.isControl p = false)
    (hinv : BudgetPhase cfg x l (.construct phase))
    (h : constructStep cfg p x l phase event = some (y, m)) :
    BudgetPhase cfg y m m.phase := by
  unfold constructStep at h
  split at h
  · cases h
    exact hinv
  · cases h
    exact hinv
  · split at h
    · cases h
      exact hinv
    · split at h
      · rename_i htrue
        rw [hcontrol] at htrue
        cases htrue
      · cases h
        exact hinv
  · cases h
    simp only [hcontrol]
    exact hinv
  · cases h

theorem waitStep_budget {phase : WaitPhase} (hcontrol : cfg.isControl p = false)
    (hran : ∀ n, l.lastRun = some n → Closed x n) (hphase : l.phase = .wait phase)
    (hinv : BudgetPhase cfg x l (.wait phase)) (hskip : SkipsNoRound cfg p x l event)
    (h : waitStep cfg p x l phase event = some (y, m)) : BudgetPhase cfg y m m.phase := by
  unfold waitStep at h
  split at h
  · split at h <;> cases h
    exact hinv
  · cases h
    simp only [Launcher.goto_phase]
    split
    · trivial
    · exact hinv
  · split at h
    · rename_i hopen
      cases h
      have hnot : l.lastRun ≠ some l.round := by
        intro heq
        have hclosed : x.roundDone l.round = some .closed := hran l.round heq
        rw [hopen] at hclosed
        cases hclosed
      simp only [hcontrol]
      exact Waiting.joining hinv hnot
    · cases h
      exact hinv
  · split at h <;> cases h
    exact hinv
  · rename_i n
    split at h
    · rename_i hclosed
      cases h
      simp only [SkipsNoRound, hphase] at hskip
      exact Waiting.next hinv (hskip hcontrol hclosed)
    · cases h
      exact hinv
  · cases h

theorem joinStep_budget {phase : JoinPhase} (hphase : l.phase = .join phase)
    (hinv : Joining cfg l)
    (h : joinStep cfg p x l phase event = some (y, m)) : BudgetPhase cfg y m m.phase := by
  unfold joinStep at h
  split at h
  · cases h
    exact hinv
  · cases h
    rw [hphase]
    exact hinv
  · cases h
    exact hinv
  · split at h <;> cases h <;> trivial
  · cases h
    exact hinv
  · obtain ⟨result, _, heq⟩ := Option.map_eq_some_iff.mp h
    cases heq
    simp only [Launcher.goto_phase]
    split
    · exact hinv
    · exact hinv.waiting
    · trivial
    · exact hinv
  · obtain ⟨result, _, heq⟩ := Option.map_eq_some_iff.mp h
    cases heq
    simp only [Launcher.goto_phase]
    split
    · split <;> exact hinv
    · exact hinv.waiting
    · trivial
    · exact hinv
  · cases h

theorem closeStep_budget {phase : ClosePhase} (hcontrol : cfg.isControl p = false)
    (hinv : Joining cfg l)
    (h : closeStep cfg p x l phase event = some (y, m)) : BudgetPhase cfg y m m.phase := by
  unfold closeStep at h
  split at h
  · cases h
    exact hinv
  · cases h
    simp only [Launcher.goto_phase]
    split <;> trivial
  · cases h
    simp only [Launcher.goto_phase]
    split
    · trivial
    · exact hinv
  · cases h
    exact hinv
  · cases h
    exact hinv
  · cases h
    exact hinv
  · cases h
    exact hinv
  · cases h
    exact hinv
  · cases h
    exact hinv
  · cases h
    simp only [Launcher.goto_phase]
    split
    · trivial
    · exact hinv
    · exact hinv
    · exact hinv
  · cases h
    exact hinv
  · cases h
    simp only [hcontrol]
    exact hinv
  · cases h

theorem awaitStep_budget {phase : AwaitPhase} (hinv : BudgetPhase cfg x l (.await phase))
    (h : awaitStep cfg p x l phase event = some (y, m)) : BudgetPhase cfg y m m.phase := by
  unfold awaitStep at h
  split at h
  · cases h
    simp only [Launcher.goto_phase]
    split <;> trivial
  · cases h
    simp only [Launcher.goto_phase]
    split
    · trivial
    · exact hinv
  · obtain ⟨value, hvalue, heq⟩ := Option.map_eq_some_iff.mp h
    cases heq
    simp only [Launcher.goto_phase]
    split
    · rename_i hclosed
      rw [hclosed] at hvalue
      exact ⟨hinv, hvalue⟩
    · exact hinv
  · split at h
    · cases h
      exact Joining.waiting hinv.1
    · split at h
      · cases h
        trivial
      · split at h
        · cases h
          exact ⟨rfl, hinv.1.2⟩
        · cases h
          exact Joining.waiting hinv.1
  · cases h

/-- After `open_rendezvous` the budget stands for what it stood for before. -/
theorem budgetPhase_after {after : AfterOpen}
    (h : BudgetPhase cfg x l (.agent (.openCheck after))) :
    BudgetPhase cfg y (l.goto after.phase) after.phase := by
  cases after with
  | noRestart _ => trivial
  | restart => exact h
  | wait => exact h
  | close => exact h

theorem agentStep_budget {phase : AgentPhase} (hinv : BudgetPhase cfg x l (.agent phase))
    (h : agentStep cfg p x l phase event = some (y, m)) : BudgetPhase cfg y m m.phase := by
  unfold agentStep at h
  split at h
  · split at h
    · cases h
      exact hinv
    · cases h
      have hnone : l.lastRun = none := hinv
      simp [BudgetPhase, Waiting, Launcher.due, hnone]
  · cases h
    trivial
  · split at h <;> cases h
    exact hinv
  · cases h
    exact hinv
  · cases h
    exact hinv
  · cases h
    exact hinv
  · cases h
    trivial
  · cases h
    simp only [Launcher.goto_phase]
    split <;> exact hinv
  · cases h
    simp only [Launcher.goto_phase]
    split
    · trivial
    · exact hinv
  · split at h
    · cases h
      exact hinv
    · split at h
      · cases h
        obtain ⟨hran, hbudget⟩ : Running cfg l := hinv
        have hwaiting : Waiting cfg
            { l with remainingRestarts := l.remainingRestarts - 1 } l.round := by
          simp only [Waiting, Launcher.due, if_pos hran, hbudget]
          omega
        split <;> exact hwaiting
      · cases h
        trivial
  · rename_i after
    cases h
    cases after <;> exact hinv
  · rename_i after
    cases h
    simp only [Launcher.goto_phase]
    split
    · exact budgetPhase_after hinv
    · cases after <;> exact hinv
  · rename_i after
    cases h
    refine budgetPhase_after (x := x) ?_
    cases after <;> exact hinv
  · cases h

/-- The last round changes only when a rank is returned. -/
theorem jobStep_lastRun (h : jobStep cfg p x l event = some (y, m)) :
    m.lastRun = l.lastRun ∨ (l.phase = .await .rank ∧ m.lastRun = some l.round) := by
  unfold jobStep at h
  split at h
  · split at h <;> cases h
    exact Or.inl rfl
  · split at h <;> cases h
    exact Or.inl rfl
  · split at h
    · refine Or.inl ?_
      unfold constructStep at h
      split at h <;> (try split at h) <;> (try split at h) <;> cases h <;> rfl
    · refine Or.inl ?_
      unfold waitStep at h
      split at h <;> (try split at h) <;> cases h <;> rfl
    · refine Or.inl ?_
      unfold joinStep at h
      split at h
      case h_6 =>
        obtain ⟨_, _, heq⟩ := Option.map_eq_some_iff.mp h
        cases heq
        rfl
      case h_7 =>
        obtain ⟨_, _, heq⟩ := Option.map_eq_some_iff.mp h
        cases heq
        rfl
      all_goals (try split at h) <;> cases h <;> rfl
    · refine Or.inl ?_
      unfold closeStep at h
      split at h <;> cases h <;> rfl
    · rename_i phase hphase
      unfold awaitStep at h
      split at h
      · cases h
        exact Or.inl rfl
      · cases h
        exact Or.inl rfl
      · obtain ⟨_, _, heq⟩ := Option.map_eq_some_iff.mp h
        cases heq
        exact Or.inl rfl
      · split at h
        · cases h
          exact Or.inl rfl
        · split at h
          · cases h
            exact Or.inl rfl
          · split at h <;> cases h
            · exact Or.inr ⟨hphase, rfl⟩
            · exact Or.inl rfl
      · cases h
    · refine Or.inl ?_
      unfold agentStep at h
      split at h <;> (try split at h) <;> (try split at h) <;> cases h <;> rfl
    · split at h <;> cases h
      exact Or.inl rfl
    · split at h <;> cases h
      exact Or.inl rfl
    · cases h

/-- A launcher that moves keeps its budget. -/
theorem jobStep_budget (hinv : BudgetInv cfg x l) (hcontrol : cfg.isControl p = false)
    (hcond : RunsEveryRound cfg p x l event)
    (hstep : jobStep cfg p x l event = some (y, m)) : BudgetInv cfg y m := by
  have hphaseInv := hinv.phase
  constructor
  · intro n hn
    refine (jobStep_effect hstep).closed hcond.1 ?_
    obtain heq | ⟨hphase, heq⟩ := jobStep_lastRun hstep
    · exact hinv.ran n (heq ▸ hn)
    · rw [hphase] at hphaseInv
      rw [heq] at hn
      exact Option.some.inj hn ▸ hphaseInv.2
  · unfold jobStep at hstep
    split at hstep
    · split at hstep <;> cases hstep
      trivial
    · split at hstep <;> cases hstep
      trivial
    · split at hstep
      · rename_i hphase
        exact constructStep_budget hcontrol (hphase ▸ hphaseInv) hstep
      · rename_i hphase
        exact waitStep_budget hcontrol hinv.ran hphase (hphase ▸ hphaseInv) hcond.2 hstep
      · rename_i hphase
        rw [hphase] at hphaseInv
        exact joinStep_budget hphase hphaseInv hstep
      · rename_i hphase
        rw [hphase] at hphaseInv
        exact closeStep_budget hcontrol hphaseInv hstep
      · rename_i hphase
        exact awaitStep_budget (hphase ▸ hphaseInv) hstep
      · rename_i hphase
        exact agentStep_budget (hphase ▸ hphaseInv) hstep
      · split at hstep <;> cases hstep
        trivial
      · split at hstep <;> cases hstep
        trivial
      · cases hstep

end Step

theorem budget_preserves (cfg : JobConfig) :
    (job cfg).Preserves (RunsEveryRound cfg) (fun _ => True)
      (fun p x l => cfg.isControl p = false → BudgetInv cfg x l) where
  shared _ _ _ _ _ _ _ _ _ _ := trivial
  agent _ _ _ _ _ _ _ hinv hcond hstep hcontrol :=
    jobStep_budget (hinv hcontrol) hcontrol hcond hstep
  others p q x l k event y m _ _ _ hother hcond hstep hcontrol := by
    have hclosed : ∀ {n}, Closed x n → Closed y n := (jobStep_effect hstep).closed hcond.1
    have hinv := hother hcontrol
    exact ⟨fun n hn => hclosed (hinv.ran n hn), hinv.phase.stable hclosed⟩

theorem BudgetInv.running {cfg : JobConfig} {x : BarrierStore} {l : Launcher} {n : Nat}
    (h : BudgetInv cfg x l) (hrun : l.runsRound = some n) :
    l.remainingRestarts = (cfg.maxRestarts : Int) - n := by
  have hinv := h.phase
  unfold Launcher.runsRound at hrun
  split at hrun
  case h_8 => cases hrun
  all_goals
    rename_i hphase
    rw [hphase] at hinv
    rw [← Option.some.inj hrun]
    exact hinv.2

/-- The budget is what it should be in every run in which launchers go past no round
that they did not run. -/
theorem restart_budget {cfg : JobConfig} {c : JobState}
    (hc : (job cfg).system.Reachable (Agents.condition (RunsEveryRound cfg)) c) :
    BudgetAgreement cfg c := by
  have hinit : Agents.Holding (fun _ => True)
      (fun p x l => cfg.isControl p = false → BudgetInv cfg x l) (job cfg).initial :=
    ⟨trivial, fun _ _ => ⟨fun _ h => (nomatch h), rfl⟩⟩
  have hinv := ((budget_preserves cfg).reachable hinit hc).agent
  have hbudget : ∀ p n, cfg.isControl p = false → (c.agent p).runsRound = some n →
      (c.agent p).remainingRestarts = (cfg.maxRestarts : Int) - n :=
    fun p n hcontrol hrun => (hinv p hcontrol).running hrun
  refine ⟨hbudget, fun p q n hp hq hprun hqrun => ?_⟩
  rw [hbudget p n hp hprun, hbudget q n hq hqrun]

/-! ## A hot spare and two launchers -/

/-- Launcher 1 sees its workers fail and opens round 1; launcher 2 finds it open. -/
def restartTogether : List (Nat × Event) :=
  failWorkers 1 ++ advance 1 1 ++ scanForward 1 ++ joinRound 1 ++ advance 6 1 ++
    [(2, .workers .healthy), (2, .next), (2, .next), (2, .decide false)] ++ scanForward 2 ++
    joinRound 2 ++ advance 6 2 ++ scanForward 0 ++ gatherRound ++ advance 2 0 ++
    advance 3 1 ++ advance 3 2

/-- Two launchers that train in rounds 0 and 1. -/
theorem restart_budget_together :
    ∃ c : JobState, ((c.agent 1).runsRound = some 1 ∧ (c.agent 2).runsRound = some 1) ∧
      BudgetAgreement controlJob c := by
  have hrun : ((job controlJob).system.execute
        (Agents.condition (RunsEveryRound controlJob)) (job controlJob).initial
        (firstRound ++ restartTogether)).any
      (fun c => (c.agent 1).runsRound = some 1 ∧ (c.agent 2).runsRound = some 1) = true := by
    decide +kernel
  obtain ⟨c, hc, htest⟩ := System.exists_reachable_of_execute rfl hrun
  exact ⟨c, of_decide_eq_true htest, restart_budget hc⟩

/-- Launcher 3 is a hot spare in round 0.  Launcher 1 dies, and launchers 2 and 3
train in round 1. -/
def spareTakesOver : List (Nat × Event) :=
  advance 4 0 ++ advance 3 1 ++ advance 3 2 ++ advance 3 3 ++ joinRound 1 ++ advance 4 1 ++
    joinRound 2 ++ advance 4 2 ++ joinRound 3 ++ advance 4 3 ++ gatherRound ++ advance 2 0 ++
    advance 3 1 ++ advance 3 2 ++ advance 3 3 ++ [(1, .signal)] ++ failWorkers 2 ++
    advance 1 2 ++ scanForward 2 ++ joinRound 2 ++ advance 6 2 ++ scanForward 3 ++
    joinRound 3 ++ advance 6 3 ++ scanForward 0 ++ gatherRound ++ advance 2 0 ++
    advance 3 2 ++ advance 3 3

/-- The hot spare runs round 1 with the budget of round 0. -/
theorem spare_keeps_budget :
    ¬ ∀ (cfg : JobConfig) (c : JobState),
        (job cfg).system.Reachable (Agents.condition Orderly) c → BudgetAgreement cfg c := by
  intro hclaim
  have hrun : ((job controlJob).system.execute (Agents.condition Orderly)
        (job controlJob).initial spareTakesOver).any
      (fun c => (c.agent 2).runsRound = some 1 ∧ (c.agent 2).remainingRestarts = 2 ∧
        (c.agent 3).runsRound = some 1 ∧ (c.agent 3).remainingRestarts = 3) = true := by
    decide +kernel
  obtain ⟨c, hc, htest⟩ := System.exists_reachable_of_execute rfl hrun
  obtain ⟨_, _, hspare, hbudget⟩ := of_decide_eq_true htest
  have hequal := (hclaim controlJob c hc).budget 3 1 rfl hspare
  rw [hbudget] at hequal
  exact absurd hequal (by decide)

end ResiliencyExt.FaultTolerance.Rendezvous
