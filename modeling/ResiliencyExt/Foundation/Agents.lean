import Mathlib.Logic.Function.Basic
import ResiliencyExt.Foundation.System

set_option autoImplicit false

/-!
# Foundation: agents over shared state

Any number of agents work on one shared state.  Each agent has a local state
that only its own steps change, and a step reads and writes nothing but the
shared state and the agent's own local state.

An invariant of such a system is put together from an invariant of the shared
state and a local assertion for every agent.  It is enough that a step of an
agent keeps the shared invariant and its own assertion, and that it does not
disturb the assertion of any other agent.
-/

namespace ResiliencyExt.Foundation

/-- Agents, numbered by `Nat`, over one shared state. -/
structure Agents (Shared Local Action : Type) where
  shared : Shared
  start : Nat → Local
  /-- One atomic step of an agent; `none` when the action is not enabled. -/
  step : Nat → Shared → Local → Action → Option (Shared × Local)

namespace Agents

variable {Shared Local Action : Type}

/-- The shared state together with the local state of every agent. -/
structure Configuration (Shared Local : Type) where
  shared : Shared
  agent : Nat → Local

variable (A : Agents Shared Local Action)

/-- The configuration every run starts from. -/
def initial : Configuration Shared Local :=
  ⟨A.shared, A.start⟩

/-- All interleavings of the agents' steps. -/
def system : System (Configuration Shared Local) (Nat × Action) where
  init c := c = A.initial
  step c a :=
    (A.step a.1 c.shared (c.agent a.1) a.2).map fun result =>
      ⟨result.1, Function.update c.agent a.1 result.2⟩

/-- A condition on what the acting agent sees before its step. -/
def condition (C : Nat → Shared → Local → Action → Prop) :
    Configuration Shared Local → Nat × Action → Prop :=
  fun c a => C a.1 c.shared (c.agent a.1) a.2

instance (C : Nat → Shared → Local → Action → Prop)
    [∀ p x l a, Decidable (C p x l a)] (c : Configuration Shared Local)
    (a : Nat × Action) : Decidable (condition C c a) :=
  inferInstanceAs (Decidable (C a.1 c.shared (c.agent a.1) a.2))

variable {A}

theorem system_step_eq_some {c d : Configuration Shared Local} {a : Nat × Action} :
    A.system.step c a = some d ↔
      ∃ y m, A.step a.1 c.shared (c.agent a.1) a.2 = some (y, m) ∧
        d = ⟨y, Function.update c.agent a.1 m⟩ := by
  unfold system
  rw [Option.map_eq_some_iff]
  constructor
  · rintro ⟨⟨y, m⟩, hstep, rfl⟩
    exact ⟨y, m, hstep, rfl⟩
  · rintro ⟨y, m, hstep, rfl⟩
    exact ⟨(y, m), hstep, rfl⟩

/-! ## The rule of invariance -/

/-- The assertions of a configuration: one on the shared state, and one for each
agent. -/
structure Holding (G : Shared → Prop) (L : Nat → Shared → Local → Prop)
    (c : Configuration Shared Local) : Prop where
  shared : G c.shared
  agent : ∀ p, L p c.shared (c.agent p)

/-- What a step must do for the assertions to survive it: keep the shared
assertion and the assertion of the agent that moves, and leave that of every
other agent alone. -/
structure Preserves (A : Agents Shared Local Action)
    (C : Nat → Shared → Local → Action → Prop)
    (G : Shared → Prop) (L : Nat → Shared → Local → Prop) : Prop where
  shared : ∀ p x l a y m, G x → L p x l → C p x l a → A.step p x l a = some (y, m) → G y
  agent : ∀ p x l a y m, G x → L p x l → C p x l a → A.step p x l a = some (y, m) → L p y m
  others : ∀ p q x l k a y m, p ≠ q → G x → L p x l → L q x k → C p x l a →
    A.step p x l a = some (y, m) → L q y k

variable {C : Nat → Shared → Local → Action → Prop} {G : Shared → Prop}
  {L : Nat → Shared → Local → Prop}

variable {c d : Configuration Shared Local}

theorem Preserves.step (h : Preserves A C G L) {a : Nat × Action} (hc : Holding G L c)
    (hcond : condition C c a) (hstep : A.system.step c a = some d) : Holding G L d := by
  obtain ⟨y, m, hlocal, rfl⟩ := system_step_eq_some.mp hstep
  refine ⟨h.shared _ _ _ _ _ _ hc.shared (hc.agent a.1) hcond hlocal, fun q => ?_⟩
  by_cases hq : a.1 = q
  · subst hq
    simp only [Function.update_self]
    exact h.agent _ _ _ _ _ _ hc.shared (hc.agent a.1) hcond hlocal
  · simp only [Function.update_of_ne (Ne.symm hq)]
    exact h.others _ _ _ _ _ _ _ _ hq hc.shared (hc.agent a.1) (hc.agent q) hcond hlocal

/-- The assertions hold in every state reached by steps that meet the condition. -/
theorem Preserves.reachable (h : Preserves A C G L) (hinit : Holding G L A.initial)
    (hc : A.system.Reachable (condition C) c) : Holding G L c :=
  hc.invariant (fun _ hinitial => hinitial ▸ hinit)
    fun _ _ _ hs hcond hstep => h.step hs hcond hstep

/-- The assertions survive every run whose steps meet the condition. -/
theorem Preserves.run (h : Preserves A C G L) {actions : List (Nat × Action)}
    (hc : Holding G L c) (hrun : A.system.Run (condition C) c actions d) : Holding G L d := by
  induction hrun with
  | nil _ => exact hc
  | cons hcond hstep _ ih => exact ih (h.step hc hcond hstep)

/-- Assertions that hold of every reachable state may be assumed in the proof of
further ones. -/
theorem Preserves.and {G' : Shared → Prop} {L' : Nat → Shared → Local → Prop}
    (h : Preserves A C G L)
    (h' : Preserves A (fun p x l a => C p x l a ∧ G x ∧ L p x l) G' L') :
    Preserves A C (fun x => G x ∧ G' x) (fun p x l => L p x l ∧ L' p x l) where
  shared p x l a y m hg hl hcond hstep :=
    ⟨h.shared p x l a y m hg.1 hl.1 hcond hstep,
      h'.shared p x l a y m hg.2 hl.2 ⟨hcond, hg.1, hl.1⟩ hstep⟩
  agent p x l a y m hg hl hcond hstep :=
    ⟨h.agent p x l a y m hg.1 hl.1 hcond hstep,
      h'.agent p x l a y m hg.2 hl.2 ⟨hcond, hg.1, hl.1⟩ hstep⟩
  others p q x l k a y m hpq hg hl hk hcond hstep :=
    ⟨h.others p q x l k a y m hpq hg.1 hl.1 hk.1 hcond hstep,
      h'.others p q x l k a y m hpq hg.2 hl.2 hk.2 ⟨hcond, hg.1, hl.1⟩ hstep⟩

end Agents

end ResiliencyExt.Foundation
