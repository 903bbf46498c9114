set_option autoImplicit false

/-!
# Foundation: transition systems and their runs

A protocol is modelled as a set of initial states together with an executable
partial step: `step s a = some t` says that the agent named by the action `a`
can take its next atomic step in `s`, and that `t` is the state afterwards.
Every interleaving of the agents is a list of actions, so "for every
interleaving" is a quantifier over `Run`.

Both `Run` and `Reachable` carry a condition `C` on the state before each step.
A property of all runs takes `C := fun _ _ => True`; a property that needs the
environment to behave states what it needs in `C`, once, and the induction
hands the condition to every step lemma.
-/

namespace ResiliencyExt.Foundation

/-- A labelled transition system with an executable step. -/
structure System (State Action : Type) where
  /-- The states a run may begin in. -/
  init : State → Prop
  /-- One atomic step; `none` when the action is not enabled. -/
  step : State → Action → Option State

namespace System

variable {State Action : Type} (S : System State Action)

/-- A finite run along `actions` in which every step meets `C` beforehand. -/
inductive Run (C : State → Action → Prop) : State → List Action → State → Prop
  | nil (s : State) : Run C s [] s
  | cons {s t u : State} {a : Action} {actions : List Action}
      (hcond : C s a) (hstep : S.step s a = some t) (rest : Run C t actions u) :
      Run C s (a :: actions) u

/-- The states reached from an initial one by steps that all meet `C`. -/
inductive Reachable (C : State → Action → Prop) : State → Prop
  | init {s : State} (hinit : S.init s) : Reachable C s
  | step {s t : State} {a : Action} (hreach : Reachable C s) (hcond : C s a)
      (hstep : S.step s a = some t) : Reachable C t

variable {S}

/-- A property that holds initially and survives every conditioned step holds
of every reachable state. -/
theorem Reachable.invariant {C : State → Action → Prop} {P : State → Prop}
    (hinit : ∀ s, S.init s → P s)
    (hstep : ∀ s a t, P s → C s a → S.step s a = some t → P t)
    {s : State} (hs : S.Reachable C s) : P s := by
  induction hs with
  | init h => exact hinit _ h
  | step _ hcond hst ih => exact hstep _ _ _ ih hcond hst

/-- Weakening the condition reaches at least as many states. -/
theorem Reachable.mono {C D : State → Action → Prop} (h : ∀ s a, C s a → D s a)
    {s : State} (hs : S.Reachable C s) : S.Reachable D s := by
  induction hs with
  | init hi => exact .init hi
  | step _ hcond hst ih => exact .step ih (h _ _ hcond) hst

/-- A run that starts in a reachable state ends in one. -/
theorem Run.reachable {C : State → Action → Prop} {s t : State} {actions : List Action}
    (hrun : S.Run C s actions t) (hs : S.Reachable C s) : S.Reachable C t := by
  induction hrun with
  | nil _ => exact hs
  | cons hcond hst _ ih => exact ih (.step hs hcond hst)

/-- What every conditioned step preserves a whole run preserves. -/
theorem Run.invariant {C : State → Action → Prop} {P : State → Prop}
    (hstep : ∀ s a t, P s → C s a → S.step s a = some t → P t)
    {s t : State} {actions : List Action} (hrun : S.Run C s actions t) (hs : P s) : P t := by
  induction hrun with
  | nil _ => exact hs
  | cons hcond hst _ ih => exact ih (hstep _ _ _ hs hcond hst)

/-- A step-wise preorder between reachable states extends to whole runs. -/
theorem Run.monotone {C : State → Action → Prop} {R : State → State → Prop}
    (hrefl : ∀ s, R s s) (htrans : ∀ s t u, R s t → R t u → R s u)
    (hstep : ∀ s a t, S.Reachable C s → C s a → S.step s a = some t → R s t)
    {s t : State} {actions : List Action}
    (hs : S.Reachable C s) (hrun : S.Run C s actions t) : R s t := by
  induction hrun with
  | nil s => exact hrefl s
  | cons hcond hst _ ih =>
    exact htrans _ _ _ (hstep _ _ _ hs hcond hst) (ih (.step hs hcond hst))

/-- A number that every step makes smaller bounds the length of runs. -/
theorem Run.length_le {C : State → Action → Prop} {M : State → Nat}
    (hstep : ∀ s a t, S.step s a = some t → M t < M s)
    {s t : State} {actions : List Action} (hrun : S.Run C s actions t) :
    actions.length ≤ M s := by
  induction hrun with
  | nil _ => exact Nat.zero_le _
  | cons _ hst _ ih =>
    have hless := hstep _ _ _ hst
    rw [List.length_cons]
    omega

/-- Every run from the state along steps that meet `C` comes to a state with `P`, and it can
go on until then. -/
inductive Inevitable (S : System State Action) (C : State → Action → Prop)
    (P : State → Prop) : State → Prop
  | now {s : State} (hnow : P s) : Inevitable S C P s
  | later {s : State} (hgoes : ∃ a t, C s a ∧ S.step s a = some t)
      (hall : ∀ a t, C s a → S.step s a = some t → Inevitable S C P t) :
      Inevitable S C P s

/-- An invariant leads to `P` when it leaves no state without a step and every step either
reaches `P` or keeps the invariant and makes a number smaller. -/
theorem Inevitable.of_measure {C : State → Action → Prop} {I P : State → Prop} (M : State → Nat)
    (hgoes : ∀ s, I s → ∃ a t, C s a ∧ S.step s a = some t)
    (hstep : ∀ s a t, I s → C s a → S.step s a = some t → P t ∨ I t ∧ M t < M s)
    {s : State} (hs : I s) : S.Inevitable C P s := by
  induction hM : M s using Nat.strongRecOn generalizing s with
  | _ k ih =>
    refine .later (hgoes s hs) fun a t hcond hst => ?_
    rcases hstep s a t hs hcond hst with hdone | ⟨ht, hless⟩
    · exact .now hdone
    · exact ih (M t) (hM ▸ hless) ht rfl

/-- What leads to `P` leads to what follows from it. -/
theorem Inevitable.mono {C : State → Action → Prop} {P Q : State → Prop} (h : ∀ s, P s → Q s)
    {s : State} (hs : S.Inevitable C P s) : S.Inevitable C Q s := by
  induction hs with
  | now hnow => exact .now (h _ hnow)
  | later hgoes _ ih => exact .later hgoes ih

/-- Run a list of actions, checking the condition before each of them. -/
def execute (S : System State Action) (C : State → Action → Prop)
    [∀ s a, Decidable (C s a)] : State → List Action → Option State
  | s, [] => some s
  | s, a :: actions =>
    if C s a then (S.step s a).bind fun t => execute S C t actions else none

/-- What `execute` computes is a run. -/
theorem run_of_execute {C : State → Action → Prop} [∀ s a, Decidable (C s a)] :
    ∀ {actions : List Action} {s t : State},
      S.execute C s actions = some t → S.Run C s actions t := by
  intro actions
  induction actions with
  | nil =>
    intro s t h
    simp only [execute, Option.some.injEq] at h
    exact h ▸ .nil s
  | cons a actions ih =>
    intro s t h
    simp only [execute] at h
    split at h
    · rename_i hcond
      obtain ⟨u, hstep, hrest⟩ := Option.bind_eq_some_iff.mp h
      exact .cons hcond hstep (ih hrest)
    · simp at h

/-- An executed run from an initial state ends in a reachable one. -/
theorem reachable_of_execute {C : State → Action → Prop} [∀ s a, Decidable (C s a)]
    {actions : List Action} {s t : State} (hinit : S.init s)
    (h : S.execute C s actions = some t) : S.Reachable C t :=
  (run_of_execute h).reachable (.init hinit)

/-- A test that the executed run passes holds in some reachable state. -/
theorem exists_reachable_of_execute {C : State → Action → Prop}
    [∀ s a, Decidable (C s a)] {actions : List Action} {s : State} {test : State → Bool}
    (hinit : S.init s) (h : (S.execute C s actions).any test = true) :
    ∃ t, S.Reachable C t ∧ test t = true := by
  cases hrun : S.execute C s actions with
  | none => simp [hrun] at h
  | some t => exact ⟨t, reachable_of_execute hinit hrun, by simpa [hrun] using h⟩

end System

end ResiliencyExt.Foundation
