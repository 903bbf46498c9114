import Mathlib.Logic.Function.Basic
import ResiliencyExt.Foundation.System
import ResiliencyExt.Foundation.Register
import ResiliencyExt.FaultTolerance.Rendezvous.StoreValue

set_option autoImplicit false

/-!
# Rendezvous: the round-fenced compare-and-set

`_round_fenced_compare_set` publishes a value under a reused key with up to
three store operations: `check`, `get` and one `compare_set`.  Other launchers
run between any two of them, so a call is a small state machine that takes one
store operation per step.  The second half puts any number of such calls on one
key and studies every interleaving of their steps.
-/

namespace ResiliencyExt.FaultTolerance.Rendezvous

open Foundation
open Option (map_eq_some_iff some)

/-- How a `_round_fenced_compare_set` call ends. -/
inductive FencedOutcome where
  | returned
  /-- `ValueError`: the desired value is not round-fenced. -/
  | notFenced
  /-- `_StaleRendezvousRoundError(observed_round, attempted_round)`. -/
  | stale (observedRound attemptedRound : Int)
  /-- `RuntimeError`: unexpected same-round write conflict. -/
  | sameRoundConflict (desiredRound : Int)
  /-- `RuntimeError`: unexpected CAS conflict. -/
  | casConflict (desiredRound observedRound : Int)
  deriving DecidableEq, Repr

/-- The next store operation of a call, or how it ended. -/
inductive FencedPhase where
  | check
  | get
  | compareSet (expected : Bytes)
  | done (outcome : FencedOutcome)
  deriving DecidableEq, Repr

/-- What a call that has read the key and not yet tried its swap expects. -/
def FencedPhase.expectation : FencedPhase → Option Bytes
  | .compareSet expected => some expected
  | _ => none

/-- The call before its first store operation. -/
def fencedStart (desired : Bytes) : FencedPhase :=
  if storeValueRound desired < 0 then .done .notFenced else .check

/-- What the call does with the bytes it got for a present key. -/
def fencedAfterGet (desired current : Bytes) : FencedPhase :=
  if storeValueRound desired < storeValueRound current then
    .done (.stale (storeValueRound current) (storeValueRound desired))
  else if storeValueRound current = storeValueRound desired ∧ current ≠ desired then
    .done (.sameRoundConflict (storeValueRound desired))
  else .compareSet current

/-- What the call does with the bytes `compare_set` returned. -/
def fencedAfterSwap (desired result : Bytes) : FencedOutcome :=
  if result = desired then .returned
  else if storeValueRound desired < storeValueRound result then
    .stale (storeValueRound result) (storeValueRound desired)
  else .casConflict (storeValueRound desired) (storeValueRound result)

/-- One store operation of the call: the key's content and the phase after it.
`get` blocks while the key is absent. -/
def fencedStep (desired : Bytes) (cell : Option Bytes) :
    FencedPhase → Option (Option Bytes × FencedPhase)
  | .check => some (cell, if cell.isSome then .get else .compareSet .empty)
  | .get => cell.map fun current => (cell, fencedAfterGet desired current)
  | .compareSet expected =>
    let swapped := compareSet Bytes.empty cell expected desired
    some (swapped.1, .done (fencedAfterSwap desired swapped.2))
  | .done _ => none

/-! ## What one operation can do -/

variable {desired : Bytes} {cell cell' : Option Bytes} {phase : FencedPhase}

theorem fencedStart_packed (value : RendezvousStoreValue) :
    fencedStart (.packed value) = .check := by
  have h : ¬ storeValueRound (.packed value) < 0 := by simp
  simp only [fencedStart, if_neg h]

/-- Only the swap writes, and it writes the desired value over the expected
one. -/
theorem fencedStep_cell {phase' : FencedPhase}
    (h : fencedStep desired cell phase = some (cell', phase')) :
    cell' = cell ∨
      ∃ expected, phase = .compareSet expected ∧ Holds .empty cell expected ∧
        cell' = some desired ∧ phase' = .done .returned := by
  cases phase with
  | check =>
    simp only [fencedStep, some.injEq, Prod.mk.injEq] at h
    exact Or.inl h.1.symm
  | get =>
    obtain ⟨current, _, heq⟩ := map_eq_some_iff.mp h
    simp only [Prod.mk.injEq] at heq
    exact Or.inl heq.1.symm
  | compareSet expected =>
    simp only [fencedStep, some.injEq, Prod.mk.injEq] at h
    by_cases hholds : Holds .empty cell expected
    · rw [compareSet_of_holds desired hholds] at h
      refine Or.inr ⟨expected, rfl, hholds, h.1.symm, ?_⟩
      rw [← h.2]
      simp [fencedAfterSwap]
    · rw [compareSet_fst_of_not_holds desired hholds] at h
      exact Or.inl h.1.symm
  | done outcome => simp [fencedStep] at h

/-- A call reaches its swap only with an expectation that is the key's present
content and is no newer than the desired value. -/
theorem fencedStep_to_compareSet {expected : Bytes} (hfenced : 0 ≤ storeValueRound desired)
    (h : fencedStep desired cell phase = some (cell', .compareSet expected)) :
    cell' = cell ∧ Holds .empty cell expected ∧
      storeValueRound expected ≤ storeValueRound desired := by
  cases phase with
  | check =>
    simp only [fencedStep, some.injEq, Prod.mk.injEq] at h
    obtain ⟨rfl, hphase⟩ := h
    cases cell with
    | some current => simp at hphase
    | none =>
      simp only [Option.isSome_none, Bool.false_eq_true, if_false,
        FencedPhase.compareSet.injEq] at hphase
      subst hphase
      exact ⟨rfl, Or.inr ⟨rfl, rfl⟩, by simp only [storeValueRound_empty]; omega⟩
  | get =>
    obtain ⟨current, hcell, heq⟩ := map_eq_some_iff.mp h
    simp only [Prod.mk.injEq] at heq
    obtain ⟨rfl, hphase⟩ := heq
    unfold fencedAfterGet at hphase
    split at hphase
    · simp at hphase
    · rename_i hle
      split at hphase
      · simp at hphase
      · simp only [FencedPhase.compareSet.injEq] at hphase
        subst hphase
        exact ⟨rfl, Or.inl hcell, by omega⟩
  | compareSet _ => simp [fencedStep] at h
  | done _ => simp [fencedStep] at h

/-- A call reaches its `get` only when the key is present. -/
theorem fencedStep_to_get (h : fencedStep desired cell phase = some (cell', .get)) :
    cell' = cell ∧ cell.isSome := by
  cases phase with
  | check =>
    simp only [fencedStep, some.injEq, Prod.mk.injEq] at h
    obtain ⟨rfl, hphase⟩ := h
    cases cell with
    | some current => simp
    | none => simp at hphase
  | get =>
    obtain ⟨current, _, heq⟩ := map_eq_some_iff.mp h
    simp only [Prod.mk.injEq, fencedAfterGet] at heq
    obtain ⟨_, hphase⟩ := heq
    split at hphase
    · simp at hphase
    · split at hphase <;> simp at hphase
  | compareSet _ => simp [fencedStep] at h
  | done _ => simp [fencedStep] at h

/-- How a call can end, and what the key held when it did. -/
theorem fencedStep_to_done {outcome : FencedOutcome}
    (h : fencedStep desired cell phase = some (cell', .done outcome)) :
    (phase = .get ∧ ∃ current, cell = some current ∧ cell' = cell ∧
      fencedAfterGet desired current = .done outcome) ∨
    (∃ expected, phase = .compareSet expected ∧
      cell' = (compareSet Bytes.empty cell expected desired).1 ∧
      fencedAfterSwap desired (compareSet Bytes.empty cell expected desired).2 =
        outcome) := by
  cases phase with
  | check =>
    simp only [fencedStep, some.injEq, Prod.mk.injEq] at h
    obtain ⟨_, hphase⟩ := h
    split at hphase <;> simp at hphase
  | get =>
    obtain ⟨current, hcell, heq⟩ := map_eq_some_iff.mp h
    simp only [Prod.mk.injEq] at heq
    exact Or.inl ⟨rfl, current, hcell, heq.1.symm, heq.2⟩
  | compareSet expected =>
    simp only [fencedStep, some.injEq, Prod.mk.injEq,
      FencedPhase.done.injEq] at h
    exact Or.inr ⟨expected, rfl, h.1.symm, h.2⟩
  | done _ => simp [fencedStep] at h

/-- The embedded round of the key never decreases. -/
theorem fencedStep_cellLE {phase' : FencedPhase}
    (hexpected : ∀ expected, phase = .compareSet expected →
      storeValueRound expected ≤ storeValueRound desired)
    (h : fencedStep desired cell phase = some (cell', phase')) :
    CellLE storeValueRound cell cell' := by
  rcases fencedStep_cell h with rfl | ⟨expected, hphase, hholds, rfl, _⟩
  · exact CellLE.refl storeValueRound cell'
  · have hle : CellLE storeValueRound cell
        (compareSet Bytes.empty cell expected desired).1 :=
      compareSet_cellLE (hexpected expected hphase)
    rwa [compareSet_of_holds desired hholds] at hle

end ResiliencyExt.FaultTolerance.Rendezvous
