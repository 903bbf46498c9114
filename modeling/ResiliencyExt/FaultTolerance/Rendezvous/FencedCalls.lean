import Mathlib.Data.Fintype.Defs
import ResiliencyExt.FaultTolerance.Rendezvous.FencedWrite

set_option autoImplicit false

/-!
# Rendezvous: concurrent fenced writes to one reused key

Any number of `_round_fenced_compare_set` calls work on the same slot or rank
key.  Each round claims the key for one participant, so the calls have pairwise
different rounds.  An action is the call that makes its next store operation;
a list of actions is an interleaving.

The swap is tried once.  A call that has read the key and not yet swapped loses
to any write in between, and it reports the loss as benign only when that write
is of a newer round.  `NoOlderInstall` says that no older round writes in that
window; with it every call installs its value or finds a newer one.
-/

namespace ResiliencyExt.FaultTolerance.Rendezvous

open Foundation Function

/-- A reused key and the calls that work on it. -/
structure KeyState (Call : Type) where
  cell : Option Bytes
  phase : Call → FencedPhase
  /-- The contents of the key after each store operation so far. -/
  history : List (Option Bytes)

section Calls

variable {Call : Type} [DecidableEq Call] (desired : Call → RendezvousStoreValue)

/-- The calls on one key.  What the key holds at first was written in a round
that none of the calls belongs to. -/
def fencedCalls : System (KeyState Call) Call where
  init s :=
    (∀ call, s.phase call = fencedStart (.packed (desired call))) ∧
    (∀ content, s.cell = some content →
      ∀ call, storeValueRound content ≠ (desired call).round)
  step s call :=
    (fencedStep (.packed (desired call)) s.cell (s.phase call)).map fun next =>
      { cell := next.1
        phase := update s.phase call next.2
        history := next.1 :: s.history }

/-- No swap of an older round takes effect while a newer round's call stands
between its read and its swap. -/
def NoOlderInstall (s : KeyState Call) (call : Call) : Prop :=
  ∀ expected ∈ (s.phase call).expectation, Holds .empty s.cell expected →
    ∀ newer, (desired call).round < (desired newer).round →
      (s.phase newer).expectation = none

instance [Fintype Call] (s : KeyState Call) (call : Call) :
    Decidable (NoOlderInstall desired s call) :=
  inferInstanceAs (Decidable (∀ expected ∈ (s.phase call).expectation, _))

/-- A finished call installed its value, or a strictly newer round's value is
under the key; it did not end with a conflict. -/
def InstalledOrStale (s : KeyState Call) (call : Call) : Prop :=
  ∀ outcome, s.phase call = .done outcome →
    (outcome = .returned ∧ some (.packed (desired call)) ∈ s.history) ∨
    (∃ observed content, outcome = .stale observed (desired call).round ∧
      ((desired call).round : Int) < observed ∧
      s.cell = some content ∧ observed ≤ storeValueRound content)

variable {desired}

theorem fencedCalls_step {s t : KeyState Call} {call : Call}
    (h : (fencedCalls desired).step s call = some t) :
    ∃ cell phase,
      fencedStep (.packed (desired call)) s.cell (s.phase call) = some (cell, phase) ∧
      t = { cell := cell, phase := update s.phase call phase,
            history := cell :: s.history } := by
  obtain ⟨⟨cell, phase⟩, hstep, rfl⟩ := Option.map_eq_some_iff.mp h
  exact ⟨cell, phase, hstep, rfl⟩

/-! ## The invariant -/

/-- What the calls keep true of the key.  `pending` is the heart: a call that
stands before its swap either still expects the present content or has been
overtaken by a newer round. -/
structure FencedInvariant (desired : Call → RendezvousStoreValue)
    (s : KeyState Call) : Prop where
  present : ∀ call, s.phase call = .get → s.cell.isSome
  pending : ∀ call expected, s.phase call = .compareSet expected →
    storeValueRound expected ≤ (desired call).round ∧
    (Holds .empty s.cell expected ∨
      ∃ content, s.cell = some content ∧
        ((desired call).round : Int) < storeValueRound content)
  origin : ∀ content, s.cell = some content →
    (∀ call, storeValueRound content ≠ (desired call).round) ∨
    ∃ call, content = .packed (desired call)
  settled : ∀ call, InstalledOrStale desired s call

theorem fencedInvariant_init {s : KeyState Call} (h : (fencedCalls desired).init s) :
    FencedInvariant desired s := by
  obtain ⟨hstart, hround⟩ := h
  have hcheck : ∀ call, s.phase call = .check :=
    fun call => (hstart call).trans (fencedStart_packed (desired call))
  refine ⟨?_, ?_, fun content hcell => Or.inl (hround content hcell), ?_⟩
  · intro call h
    simp [hcheck call] at h
  · intro call expected h
    simp [hcheck call] at h
  · intro call outcome h
    simp [hcheck call] at h

/-- The content keeps its origin: an installed value belongs to its call. -/
theorem FencedInvariant.origin_step {s t : KeyState Call} {call : Call}
    (hinv : FencedInvariant desired s)
    (hstep : (fencedCalls desired).step s call = some t) :
    ∀ content, t.cell = some content →
      (∀ other, storeValueRound content ≠ (desired other).round) ∨
      ∃ other, content = .packed (desired other) := by
  obtain ⟨cell, phase, hcall, rfl⟩ := fencedCalls_step hstep
  rcases fencedStep_cell hcall with rfl | ⟨_, _, _, rfl, _⟩
  · exact hinv.origin
  · rintro content ⟨⟩
    exact Or.inr ⟨call, rfl⟩

/-- The key moves forward through the rounds. -/
theorem FencedInvariant.cellLE_step {s t : KeyState Call} {call : Call}
    (hinv : FencedInvariant desired s)
    (hstep : (fencedCalls desired).step s call = some t) :
    CellLE storeValueRound s.cell t.cell := by
  obtain ⟨cell, phase, hcall, rfl⟩ := fencedCalls_step hstep
  refine fencedStep_cellLE (fun expected h => ?_) hcall
  rw [storeValueRound_packed]
  exact (hinv.pending call expected h).1

omit [DecidableEq Call] in
/-- A call that read the key gets no same-round conflict: the key's content is
its own or of another round. -/
theorem FencedInvariant.afterGet {s : KeyState Call} {call : Call} {content : Bytes}
    {outcome : FencedOutcome}
    (hclaims : Injective fun call => (desired call).round)
    (hinv : FencedInvariant desired s) (hcell : s.cell = some content)
    (h : fencedAfterGet (.packed (desired call)) content = .done outcome) :
    outcome = .stale (storeValueRound content) (desired call).round ∧
      ((desired call).round : Int) < storeValueRound content := by
  unfold fencedAfterGet at h
  split at h
  · rename_i hlt
    simp only [FencedPhase.done.injEq] at h
    exact ⟨h.symm, hlt⟩
  · split at h
    · rename_i hsame
      exfalso
      rcases hinv.origin content hcell with hother | ⟨owner, rfl⟩
      · exact hother call hsame.1
      · have howner : owner = call := hclaims (Int.ofNat.inj hsame.1)
        exact hsame.2 (by rw [howner])
    · simp at h

omit [DecidableEq Call] in
/-- A call that made its swap installed its value or was overtaken. -/
theorem FencedInvariant.afterSwap {s : KeyState Call} {call : Call} {expected : Bytes}
    (hinv : FencedInvariant desired s) (hphase : s.phase call = .compareSet expected) :
    let swapped := compareSet Bytes.empty s.cell expected (.packed (desired call))
    (swapped.1 = some (.packed (desired call)) ∧
      fencedAfterSwap (.packed (desired call)) swapped.2 = .returned) ∨
    ∃ content, swapped.1 = some content ∧ s.cell = some content ∧
      ((desired call).round : Int) < storeValueRound content ∧
      fencedAfterSwap (.packed (desired call)) swapped.2 =
        .stale (storeValueRound content) (desired call).round := by
  obtain ⟨hle, hholds | ⟨content, hcell, hlt⟩⟩ := hinv.pending call expected hphase
  · left
    rw [compareSet_of_holds _ hholds]
    exact ⟨rfl, by simp [fencedAfterSwap]⟩
  · right
    have hexpected : content ≠ expected := by
      rintro rfl
      omega
    have hdesired : content ≠ .packed (desired call) := by
      rintro rfl
      simp only [storeValueRound_packed] at hlt
      omega
    have hswap : compareSet Bytes.empty s.cell expected (.packed (desired call)) =
        (some content, content) := by
      simp [hcell, compareSet, hexpected]
    refine ⟨content, ?_, hcell, hlt, ?_⟩
    · rw [hswap]
    · rw [hswap]
      simp [fencedAfterSwap, hdesired, hlt]

/-- The stepping call ends well. -/
theorem FencedInvariant.settled_self {s t : KeyState Call} {call : Call}
    (hclaims : Injective fun call => (desired call).round)
    (hinv : FencedInvariant desired s)
    (hstep : (fencedCalls desired).step s call = some t) :
    InstalledOrStale desired t call := by
  obtain ⟨cell, phase, hcall, rfl⟩ := fencedCalls_step hstep
  intro outcome hdone
  simp only [update_self] at hdone
  subst hdone
  rcases fencedStep_to_done hcall with
    ⟨_, content, hcell, rfl, hafter⟩ | ⟨expected, hphase, rfl, hafter⟩
  · obtain ⟨rfl, hlt⟩ := hinv.afterGet hclaims hcell hafter
    exact Or.inr ⟨_, content, rfl, hlt, hcell, Int.le_refl _⟩
  · rcases hinv.afterSwap hphase with ⟨hwritten, hret⟩ | ⟨content, hwritten, _, hlt, hstale⟩
    · refine Or.inl ⟨hafter.symm.trans hret, ?_⟩
      simp [hwritten]
    · refine Or.inr ⟨_, content, hafter.symm.trans hstale, hlt, hwritten, Int.le_refl _⟩

/-- What the other calls ended with stays justified. -/
theorem FencedInvariant.settled_other {s t : KeyState Call} {call other : Call}
    (hinv : FencedInvariant desired s)
    (hstep : (fencedCalls desired).step s call = some t) (hne : other ≠ call) :
    InstalledOrStale desired t other := by
  have hforward := hinv.cellLE_step hstep
  obtain ⟨cell, phase, hcall, rfl⟩ := fencedCalls_step hstep
  intro outcome hdone
  simp only [update_of_ne hne] at hdone
  rcases hinv.settled other outcome hdone with
    ⟨rfl, hmem⟩ | ⟨observed, content, rfl, hlt, hcell, hle⟩
  · exact Or.inl ⟨rfl, List.mem_cons_of_mem _ hmem⟩
  · obtain ⟨later, hlater, hle'⟩ := hforward content hcell
    exact Or.inr ⟨observed, later, rfl, hlt, hlater, Int.le_trans hle hle'⟩

/-- A call that waits before its swap keeps its expectation, or is overtaken by
a newer round.  This is where an older round must not write. -/
theorem FencedInvariant.pending_other {s t : KeyState Call} {call other : Call}
    {expected : Bytes}
    (hclaims : Injective fun call => (desired call).round)
    (hinv : FencedInvariant desired s) (hcond : NoOlderInstall desired s call)
    (hstep : (fencedCalls desired).step s call = some t) (hne : other ≠ call)
    (hphase : s.phase other = .compareSet expected) :
    Holds .empty t.cell expected ∨
      ∃ content, t.cell = some content ∧
        ((desired other).round : Int) < storeValueRound content := by
  obtain ⟨cell, phase, hcall, rfl⟩ := fencedCalls_step hstep
  rcases fencedStep_cell hcall with rfl | ⟨own, hown, hholds, rfl, _⟩
  · exact (hinv.pending other expected hphase).2
  · right
    have hnot : ¬ (desired call).round < (desired other).round := by
      intro hlt
      have hnone := hcond own (by simp [hown, FencedPhase.expectation]) hholds other hlt
      simp [hphase, FencedPhase.expectation] at hnone
    have hdistinct : (desired other).round ≠ (desired call).round :=
      fun heq => hne (hclaims heq)
    refine ⟨_, rfl, ?_⟩
    simp only [storeValueRound_packed]
    omega

/-- A call arrives before its swap expecting the present content. -/
theorem FencedInvariant.pending_self {s t : KeyState Call} {call : Call}
    {expected : Bytes} (hstep : (fencedCalls desired).step s call = some t)
    (hphase : t.phase call = .compareSet expected) :
    storeValueRound expected ≤ (desired call).round ∧ Holds .empty t.cell expected := by
  obtain ⟨cell, phase, hcall, rfl⟩ := fencedCalls_step hstep
  simp only [update_self] at hphase
  subst hphase
  obtain ⟨rfl, hholds, hle⟩ := fencedStep_to_compareSet (by simp) hcall
  exact ⟨by simpa using hle, hholds⟩

/-- A key that a call is about to read is present. -/
theorem FencedInvariant.present_step {s t : KeyState Call} {call other : Call}
    (hinv : FencedInvariant desired s)
    (hstep : (fencedCalls desired).step s call = some t)
    (hphase : t.phase other = .get) : t.cell.isSome := by
  by_cases hself : other = call
  · subst hself
    obtain ⟨cell, phase, hcall, rfl⟩ := fencedCalls_step hstep
    simp only [update_self] at hphase
    subst hphase
    obtain ⟨rfl, hsome⟩ := fencedStep_to_get hcall
    exact hsome
  · have hbefore : s.phase other = .get := by
      obtain ⟨cell, phase, _, rfl⟩ := fencedCalls_step hstep
      simpa only [update_of_ne hself] using hphase
    obtain ⟨content, hcell⟩ := Option.isSome_iff_exists.mp (hinv.present other hbefore)
    obtain ⟨later, hlater, _⟩ := hinv.cellLE_step hstep content hcell
    simp [hlater]

theorem fencedInvariant_step {s t : KeyState Call} {call : Call}
    (hclaims : Injective fun call => (desired call).round)
    (hinv : FencedInvariant desired s) (hcond : NoOlderInstall desired s call)
    (hstep : (fencedCalls desired).step s call = some t) :
    FencedInvariant desired t := by
  refine ⟨fun other => hinv.present_step hstep, ?_, hinv.origin_step hstep, ?_⟩
  · intro other expected hphase
    by_cases hself : other = call
    · subst hself
      obtain ⟨hle, hholds⟩ := FencedInvariant.pending_self hstep hphase
      exact ⟨hle, Or.inl hholds⟩
    · have hbefore : s.phase other = .compareSet expected := by
        obtain ⟨cell, phase, _, rfl⟩ := fencedCalls_step hstep
        simpa only [update_of_ne hself] using hphase
      exact ⟨(hinv.pending other expected hbefore).1,
        hinv.pending_other hclaims hcond hstep hself hbefore⟩
  · intro other
    by_cases hself : other = call
    · subst hself
      exact hinv.settled_self hclaims hstep
    · exact hinv.settled_other hstep hself

theorem fencedInvariant_reachable {s : KeyState Call}
    (hclaims : Injective fun call => (desired call).round)
    (hs : (fencedCalls desired).Reachable (NoOlderInstall desired) s) :
    FencedInvariant desired s :=
  hs.invariant (fun _ => fencedInvariant_init)
    (fun _ _ _ => fencedInvariant_step hclaims)

/-- A call that has not ended can take its next operation. -/
theorem FencedInvariant.enabled {s : KeyState Call} (hinv : FencedInvariant desired s)
    (call : Call) :
    (∃ outcome, s.phase call = .done outcome) ∨
      ((fencedCalls desired).step s call).isSome := by
  cases hphase : s.phase call with
  | check => exact Or.inr (by simp [fencedCalls, fencedStep, hphase])
  | get =>
    obtain ⟨content, hcell⟩ := Option.isSome_iff_exists.mp (hinv.present call hphase)
    exact Or.inr (by simp [fencedCalls, fencedStep, hphase, hcell])
  | compareSet expected => exact Or.inr (by simp [fencedCalls, fencedStep, hphase])
  | done outcome => exact Or.inl ⟨outcome, rfl⟩

/-! ## Every call installs its value or gives way to a newer one -/

/-- While no older round writes between a newer call's read and its swap, every
call ends by installing its value or by finding a strictly newer one, and a
call that has not ended is not blocked. -/
theorem fenced_calls_install_or_stale {s : KeyState Call}
    (hclaims : Injective fun call => (desired call).round)
    (hs : (fencedCalls desired).Reachable (NoOlderInstall desired) s) (call : Call) :
    InstalledOrStale desired s call ∧
      ((∃ outcome, s.phase call = .done outcome) ∨
        ((fencedCalls desired).step s call).isSome) :=
  have hinv := fencedInvariant_reachable hclaims hs
  ⟨hinv.settled call, hinv.enabled call⟩

end Calls

/-! ## Two calls of adjacent rounds -/

/-- The rank-key placeholders that joiners of rounds 1 and 2 write. -/
def adjacentRounds (newer : Bool) : RendezvousStoreValue :=
  packRankValue UNASSIGNED 0 (if newer then 2 else 1)

/-- The key as round 0 left it, before either call. -/
def afterRoundZero : KeyState Bool where
  cell := some (.packed (packRankValue 0 2 0))
  phase call := fencedStart (.packed (adjacentRounds call))
  history := []

theorem adjacentRounds_injective :
    Injective fun call => (adjacentRounds call).round := by
  decide

theorem afterRoundZero_init : (fencedCalls adjacentRounds).init afterRoundZero := by
  refine ⟨fun call => rfl, ?_⟩
  rintro content ⟨⟩
  decide

theorem fenced_calls_install_or_stale_adjacent :
    ∃ s, (s.phase false = .done .returned ∧ s.phase true = .done .returned) ∧
      InstalledOrStale adjacentRounds s true ∧
      ((∃ outcome, s.phase true = .done outcome) ∨
        ((fencedCalls adjacentRounds).step s true).isSome) := by
  have hrun : ((fencedCalls adjacentRounds).execute (NoOlderInstall adjacentRounds)
      afterRoundZero [false, false, true, false, true, true]).any (fun s =>
        s.phase false = .done .returned ∧ s.phase true = .done .returned) = true := by
    decide
  obtain ⟨s, hs, hdone⟩ := System.exists_reachable_of_execute afterRoundZero_init hrun
  exact ⟨s, by simpa using hdone,
    fenced_calls_install_or_stale adjacentRounds_injective hs true⟩

/-- The older call swaps between the newer call's `get` and its swap: the newer
round's join ends with the unexpected CAS conflict. -/
theorem older_round_fails_newer_join :
    (Injective fun call => (adjacentRounds call).round) ∧
    ∃ s, (fencedCalls adjacentRounds).Reachable (fun _ _ => True) s ∧
      s.phase false = .done .returned ∧ s.phase true = .done (.casConflict 2 1) ∧
      ¬ InstalledOrStale adjacentRounds s true := by
  refine ⟨adjacentRounds_injective, ?_⟩
  have hrun : ((fencedCalls adjacentRounds).execute (fun _ _ => True)
      afterRoundZero [false, false, true, true, false, true]).any (fun s =>
        s.phase false = .done .returned ∧ s.phase true = .done (.casConflict 2 1)) =
      true := by
    decide
  obtain ⟨s, hs, hdone⟩ := System.exists_reachable_of_execute afterRoundZero_init hrun
  simp only [Bool.decide_and, Bool.and_eq_true, decide_eq_true_eq] at hdone
  refine ⟨s, hs, hdone.1, hdone.2, fun hsettled => ?_⟩
  rcases hsettled _ hdone.2 with ⟨heq, _⟩ | ⟨_, _, heq, _⟩
  · simp at heq
  · simp at heq

end ResiliencyExt.FaultTolerance.Rendezvous
