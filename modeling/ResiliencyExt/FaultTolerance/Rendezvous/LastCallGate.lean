import Mathlib.Algebra.Order.Ring.Rat
import Mathlib.Data.List.Sort
import ResiliencyExt.FaultTolerance.Rendezvous.StoreValue
import ResiliencyExt.Foundation.Dict

set_option autoImplicit false

/-!
# Rendezvous: the last call for previous active nodes

In a restart round the host delays the close while nodes of the previous active set may
still rejoin.  `_PreviousActiveLastCallGate` waits for all of them but those of unhealthy
replacement groups, and no longer than one timeout after it first missed one.  Times are
exact numbers.
-/

namespace ResiliencyExt.FaultTolerance.Rendezvous

open Foundation List

/-- `_CloseRoundDecision` -/
structure CloseRoundDecision where
  shouldClose : Bool
  missingPreviousActive : List Int
  lastCallDeadline : Option ℚ
  deriving DecidableEq

/-- `Dict[int, Optional[str]]`: the replacement groups of the active nodes of a round, by their
infrastructure ranks. -/
structure PreviousActive where
  groups : Dict Int (Option String)
  nonneg : ∀ rank ∈ groups.keys, 0 ≤ rank

namespace PreviousActive

def empty : PreviousActive where
  groups := .empty
  nonneg _ h := nomatch h

def insert (active : PreviousActive) (rank : Int) (hrank : 0 ≤ rank) (group : Option String) :
    PreviousActive where
  groups := active.groups.set rank group
  nonneg k hk := by
    rcases Dict.mem_keys_set.mp hk with rfl | hold
    · exact hrank
    · exact active.nonneg k hold

end PreviousActive

structure PreviousActiveLastCallGate where
  previousActive : PreviousActive
  timeoutSeconds : ℚ
  enabled : Bool
  deadline : Option ℚ

/-- The arguments of a call of `evaluate`. -/
structure GateCall where
  participants : List Participant
  now : ℚ
  unhealthyReplacementGroups : List String

namespace PreviousActiveLastCallGate

/-- `__init__` -/
def create (previousActive : Option PreviousActive) (timeoutSeconds : ℚ) (enabled : Bool) :
    PreviousActiveLastCallGate where
  previousActive := previousActive.getD .empty
  timeoutSeconds := timeoutSeconds
  enabled := enabled && (previousActive.getD .empty).groups.keys ≠ [] && 0 < timeoutSeconds
  deadline := none

/-- `current_infra_ranks` -/
def currentInfraRanks (participants : List Participant) : List Int :=
  (participants.map Participant.infraRank).filter fun rank => 0 ≤ rank

/-- `expected_previous_active` -/
def expectedPreviousActive (previousActive : PreviousActive) (unhealthyGroups : List String) :
    List Int :=
  (previousActive.groups.entries.filter fun e => e.2.all fun group => group ∉ unhealthyGroups).map
    Prod.fst

/-- `missing` -/
def missing (previousActive : PreviousActive) (call : GateCall) : List Int :=
  ((expectedPreviousActive previousActive call.unhealthyReplacementGroups).filter
    fun rank => rank ∉ currentInfraRanks call.participants).insertionSort (· ≤ ·)

/-- `evaluate` -/
def evaluate (gate : PreviousActiveLastCallGate) (call : GateCall) :
    CloseRoundDecision × PreviousActiveLastCallGate :=
  if gate.enabled = false then (⟨true, [], none⟩, gate)
  else
    let missing := missing gate.previousActive call
    if missing = [] then (⟨true, [], none⟩, gate)
    else
      let deadline := gate.deadline.getD (call.now + gate.timeoutSeconds)
      (⟨deadline ≤ call.now, missing, some deadline⟩, { gate with deadline := some deadline })

/-- The gate after calls. -/
def after (gate : PreviousActiveLastCallGate) (calls : List GateCall) :
    PreviousActiveLastCallGate :=
  calls.foldl (fun gate call => (gate.evaluate call).2) gate

/-- The call after other calls closes the round. -/
def closes (gate : PreviousActiveLastCallGate) (before : List GateCall) (call : GateCall) : Bool :=
  ((gate.after before).evaluate call).1.shouldClose

end PreviousActiveLastCallGate

/-- A previous active node that is not of an unhealthy replacement group is absent. -/
def Awaits (previousActive : PreviousActive) (call : GateCall) : Prop :=
  ∃ rank group, previousActive.groups.get? rank = some group ∧
    (∀ id, group = some id → id ∉ call.unhealthyReplacementGroups) ∧
    ∀ p ∈ call.participants, p.infraRank ≠ rank

namespace PreviousActiveLastCallGate

theorem missing_eq_nil_iff (previousActive : PreviousActive) (call : GateCall) :
    missing previousActive call = [] ↔ ¬ Awaits previousActive call := by
  have hsort : missing previousActive call = [] ↔
      (expectedPreviousActive previousActive call.unhealthyReplacementGroups).filter
        (fun rank => rank ∉ currentInfraRanks call.participants) = [] := by
    rw [← length_eq_zero_iff, missing, length_insertionSort, length_eq_zero_iff]
  rw [hsort, filter_eq_nil_iff]
  constructor
  · rintro hnone ⟨rank, group, hget, hhealthy, habsent⟩
    refine hnone rank ?_ ?_
    · refine mem_map.mpr ⟨(rank, group), mem_filter.mpr ⟨Dict.mem_of_get?_eq_some hget, ?_⟩,
        rfl⟩
      cases group with
      | none => rfl
      | some id => exact decide_eq_true (hhealthy id rfl)
    · refine decide_eq_true fun hpresent => ?_
      obtain ⟨p, hp, hrank⟩ := mem_map.mp (mem_filter.mp hpresent).1
      exact habsent p hp hrank
  · intro hnot rank hrank hmissing
    obtain ⟨⟨_, group⟩, he, rfl⟩ := mem_map.mp hrank
    obtain ⟨hmem, hhealthy⟩ := mem_filter.mp he
    have hget := Dict.get?_eq_some_of_mem hmem
    refine hnot ⟨_, group, hget, ?_, fun p hp heq => ?_⟩
    · rintro id rfl
      exact of_decide_eq_true hhealthy
    · refine of_decide_eq_true hmissing (mem_filter.mpr ⟨?_, ?_⟩)
      · exact mem_map.mpr ⟨p, hp, heq⟩
      · exact decide_eq_true (previousActive.nonneg _ (Dict.mem_keys_of_get? hget))

instance (previousActive : PreviousActive) (call : GateCall) :
    Decidable (Awaits previousActive call) :=
  decidable_of_iff _ ((not_congr (missing_eq_nil_iff previousActive call)).trans not_not)

variable (gate : PreviousActiveLastCallGate) (call : GateCall)

/-- The first call that misses a node sets the deadline. -/
theorem evaluate_snd : (gate.evaluate call).2 =
    if gate.enabled = true ∧ Awaits gate.previousActive call then
      { gate with deadline := some (gate.deadline.getD (call.now + gate.timeoutSeconds)) }
    else gate := by
  unfold evaluate
  cases henabled : gate.enabled with
  | false => simp
  | true =>
    by_cases hawaits : Awaits gate.previousActive call
    · simp [missing_eq_nil_iff, hawaits]
    · simp [(missing_eq_nil_iff gate.previousActive call).mpr hawaits, hawaits]

theorem evaluate_shouldClose : (gate.evaluate call).1.shouldClose = false ↔
    gate.enabled = true ∧ Awaits gate.previousActive call ∧
      call.now < gate.deadline.getD (call.now + gate.timeoutSeconds) := by
  unfold evaluate
  cases henabled : gate.enabled with
  | false => simp
  | true =>
    by_cases hawaits : Awaits gate.previousActive call
    · simp [missing_eq_nil_iff, hawaits]
    · simp [(missing_eq_nil_iff gate.previousActive call).mpr hawaits, hawaits]

/-- The calls leave the deadline that the first of them to miss a node has set. -/
theorem after_eq (henabled : gate.enabled = true) (calls : List GateCall) :
    gate.after calls = { gate with
      deadline := gate.deadline.or ((calls.find? fun c => Awaits gate.previousActive c).map
        fun first => first.now + gate.timeoutSeconds) } := by
  induction calls generalizing gate with
  | nil => simp [after]
  | cons call calls ih =>
    change (gate.evaluate call).2.after calls = _
    rw [evaluate_snd]
    by_cases hawaits : Awaits gate.previousActive call
    · rw [if_pos ⟨henabled, hawaits⟩, find?_cons_of_pos (by simpa)]
      refine (ih { gate with deadline := some _ } henabled).trans ?_
      cases gate.deadline <;> rfl
    · rw [if_neg fun h => hawaits h.2, ih gate henabled, find?_cons_of_neg (by simpa)]

/-- The calls of a disabled gate change nothing. -/
theorem after_of_disabled (henabled : gate.enabled = false) (calls : List GateCall) :
    gate.after calls = gate := by
  induction calls with
  | nil => rfl
  | cons call calls ih =>
    change (gate.evaluate call).2.after calls = _
    rw [evaluate_snd, henabled, if_neg fun h => Bool.false_ne_true h.1]
    exact ih

variable {gate call}

/-- A gate without a deadline refuses to close while the first call that missed a node is less than
one timeout ago. -/
theorem closes_eq_false_iff (hdeadline : gate.deadline = none) (before : List GateCall) :
    gate.closes before call = false ↔ gate.enabled = true ∧ Awaits gate.previousActive call ∧
      ∃ first, (before ++ [call]).find? (fun c => Awaits gate.previousActive c) = some first ∧
        call.now - first.now < gate.timeoutSeconds := by
  unfold closes
  cases henabled : gate.enabled with
  | false =>
    rw [after_of_disabled gate henabled, evaluate_shouldClose, henabled]
    exact iff_of_false (fun h => Bool.false_ne_true h.1) fun h => Bool.false_ne_true h.1
  | true =>
    rw [evaluate_shouldClose, after_eq gate henabled, hdeadline, Option.none_or, henabled,
      find?_append]
    refine and_congr_right fun _ => and_congr_right fun hawaits => ?_
    rw [find?_cons_of_pos (by simpa)]
    cases before.find? (fun c => Awaits gate.previousActive c) with
    | none => simp
    | some first => simp [sub_lt_iff_lt_add']

end PreviousActiveLastCallGate

open PreviousActiveLastCallGate in
/-- A call refuses to close the round exactly when a node is awaited and the first call that
missed one is less than one timeout ago; so no two calls that refuse are a timeout apart. -/
theorem gate_refuses_iff (previousActive : PreviousActive) {timeoutSeconds : ℚ}
    (htimeout : 0 < timeoutSeconds) (enabled : Bool) {calls : List GateCall}
    (htimes : calls.Pairwise fun c d => c.now ≤ d.now) :
    (∀ before call later, calls = before ++ call :: later →
      ((create (some previousActive) timeoutSeconds enabled).closes before call = false ↔
        enabled = true ∧ Awaits previousActive call ∧
          ∃ first, (before ++ [call]).find? (fun c => Awaits previousActive c) = some first ∧
            call.now - first.now < timeoutSeconds)) ∧
    ∀ before first between call later, calls = before ++ first :: (between ++ call :: later) →
      (create (some previousActive) timeoutSeconds enabled).closes before first = false →
      (create (some previousActive) timeoutSeconds enabled).closes
          (before ++ first :: between) call = false →
        call.now - first.now < timeoutSeconds := by
  have hrefuses : ∀ before call,
      (create (some previousActive) timeoutSeconds enabled).closes before call = false ↔
        enabled = true ∧ Awaits previousActive call ∧
          ∃ first, (before ++ [call]).find? (fun c => Awaits previousActive c) = some first ∧
            call.now - first.now < timeoutSeconds := by
    intro before call
    rw [closes_eq_false_iff rfl]
    refine ⟨fun ⟨henabled, hrest⟩ => ⟨?_, hrest⟩, fun ⟨henabled, hawaits, hrest⟩ =>
      ⟨?_, hawaits, hrest⟩⟩
    · exact (Bool.and_eq_true _ _ ▸ (Bool.and_eq_true _ _ ▸ henabled).1).1
    · obtain ⟨rank, group, hget, -⟩ := hawaits
      have hkeys : previousActive.groups.keys ≠ [] :=
        ne_nil_of_mem (Dict.mem_keys_of_get? hget)
      simp [create, henabled, hkeys, htimeout]
  refine ⟨fun before call later _ => hrefuses before call, ?_⟩
  rintro before first between call later rfl hfirst hcall
  obtain ⟨-, -, start, hstart, -⟩ := (hrefuses _ _).mp hfirst
  obtain ⟨-, -, start', hstart', hlt⟩ := (hrefuses _ _).mp hcall
  -- both calls look back to the same first call
  obtain rfl : start = start' := by
    have hsplit : before ++ first :: between ++ [call] =
        (before ++ [first]) ++ (between ++ [call]) := by simp
    rw [hsplit, find?_append, hstart, Option.some_or] at hstart'
    exact Option.some.inj hstart'
  have hle : start.now ≤ first.now := by
    rcases mem_append.mp (mem_of_find?_eq_some hstart) with hmem | hmem
    · exact (pairwise_append.mp htimes).2.2 start hmem first mem_cons_self
    · rw [mem_singleton.mp hmem]
  exact (sub_le_sub_left hle call.now).trans_lt hlt

/-- One previous active node. -/
def lonePreviousActive : PreviousActive :=
  PreviousActive.empty.insert 3 (Int.natCast_nonneg 3) none

/-- A call before any node has joined. -/
def emptyCall (now : ℚ) : GateCall :=
  ⟨[], now, []⟩

open PreviousActiveLastCallGate in
theorem gate_refuses_iff_lone :
    (create (some lonePreviousActive) 10 true).closes [emptyCall 5] (emptyCall 14) = false ∧
    ((create (some lonePreviousActive) 10 true).closes [emptyCall 5] (emptyCall 14) = false ↔
      true = true ∧ Awaits lonePreviousActive (emptyCall 14) ∧
        ∃ first, ([emptyCall 5] ++ [emptyCall 14]).find?
            (fun c => Awaits lonePreviousActive c) = some first ∧
          (emptyCall 14).now - first.now < 10) := by
  have htimes : [emptyCall 5, emptyCall 14].Pairwise fun c d => c.now ≤ d.now :=
    pairwise_pair.mpr (by decide +kernel)
  exact ⟨by decide +kernel, (gate_refuses_iff lonePreviousActive (by decide +kernel) true htimes).1
    [emptyCall 5] (emptyCall 14) [] rfl⟩

end ResiliencyExt.FaultTolerance.Rendezvous
