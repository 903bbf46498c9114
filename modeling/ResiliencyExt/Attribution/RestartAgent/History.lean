import ResiliencyExt.Attribution.RestartAgent.AttemptRecords

set_option autoImplicit false

/-!
# Restart agent: comparison with the earlier attempts

`evaluate_history` of `l3/history.py`.  The current attempt is compared with every
earlier record in view by the progress both made, and two streaks are counted from
the newest record back: the records with the same root and no advance, and those
that also failed on the same entity.

A view in which every record recurs (`Recurs`) makes the first streak as long as
the view, and no advance is seen in it.  The counts of ranks, nodes and failure
positions, which only a trace shows, are left out of the summary.
-/

namespace ResiliencyExt.Attribution.RestartAgent

open List

inductive HistoryProgressRelation where
  | advanced
  | same
  | regressed
  | unknown
deriving DecidableEq, Repr

inductive AffectedEntityRelation where
  | same
  | different
  | unknown
deriving DecidableEq, Repr

structure HistoryDimensionComparison where
  dimension : String
  priorObservationStatus : ObservationStatus
  currentObservationStatus : ObservationStatus
  priorValue : Option Int
  currentValue : Option Int
  delta : Option Int
  relation : HistoryProgressRelation
deriving DecidableEq, Repr

structure HistoryProgressComparison where
  priorCycleId : Int
  selectedBasis : String
  dimensionComparisons : List HistoryDimensionComparison
  positiveProgressConflict : Bool
  relation : HistoryProgressRelation
  priorFaultOutcome : Option FaultOutcome
  affectedEntityRelation : AffectedEntityRelation
deriving DecidableEq, Repr

structure HistorySummary where
  available : Bool
  availabilityReason : String
  sameJobAttempts : Nat := 0
  matchingRootAttempts : Nat := 0
  comparisons : List HistoryProgressComparison := []
  observedAdvanceAttempts : Nat := 0
  sameProgressAttempts : Nat := 0
  regressedProgressAttempts : Nat := 0
  unknownProgressAttempts : Nat := 0
  noObservedAdvanceAttempts : Nat := 0
  sameEntityAttempts : Nat := 0
  differentEntityAttempts : Nat := 0
  unknownEntityAttempts : Nat := 0
  consecutiveSameRootNoAdvanceAttempts : Nat := 0
  consecutiveSameRootAndEntityNoAdvanceAttempts : Nat := 0
  advancedBeyondAllComparableAttempts : Bool := false
  advancedBeyondAllSameEntityComparableAttempts : Bool := false
deriving DecidableEq, Repr

/-! ## Progress of two attempts -/

/-- `_relation_from_delta` -/
def relationFromDelta (delta : Int) : HistoryProgressRelation :=
  if 0 < delta then .advanced else if delta < 0 then .regressed else .same

/-- `_dimension_comparison` -/
def dimensionComparison (dimension : String) (priorStatus currentStatus : ObservationStatus)
    (priorValue currentValue : Option Int) : HistoryDimensionComparison :=
  let outcome : Option Int × HistoryProgressRelation :=
    if priorStatus = .unknown ∨ currentStatus = .unknown then (none, .unknown)
    else if currentStatus = .observed ∧ priorStatus = .notObserved then (none, .advanced)
    else if currentStatus = .notObserved ∧ priorStatus = .observed then (none, .regressed)
    else if currentStatus = .notObserved ∧ priorStatus = .notObserved then (none, .same)
    else
      match priorValue, currentValue with
      | some prior, some current => (some (current - prior), relationFromDelta (current - prior))
      | _, _ => (none, .unknown)
  { dimension := dimension
    priorObservationStatus := priorStatus
    currentObservationStatus := currentStatus
    priorValue := priorValue
    currentValue := currentValue
    delta := outcome.1
    relation := outcome.2 }

/-- `_positive_progress_dimensions` -/
def positiveProgressDimensions (current prior : AttemptProgressSummary) :
    List HistoryDimensionComparison :=
  let known : ObservationStatus → ObservationStatus → HistoryDimensionComparison →
      List HistoryDimensionComparison := fun priorStatus currentStatus comparison =>
    if priorStatus ≠ .unknown ∨ currentStatus ≠ .unknown then [comparison] else []
  known prior.trainingProgress current.trainingProgress
      (dimensionComparison "completed_step" prior.trainingProgress current.trainingProgress
        prior.lastCompletedStep current.lastCompletedStep) ++
    known prior.checkpointProgress current.checkpointProgress
      (dimensionComparison "checkpoint_step" prior.checkpointProgress
        current.checkpointProgress prior.lastCheckpointStep current.lastCheckpointStep)

/-- `_failure_iteration_dimension` -/
def failureIterationDimension (currentValue priorValue : Option Int) :
    HistoryDimensionComparison :=
  let delta : Option Int :=
    match currentValue, priorValue with
    | some current, some prior => some (current - prior)
    | _, _ => none
  { dimension := "failure_iteration"
    priorObservationStatus := if priorValue.isSome then .observed else .unknown
    currentObservationStatus := if currentValue.isSome then .observed else .unknown
    priorValue := priorValue
    currentValue := currentValue
    delta := delta
    relation :=
      match delta with
      | some delta => relationFromDelta delta
      | none => .unknown }

/-- `_combine_positive_dimensions` -/
def combinePositiveDimensions (dimensions : List HistoryDimensionComparison) :
    HistoryProgressRelation × Bool :=
  let relations := dimensions.map HistoryDimensionComparison.relation
  if .advanced ∈ relations ∧ .regressed ∈ relations then (.unknown, true)
  else if .advanced ∈ relations then (.advanced, false)
  else if .regressed ∈ relations then (.regressed, false)
  else if .same ∈ relations then (.same, false)
  else (.unknown, false)

/-- `_selected_basis` -/
def selectedBasis (dimensions : List HistoryDimensionComparison) : String :=
  let names := (dimensions.filter fun item => item.relation ≠ .unknown).map
    HistoryDimensionComparison.dimension
  if "completed_step" ∈ names ∧ "checkpoint_step" ∈ names then
    "completed_step_and_checkpoint_step"
  else if "completed_step" ∈ names then "completed_step"
  else if "checkpoint_step" ∈ names then "checkpoint_step"
  else "none"

/-- `_affected_entity_relation` -/
def affectedEntityRelation (current prior : AttemptFailureFacts) : AffectedEntityRelation :=
  match current.affectedEntity, prior.affectedEntity with
  | some current, some prior =>
    if current.kind = prior.kind ∧ current.fingerprint = prior.fingerprint then .same
    else .different
  | _, _ => .unknown

/-- `_compare_progress` -/
def compareProgress (currentRecord : AttemptRecord) (currentFacts : AttemptFailureFacts)
    (priorRecord : AttemptRecord) : HistoryProgressComparison :=
  let priorFacts := priorRecord.deterministic
  let dimensions := positiveProgressDimensions currentRecord.progress priorRecord.progress
  let combined := combinePositiveDimensions dimensions
  let fallback := failureIterationDimension currentFacts.failureIteration
    priorFacts.failureIteration
  let undecided := dimensions.all fun item => item.relation = .unknown
  { priorCycleId := priorRecord.cycleId
    selectedBasis := if undecided then "failure_iteration" else selectedBasis dimensions
    dimensionComparisons := if undecided then dimensions ++ [fallback] else dimensions
    positiveProgressConflict := if undecided then false else combined.2
    relation := if undecided then fallback.relation else combined.1
    priorFaultOutcome := priorFacts.faultOutcome
    affectedEntityRelation := affectedEntityRelation currentFacts priorFacts }

/-! ## The summary -/

/-- `{FaultOutcome.TERMINAL.value, FaultOutcome.UNRESOLVED.value}` -/
def qualifyingOutcome (outcome : Option FaultOutcome) : Bool :=
  outcome = some .terminal || outcome = some .unresolved

/-- `{HistoryProgressRelation.SAME.value, HistoryProgressRelation.REGRESSED.value}` -/
def noAdvance (relation : HistoryProgressRelation) : Bool :=
  relation = .same || relation = .regressed

/-- `_consecutive_same_root_no_advance` over the records from the newest back. -/
def consecutiveSameRootNoAdvance (currentRecord : AttemptRecord)
    (currentFacts : AttemptFailureFacts) (requireSameEntity : Bool) : List AttemptRecord → Nat
  | [] => 0
  | prior :: earlier =>
    let comparison := compareProgress currentRecord currentFacts prior
    if prior.deterministic.rootFingerprint ≠ currentFacts.rootFingerprint then 0
    else if requireSameEntity ∧ comparison.affectedEntityRelation ≠ .same then 0
    else if !qualifyingOutcome comparison.priorFaultOutcome then 0
    else if !noAdvance comparison.relation then 0
    else
      consecutiveSameRootNoAdvance currentRecord currentFacts requireSameEntity earlier + 1

/-- `DETERMINISTIC_FACT_SELECTOR` -/
def deterministicFactSelector : String := "deterministic"

/-- `_selected_current_facts` -/
def selectedCurrentFacts (record : AttemptRecord) (selector : String) :
    Option AttemptFailureFacts :=
  if selector = deterministicFactSelector then some record.deterministic
  else (record.enriched.find? fun entry => entry.routeId = selector).map
    EnrichedAttemptFacts.facts

/-- Every comparable attempt was passed, and there is one. -/
def allAdvanced (comparisons : List HistoryProgressComparison) : Bool :=
  let comparable := comparisons.filter fun item => item.relation ≠ .unknown
  !comparable.isEmpty && comparable.all fun item => item.relation = .advanced

/-- `evaluate_history` -/
def evaluateHistory (currentRecord : AttemptRecord) (factSelector : String)
    (priorView : PriorAttemptView) : HistorySummary :=
  if !priorView.available then
    { available := false, availabilityReason := priorView.availabilityReason }
  else
    let missing : HistorySummary :=
      { available := false
        availabilityReason := "missing_root_fingerprint"
        sameJobAttempts := priorView.records.length }
    match selectedCurrentFacts currentRecord factSelector with
    | none => missing
    | some currentFacts =>
      if !truthy currentFacts.rootFingerprint then missing
      else
        let ordered := priorView.records.insertionSort fun a b => a.cycleId ≤ b.cycleId
        let matching := ordered.filter fun record =>
          record.deterministic.rootFingerprint = currentFacts.rootFingerprint
        let comparisons := matching.map (compareProgress currentRecord currentFacts)
        let qualifying := comparisons.filter fun item => qualifyingOutcome item.priorFaultOutcome
        let relationCount := fun relation =>
          qualifying.countP fun item => item.relation = relation
        let entityCount := fun relation =>
          qualifying.countP fun item => item.affectedEntityRelation = relation
        { available := true
          availabilityReason := "ready"
          sameJobAttempts := ordered.length
          matchingRootAttempts := matching.length
          comparisons := comparisons
          observedAdvanceAttempts := relationCount .advanced
          sameProgressAttempts := relationCount .same
          regressedProgressAttempts := relationCount .regressed
          unknownProgressAttempts := relationCount .unknown
          noObservedAdvanceAttempts := relationCount .same + relationCount .regressed
          sameEntityAttempts := entityCount .same
          differentEntityAttempts := entityCount .different
          unknownEntityAttempts := entityCount .unknown
          consecutiveSameRootNoAdvanceAttempts :=
            consecutiveSameRootNoAdvance currentRecord currentFacts false ordered.reverse
          consecutiveSameRootAndEntityNoAdvanceAttempts :=
            consecutiveSameRootNoAdvance currentRecord currentFacts true ordered.reverse
          advancedBeyondAllComparableAttempts := allAdvanced qualifying
          advancedBeyondAllSameEntityComparableAttempts :=
            allAdvanced (qualifying.filter fun item => item.affectedEntityRelation = .same) }

/-! ## A failure that recurs -/

/-- The earlier attempt failed at the same root for good, and the current one got no further. -/
def Recurs (currentRecord priorRecord : AttemptRecord) : Prop :=
  priorRecord.deterministic.rootFingerprint = currentRecord.deterministic.rootFingerprint ∧
    qualifyingOutcome priorRecord.deterministic.faultOutcome = true ∧
    noAdvance (compareProgress currentRecord currentRecord.deterministic priorRecord).relation =
      true

variable {current current' prior prior' : AttemptRecord}

/-- A comparison reads the progress and the deterministic facts of the two records only. -/
theorem relation_congr (hprogress : current.progress = current'.progress)
    (hfacts : current.deterministic = current'.deterministic)
    (hprogress' : prior.progress = prior'.progress)
    (hfacts' : prior.deterministic = prior'.deterministic) :
    (compareProgress current current.deterministic prior).relation =
      (compareProgress current' current'.deterministic prior').relation := by
  simp only [compareProgress, hprogress, hfacts, hprogress', hfacts']

theorem Recurs.congr (h : Recurs current prior)
    (hprogress : current'.progress = current.progress)
    (hfacts : current'.deterministic = current.deterministic)
    (hprogress' : prior'.progress = prior.progress)
    (hfacts' : prior'.deterministic = prior.deterministic) : Recurs current' prior' := by
  obtain ⟨hroot, houtcome, hrelation⟩ := h
  refine ⟨hfacts' ▸ hfacts ▸ hroot, hfacts' ▸ houtcome, ?_⟩
  rw [relation_congr hprogress hfacts hprogress' hfacts']
  exact hrelation

theorem consecutive_of_recurs {records : List AttemptRecord}
    (h : ∀ prior ∈ records, Recurs current prior) :
    consecutiveSameRootNoAdvance current current.deterministic false records =
      records.length := by
  induction records with
  | nil => rfl
  | cons prior earlier ih =>
    obtain ⟨hroot, houtcome, hrelation⟩ := h prior mem_cons_self
    have hearlier := ih fun record hmem => h record (mem_cons_of_mem _ hmem)
    have houtcome' : qualifyingOutcome
        (compareProgress current current.deterministic prior).priorFaultOutcome = true := houtcome
    simp [consecutiveSameRootNoAdvance, hroot, houtcome', hrelation, hearlier]

/-- Comparisons none of which shows an advance. -/
theorem allAdvanced_eq_false {comparisons : List HistoryProgressComparison}
    (h : ∀ item ∈ comparisons, noAdvance item.relation = true) :
    allAdvanced comparisons = false := by
  simp only [allAdvanced, Bool.and_eq_false_iff, Bool.not_eq_false']
  cases hcomparable : comparisons.filter fun item => item.relation ≠ .unknown with
  | nil => exact .inl rfl
  | cons first rest =>
    have hmem : first ∈ comparisons :=
      (mem_filter.mp (hcomparable ▸ mem_cons_self)).1
    have hfirst := h first hmem
    refine .inr ?_
    rw [all_cons, Bool.and_eq_false_iff]
    refine .inl (decide_eq_false fun hadvanced => ?_)
    rw [hadvanced] at hfirst
    cases hfirst

/-- In a view in which every record recurs the streak is as long as the view and no advance is
seen. -/
theorem evaluateHistory_of_recurs {view : PriorAttemptView}
    (hroot : truthy current.deterministic.rootFingerprint = true)
    (havailable : view.available = true) (h : ∀ prior ∈ view.records, Recurs current prior) :
    let history := evaluateHistory current deterministicFactSelector view
    history.available = true ∧
      history.consecutiveSameRootNoAdvanceAttempts = view.records.length ∧
      history.advancedBeyondAllComparableAttempts = false ∧
      history.advancedBeyondAllSameEntityComparableAttempts = false := by
  have hperm := perm_insertionSort (fun a b : AttemptRecord => a.cycleId ≤ b.cycleId)
    view.records
  have hordered : ∀ prior ∈ view.records.insertionSort fun a b => a.cycleId ≤ b.cycleId,
      Recurs current prior := fun prior hmem => h prior (hperm.mem_iff.mp hmem)
  have hcomparisons : ∀ item ∈ ((((view.records.insertionSort fun a b =>
      a.cycleId ≤ b.cycleId).filter fun record =>
        record.deterministic.rootFingerprint = current.deterministic.rootFingerprint).map
          (compareProgress current current.deterministic)).filter fun item =>
            qualifyingOutcome item.priorFaultOutcome), noAdvance item.relation = true := by
    intro item hmem
    obtain ⟨prior, hprior, rfl⟩ := mem_map.mp (mem_filter.mp hmem).1
    exact (hordered prior (mem_filter.mp hprior).1).2.2
  have hstreak : consecutiveSameRootNoAdvance current current.deterministic false
      (view.records.insertionSort fun a b => a.cycleId ≤ b.cycleId).reverse =
        view.records.length := by
    rw [consecutive_of_recurs fun prior hmem => hordered prior (mem_reverse.mp hmem),
      length_reverse, hperm.length_eq]
  have hselected : selectedCurrentFacts current deterministicFactSelector =
      some current.deterministic := if_pos rfl
  simp only [evaluateHistory, havailable, hselected, hroot, Bool.not_true, Bool.false_eq_true,
    if_false]
  exact ⟨trivial, hstreak, allAdvanced_eq_false hcomparisons,
    allAdvanced_eq_false fun item hmem => hcomparisons item (mem_filter.mp hmem).1⟩

end ResiliencyExt.Attribution.RestartAgent
