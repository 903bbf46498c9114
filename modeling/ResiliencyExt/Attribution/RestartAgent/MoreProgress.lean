import ResiliencyExt.Attribution.RestartAgent.RetryPolicy

set_option autoImplicit false

/-!
# Restart agent: more progress never costs a restart

Two current records that differ in the steps they got to are compared with the same earlier
attempts.  The record that got further has no comparison that says less of an advance, so its
streaks are no longer and it has passed every attempt that the other one has passed.
-/

namespace ResiliencyExt.Attribution.RestartAgent

open List

/-! ## One dimension -/

/-- The second step is at least as large as the first.  A step that the first record has not is
not read with the status it has, which is not `observed`. -/
def AtLeast (status : ObservationStatus) : Option Int → Option Int → Prop
  | some first, some second => first ≤ second
  | none, none => True
  | none, some _ => status ≠ .observed
  | some _, none => False

/-- `second` is the record `first` with at least as large steps. -/
structure NoLessProgress (first second : AttemptRecord) : Prop where
  same_else : second = { first with progress := second.progress }
  trainingProgress : second.progress.trainingProgress = first.progress.trainingProgress
  checkpointProgress : second.progress.checkpointProgress = first.progress.checkpointProgress
  completedStep : AtLeast first.progress.trainingProgress first.progress.lastCompletedStep
    second.progress.lastCompletedStep
  checkpointStep : AtLeast first.progress.checkpointProgress first.progress.lastCheckpointStep
    second.progress.lastCheckpointStep

/-- How the relation of one dimension may change with a larger step. -/
def Rises (first second : HistoryProgressRelation) : Prop :=
  second = first ∨ (first = .regressed ∧ second ≠ .unknown) ∨ (first = .same ∧ second = .advanced)

theorem relationFromDelta_rises {first second : Int} (h : first ≤ second) :
    Rises (relationFromDelta first) (relationFromDelta second) := by
  rcases Int.lt_trichotomy first 0 with hneg | hzero | hpos
  · have hfirst : relationFromDelta first = .regressed := by
      simp [relationFromDelta, hneg, Int.not_lt.mpr (Int.le_of_lt hneg)]
    refine .inr (.inl ⟨hfirst, ?_⟩)
    unfold relationFromDelta
    repeat' split
    all_goals nofun
  · subst hzero
    rcases Int.lt_or_eq_of_le h with hlt | rfl
    · exact .inr (.inr ⟨rfl, by simp [relationFromDelta, hlt]⟩)
    · exact .inl rfl
  · have hsecond : 0 < second := Int.lt_of_lt_of_le hpos h
    exact .inl (by simp [relationFromDelta, hpos, hsecond])

theorem dimensionComparison_rises (dimension : String) (priorStatus : ObservationStatus)
    {status : ObservationStatus} (priorValue : Option Int) {first second : Option Int}
    (h : AtLeast status first second) :
    Rises (dimensionComparison dimension priorStatus status priorValue first).relation
      (dimensionComparison dimension priorStatus status priorValue second).relation := by
  unfold dimensionComparison
  dsimp only
  split
  · exact .inl rfl
  split
  · exact .inl rfl
  split
  · exact .inl rfl
  split
  · exact .inl rfl
  rename_i hknown hadvanced hregressed hsame
  -- Both sides are observed, and only here a step is read.
  have hobserved : status = .observed := by
    cases status with
    | unknown => exact absurd (.inr rfl) hknown
    | observed => rfl
    | notObserved =>
      cases priorStatus with
      | unknown => exact absurd (.inl rfl) hknown
      | observed => exact absurd ⟨rfl, rfl⟩ hregressed
      | notObserved => exact absurd ⟨rfl, rfl⟩ hsame
  cases priorValue with
  | none => exact .inl rfl
  | some prior =>
    cases first with
    | none =>
      cases second with
      | none => exact .inl rfl
      | some second => exact absurd hobserved h
    | some first =>
      cases second with
      | none => exact h.elim
      | some second => exact relationFromDelta_rises (Int.sub_le_sub_right h prior)

/-! ## A comparison -/

/-- The two dimensions of a record that got further. -/
theorem NoLessProgress.dimensions {first second : AttemptRecord} (h : NoLessProgress first second)
    (prior : AttemptProgressSummary) :
    List.Forall₂ (fun a b => Rises a.relation b.relation)
      (positiveProgressDimensions first.progress prior)
      (positiveProgressDimensions second.progress prior) := by
  unfold positiveProgressDimensions
  rw [h.trainingProgress, h.checkpointProgress]
  dsimp only
  refine rel_append ?_ ?_
  · split
    · exact .cons (dimensionComparison_rises _ _ _ h.completedStep) .nil
    · exact .nil
  · split
    · exact .cons (dimensionComparison_rises _ _ _ h.checkpointStep) .nil
    · exact .nil

/-- How the relation of two attempts may change: it loses no advance, and it has no new one of the
relations that are none. -/
structure NoLess (first second : HistoryProgressRelation) : Prop where
  noAdvance : noAdvance second = true → noAdvance first = true
  advanced : first = .advanced → second = .advanced

theorem NoLess.refl (relation : HistoryProgressRelation) : NoLess relation relation :=
  ⟨id, id⟩

section Combine

variable {first second : List HistoryDimensionComparison}

/-- What `_combine_positive_dimensions` finds. -/
theorem combine_eq_advanced_iff (dimensions : List HistoryDimensionComparison) :
    (combinePositiveDimensions dimensions).1 = .advanced ↔
      .advanced ∈ dimensions.map HistoryDimensionComparison.relation ∧
        .regressed ∉ dimensions.map HistoryDimensionComparison.relation := by
  unfold combinePositiveDimensions
  grind

theorem noAdvance_combine_iff (dimensions : List HistoryDimensionComparison) :
    noAdvance (combinePositiveDimensions dimensions).1 = true ↔
      .advanced ∉ dimensions.map HistoryDimensionComparison.relation ∧
        (.regressed ∈ dimensions.map HistoryDimensionComparison.relation ∨
          .same ∈ dimensions.map HistoryDimensionComparison.relation) := by
  unfold combinePositiveDimensions noAdvance
  grind

section

variable (h : List.Forall₂ (fun a b => Rises a.relation b.relation) first second)
include h

theorem mem_of_rises {relation : HistoryProgressRelation}
    (hmem : relation ∈ second.map HistoryDimensionComparison.relation) :
    ∃ relation' ∈ first.map HistoryDimensionComparison.relation, Rises relation' relation := by
  induction h with
  | nil => cases hmem
  | cons hrises _ ih =>
    rcases mem_cons.mp hmem with rfl | hrest
    · exact ⟨_, mem_cons_self, hrises⟩
    · obtain ⟨relation', hmem', hrises'⟩ := ih hrest
      exact ⟨relation', mem_cons_of_mem _ hmem', hrises'⟩

/-- An advance in one dimension stays one. -/
theorem advanced_of_rises (hmem : .advanced ∈ first.map HistoryDimensionComparison.relation) :
    .advanced ∈ second.map HistoryDimensionComparison.relation := by
  induction h with
  | nil => cases hmem
  | @cons a b _ _ hrises _ ih =>
    rcases mem_cons.mp hmem with hfirst | hrest
    · have hsame : b.relation = a.relation := by
        rcases hrises with heq | ⟨hregressed, _⟩ | ⟨hsame, _⟩
        · exact heq
        · exact absurd (hfirst.trans hregressed) nofun
        · exact absurd (hfirst.trans hsame) nofun
      exact mem_cons.mpr (.inl (hfirst.trans hsame.symm))
    · exact mem_cons_of_mem _ (ih hrest)

theorem combine_noLess :
    NoLess (combinePositiveDimensions first).1 (combinePositiveDimensions second).1 := by
  constructor
  · rw [noAdvance_combine_iff, noAdvance_combine_iff]
    rintro ⟨hadvanced, hrelation⟩
    refine ⟨fun hmem => hadvanced (advanced_of_rises h hmem), ?_⟩
    rcases hrelation with hmem | hmem
    · obtain ⟨relation, hmem', rfl | ⟨rfl, _⟩ | ⟨_, habsurd⟩⟩ := mem_of_rises h hmem
      · exact .inl hmem'
      · exact .inl hmem'
      · cases habsurd
    · obtain ⟨relation, hmem', rfl | ⟨rfl, _⟩ | ⟨_, habsurd⟩⟩ := mem_of_rises h hmem
      · exact .inr hmem'
      · exact .inl hmem'
      · cases habsurd
  · rw [combine_eq_advanced_iff, combine_eq_advanced_iff]
    rintro ⟨hadvanced, hregressed⟩
    refine ⟨advanced_of_rises h hadvanced, fun hmem => ?_⟩
    obtain ⟨relation, hmem', rfl | ⟨rfl, _⟩ | ⟨_, habsurd⟩⟩ := mem_of_rises h hmem
    · exact hregressed hmem'
    · exact hregressed hmem'
    · cases habsurd

/-- A dimension that says nothing goes on saying nothing. -/
theorem undecided_of_rises :
    (first.all fun item => item.relation = .unknown) =
      second.all fun item => item.relation = .unknown := by
  induction h with
  | nil => rfl
  | @cons a b _ _ hrises _ ih =>
    have hsame : a.relation = .unknown ↔ b.relation = .unknown := by
      rcases hrises with heq | ⟨hregressed, hne⟩ | ⟨hsame, hadvanced⟩
      · rw [heq]
      · exact ⟨fun hunknown => absurd (hregressed.symm.trans hunknown) nofun,
          fun hunknown => absurd hunknown hne⟩
      · exact ⟨fun hunknown => absurd (hsame.symm.trans hunknown) nofun,
          fun hunknown => absurd (hadvanced.symm.trans hunknown) nofun⟩
    rw [all_cons, all_cons, ih, decide_eq_decide.mpr hsame]

end

end Combine

/-- The comparison of the record that got further with the same earlier attempt. -/
structure NoLessComparison (first second : HistoryProgressComparison) : Prop where
  relation : NoLess first.relation second.relation
  priorFaultOutcome : second.priorFaultOutcome = first.priorFaultOutcome
  affectedEntityRelation : second.affectedEntityRelation = first.affectedEntityRelation

theorem NoLessProgress.comparison {first second : AttemptRecord}
    (h : NoLessProgress first second) (facts : AttemptFailureFacts) (prior : AttemptRecord) :
    NoLessComparison (compareProgress first facts prior) (compareProgress second facts prior) := by
  refine ⟨?_, rfl, rfl⟩
  have hdimensions := h.dimensions prior.progress
  unfold compareProgress
  dsimp only
  rw [undecided_of_rises hdimensions]
  split
  · exact .refl _
  · exact combine_noLess hdimensions

/-! ## The summary -/

/-- The summary of the record that got further. -/
structure NoWorse (first second : HistorySummary) : Prop where
  available : second.available = first.available
  streak : second.consecutiveSameRootNoAdvanceAttempts ≤ first.consecutiveSameRootNoAdvanceAttempts
  entityStreak : second.consecutiveSameRootAndEntityNoAdvanceAttempts ≤
    first.consecutiveSameRootAndEntityNoAdvanceAttempts
  advanced : first.advancedBeyondAllComparableAttempts = true →
    second.advancedBeyondAllComparableAttempts = true
  entityAdvanced : first.advancedBeyondAllSameEntityComparableAttempts = true →
    second.advancedBeyondAllSameEntityComparableAttempts = true

/-- A streak ends no later. -/
theorem NoLessProgress.streak_le {first second : AttemptRecord} (h : NoLessProgress first second)
    (facts : AttemptFailureFacts) (requireSameEntity : Bool) (records : List AttemptRecord) :
    consecutiveSameRootNoAdvance second facts requireSameEntity records ≤
      consecutiveSameRootNoAdvance first facts requireSameEntity records := by
  induction records with
  | nil => exact Nat.le_refl 0
  | cons prior earlier ih =>
    have hcomparison := h.comparison facts prior
    unfold consecutiveSameRootNoAdvance
    dsimp only
    rw [hcomparison.affectedEntityRelation, hcomparison.priorFaultOutcome]
    split
    · exact Nat.le_refl 0
    split
    · exact Nat.le_refl 0
    split
    · exact Nat.le_refl 0
    cases hsecond : noAdvance (compareProgress second facts prior).relation with
    | false => exact Nat.zero_le _
    | true =>
      rw [hcomparison.relation.noAdvance hsecond]
      exact Nat.succ_le_succ ih

theorem allAdvanced_iff (comparisons : List HistoryProgressComparison) :
    allAdvanced comparisons = true ↔
      (∃ item ∈ comparisons, item.relation = .advanced) ∧
        ∀ item ∈ comparisons, item.relation = .advanced ∨ item.relation = .unknown := by
  simp only [allAdvanced, Bool.and_eq_true, Bool.not_eq_true', isEmpty_eq_false_iff,
    all_eq_true, mem_filter, decide_eq_true_eq]
  constructor
  · rintro ⟨hne, hall⟩
    obtain ⟨item, hitem⟩ := exists_mem_of_ne_nil _ hne
    have hmem := mem_filter.mp hitem
    refine ⟨⟨item, hmem.1, hall item ⟨hmem.1, of_decide_eq_true hmem.2⟩⟩, fun item hitem => ?_⟩
    by_cases hunknown : item.relation = .unknown
    · exact .inr hunknown
    · exact .inl (hall item ⟨hitem, hunknown⟩)
  · rintro ⟨⟨item, hitem, hadvanced⟩, hall⟩
    refine ⟨ne_nil_of_mem (mem_filter.mpr ⟨hitem, ?_⟩), fun item hitem => ?_⟩
    · rw [hadvanced]
      rfl
    · exact (hall item hitem.1).resolve_right hitem.2

/-- Every attempt that was passed stays passed. -/
theorem allAdvanced_of_noLess {first second : List HistoryProgressComparison}
    (h : List.Forall₂ NoLessComparison first second) (hall : allAdvanced first = true) :
    allAdvanced second = true := by
  rw [allAdvanced_iff] at hall ⊢
  obtain ⟨⟨item, hitem, hadvanced⟩, hcomparable⟩ := hall
  constructor
  · clear hcomparable
    induction h with
    | nil => cases hitem
    | @cons a b _ _ hab _ ih =>
      rcases mem_cons.mp hitem with rfl | hrest
      · exact ⟨b, mem_cons_self, hab.relation.advanced hadvanced⟩
      · obtain ⟨item', hmem, hadvanced'⟩ := ih hrest
        exact ⟨item', mem_cons_of_mem _ hmem, hadvanced'⟩
  · clear hitem
    induction h with
    | nil => nofun
    | @cons a b _ _ hab _ ih =>
      intro item' hmem
      rcases mem_cons.mp hmem with rfl | hrest
      · have hfirst := hcomparable a mem_cons_self
        have hnoAdvance : noAdvance a.relation = false := by
          rcases hfirst with h | h <;> rw [h] <;> rfl
        cases hsecond : item'.relation with
        | advanced => exact .inl rfl
        | unknown => exact .inr rfl
        | same | regressed =>
          have hlost := hab.relation.noAdvance (by rw [hsecond]; rfl)
          exact absurd (hlost.symm.trans hnoAdvance) nofun
      · exact ih (fun item hmem => hcomparable item (mem_cons_of_mem _ hmem)) item' hrest

theorem NoLessProgress.comparisons {first second : AttemptRecord}
    (h : NoLessProgress first second) (facts : AttemptFailureFacts)
    (records : List AttemptRecord) :
    List.Forall₂ NoLessComparison (records.map (compareProgress first facts))
      (records.map (compareProgress second facts)) := by
  induction records with
  | nil => exact .nil
  | cons prior earlier ih => exact .cons (h.comparison facts prior) ih

theorem filter_noLess {first second : List HistoryProgressComparison}
    (h : List.Forall₂ NoLessComparison first second) (p : HistoryProgressComparison → Bool)
    (hp : ∀ {a b : HistoryProgressComparison}, NoLessComparison a b → p a = p b) :
    List.Forall₂ NoLessComparison (first.filter p) (second.filter p) := by
  refine rel_filter ?_ h
  intro a b hab
  exact iff_of_eq (congrArg (· = true) (hp hab))

/-- `evaluate_history` of a record that got further. -/
theorem NoLessProgress.noWorse {first second : AttemptRecord} (h : NoLessProgress first second)
    (factSelector : String) (view : PriorAttemptView) :
    NoWorse (evaluateHistory first factSelector view)
      (evaluateHistory second factSelector view) := by
  have hselected : selectedCurrentFacts second factSelector =
      selectedCurrentFacts first factSelector := by
    rw [h.same_else]
    rfl
  have hrefl : ∀ summary, NoWorse summary summary := fun _ =>
    ⟨rfl, Nat.le_refl _, Nat.le_refl _, id, id⟩
  unfold evaluateHistory
  rw [hselected]
  split
  · exact hrefl _
  dsimp only
  split
  · exact hrefl _
  split
  · exact hrefl _
  rename_i facts _ _
  refine ⟨rfl, h.streak_le _ _ _, h.streak_le _ _ _, ?_, ?_⟩
  · refine allAdvanced_of_noLess (filter_noLess (h.comparisons facts _) _ fun hab => ?_)
    rw [hab.priorFaultOutcome]
  · refine allAdvanced_of_noLess (filter_noLess (filter_noLess (h.comparisons facts _) _ ?_) _ ?_)
    · intro a b hab
      rw [hab.priorFaultOutcome]
    · intro a b hab
      rw [hab.affectedEntityRelation]

/-! ## The decision -/

/-- A ledger is exhausted by the further record only if it is by the other one. -/
theorem NoWorse.exhausted {first second : HistorySummary} (h : NoWorse first second)
    (ledgerId : LedgerId) (rule : RetryPolicyRule) (scope : HistoryMatchScope)
    (allowedRetries : Nat)
    (hfirst : (evaluateLedger ledgerId rule scope allowedRetries first).exhausted = false) :
    (evaluateLedger ledgerId rule scope allowedRetries second).exhausted = false := by
  have hledger : ∀ {streak streak' : Nat} {advanced advanced' : Bool}, streak' ≤ streak →
      (advanced = true → advanced' = true) →
      (!advanced && decide (allowedRetries ≤ streak)) = false →
      (!advanced' && decide (allowedRetries ≤ streak')) = false := by
    intro streak streak' advanced advanced' hle hadvanced hnot
    cases advanced with
    | true => rw [hadvanced rfl]; rfl
    | false =>
      have hlt : ¬ allowedRetries ≤ streak := of_decide_eq_false hnot
      rw [decide_eq_false fun hmany => hlt (hmany.trans hle), Bool.and_false]
  unfold evaluateLedger at hfirst ⊢
  rw [h.available]
  split
  · rfl
  · next havailable =>
    rw [if_neg havailable] at hfirst
    cases scope with
    | rootOnly => exact hledger h.streak h.advanced hfirst
    | rootAndEntity => exact hledger h.entityStreak h.entityAdvanced hfirst

theorem decision_eq_restart_iff {primary : Option FailureEvidence} {rule : Option RetryPolicyRule}
    (exhausted observedAdvance : Bool) :
    (decision primary rule exhausted observedAdvance).1 = .restart ↔
      primary = none ∨ (rule ≠ some .workloadUnrecoverable ∧ exhausted = false) := by
  cases primary with
  | none => exact ⟨fun _ => .inl rfl, fun _ => rfl⟩
  | some primary =>
    constructor
    · intro h
      refine .inr ⟨?_, ?_⟩
      · rintro rfl
        exact absurd h nofun
      · cases exhausted with
        | false => rfl
        | true => exact absurd (h.symm.trans (decision_of_exhausted observedAdvance)) nofun
    · rintro (hnone | ⟨hrule, rfl⟩)
      · cases hnone
      · exact decision_of_not_exhausted observedAdvance hrule

/-- A job is restarted when there is no failure to speak of, and else when the log does not rule it
out and no ledger is exhausted. -/
theorem evaluatePolicy_restart_iff (input : L4PolicyInput) :
    (evaluatePolicy input).decision = .restart ↔
      input.primary = none ∨ ((evaluatePolicy input).rule ≠ some .workloadUnrecoverable ∧
        (evaluatePolicy input).generalRootCeiling.exhausted = false ∧
        ∀ ledger ∈ (evaluatePolicy input).selectedRuleBudget, ledger.exhausted = false) := by
  have hledgers : ∀ (general : RetryLedgerEvaluation) (selected : Option RetryLedgerEvaluation),
      (!(((general :: selected.toList).filter RetryLedgerEvaluation.exhausted).map
        RetryLedgerEvaluation.ledgerId).isEmpty) = false ↔
      general.exhausted = false ∧ ∀ ledger ∈ selected, ledger.exhausted = false := by
    intro general selected
    rw [Bool.not_eq_false', List.isEmpty_iff, map_eq_nil_iff, filter_eq_nil_iff]
    simp
  refine (decision_eq_restart_iff _ _).trans (or_congr Iff.rfl (and_congr Iff.rfl ?_))
  exact hledgers _ _

variable {input : L4PolicyInput}

theorem NoWorse.generalRootCeiling {first second : HistorySummary} (h : NoWorse first second)
    (primary : Option FailureEvidence) (rule : Option RetryPolicyRule) (allowedRetries : Nat)
    (hfirst : (generalRootCeiling primary rule first allowedRetries).exhausted = false) :
    (RestartAgent.generalRootCeiling primary rule second allowedRetries).exhausted = false := by
  unfold RestartAgent.generalRootCeiling at hfirst ⊢
  split
  · rfl
  split
  · rfl
  next hprimary hrule =>
    rw [if_neg hprimary, if_neg hrule] at hfirst
    exact h.exhausted _ _ _ _ hfirst

/-- The budget of a rule is exhausted by the further record only if it is by the other one. -/
theorem NoWorse.selectedRuleBudget {first second : HistorySummary} (h : NoWorse first second)
    (rule : Option RetryPolicyRule) (appliedCapability : Option DeclaredRecoveryCapability)
    (retryPolicy : RetryPolicyConfig)
    (hfirst : ∀ ledger ∈ selectedRuleBudget rule appliedCapability first retryPolicy,
      ledger.exhausted = false) :
    ∀ ledger ∈ RestartAgent.selectedRuleBudget rule appliedCapability second retryPolicy,
      ledger.exhausted = false := by
  have hnarrower : ∀ (rule : RetryPolicyRule) (scope : HistoryMatchScope) (allowedRetries : Nat),
      (∀ ledger ∈ (if retryPolicy.generalRetryAllowedRetries ≤ allowedRetries then none
        else some (evaluateLedger .selectedRuleBudget rule scope allowedRetries first)),
          ledger.exhausted = false) →
      ∀ ledger ∈ (if retryPolicy.generalRetryAllowedRetries ≤ allowedRetries then none
        else some (evaluateLedger .selectedRuleBudget rule scope allowedRetries second)),
          ledger.exhausted = false := by
    intro rule scope allowedRetries hfirst ledger hmem
    split at hmem
    · cases hmem
    · next hnarrow =>
      rw [if_neg hnarrow] at hfirst
      cases hmem
      exact h.exhausted _ _ _ _ (hfirst _ rfl)
  unfold RestartAgent.selectedRuleBudget at hfirst ⊢
  split at hfirst
  · exact hnarrower _ _ _ hfirst
  · exact hnarrower _ _ _ hfirst
  · exact hnarrower _ _ _ hfirst
  · nofun

/-- A history that is no worse does not turn a restart into a stop. -/
theorem NoWorse.restart {first second : HistorySummary} (h : NoWorse first second)
    (hrestart : (evaluatePolicy { input with history := first }).decision = .restart) :
    (evaluatePolicy { input with history := second }).decision = .restart := by
  rw [evaluatePolicy_restart_iff] at hrestart ⊢
  refine hrestart.imp id fun ⟨hrule, hgeneral, hselected⟩ => ⟨hrule, ?_, ?_⟩
  · exact h.generalRootCeiling _ _ _ hgeneral
  · exact h.selectedRuleBudget _ _ _ hselected

/-- What the general root ceiling decides alone. -/
def ceilingDecision (input : L4PolicyInput) : Decision :=
  let ceiling := generalRootCeiling input.primary (some .generalRetry) input.history
    input.retryPolicy.generalRetryAllowedRetries
  (decision input.primary (some .generalRetry) ceiling.exhausted
    (ceiling.applicable && ceiling.observedAdvance)).1

/-- No rule restarts a job that the general root ceiling stops. -/
theorem stop_of_ceilingDecision (h : ceilingDecision input = .stop) :
    (evaluatePolicy input).decision = .stop := by
  cases hdecision : (evaluatePolicy input).decision with
  | stop => rfl
  | restart =>
    have hceiling : ceilingDecision input = .restart := by
      refine (decision_eq_restart_iff _ _).mpr ?_
      refine ((evaluatePolicy_restart_iff input).mp hdecision).imp id fun hledgers => ⟨nofun, ?_⟩
      have hgeneral : (generalRootCeiling input.primary (evaluatePolicy input).rule input.history
        input.retryPolicy.generalRetryAllowedRetries).exhausted = false := hledgers.2.1
      unfold generalRootCeiling at hgeneral ⊢
      rwa [if_neg hledgers.1] at hgeneral
    rw [hceiling] at h
    cases h

/-- More progress never costs a restart, and a rule of its own never gives one that the general
root ceiling refuses. -/
theorem restart_of_more_progress (input : L4PolicyInput) (factSelector : String)
    (view : PriorAttemptView) {first second : AttemptRecord} (h : NoLessProgress first second) :
    ((evaluatePolicy { input with
        history := evaluateHistory first factSelector view }).decision = .restart →
      (evaluatePolicy { input with
        history := evaluateHistory second factSelector view }).decision = .restart) ∧
    (ceilingDecision input = .stop → (evaluatePolicy input).decision = .stop) :=
  ⟨(h.noWorse factSelector view).restart, stop_of_ceilingDecision⟩

/-- An attempt that completed `step` and failed for good. -/
def attemptAt (cycleId step : Int) : AttemptRecord where
  jobId := "job"
  cycleId := cycleId
  progress := { trainingProgress := .observed, lastCompletedStep := some step }
  deterministic := ⟨some "root", some "traceback", some .terminal, none, none⟩

/-- A failure with one retry after an attempt that got to step `20`. -/
def oneRetry (current : AttemptRecord) : L4PolicyInput where
  primary := some { failureClass := "cuda", faultOutcome := some .terminal }
  history := evaluateHistory current deterministicFactSelector
    { records := [attemptAt 1 20], available := true, availabilityReason := "ready" }
  retryPolicy := ⟨1, 1, 2, by decide, by decide⟩

theorem restart_of_more_progress_step :
    (evaluatePolicy (oneRetry (attemptAt 2 10))).decision = .restart ∧
      (evaluatePolicy (oneRetry (attemptAt 2 30))).decision = .restart := by
  have hfurther : NoLessProgress (attemptAt 2 10) (attemptAt 2 30) :=
    ⟨rfl, rfl, rfl, show (10 : Int) ≤ 30 by decide, trivial⟩
  have hfirst : (evaluatePolicy (oneRetry (attemptAt 2 10))).decision = .restart := by decide
  exact ⟨hfirst, (restart_of_more_progress (oneRetry (attemptAt 2 10)) deterministicFactSelector
    { records := [attemptAt 1 20], available := true, availabilityReason := "ready" }
    hfurther).1 hfirst⟩

end ResiliencyExt.Attribution.RestartAgent
