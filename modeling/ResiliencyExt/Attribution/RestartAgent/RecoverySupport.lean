import ResiliencyExt.Attribution.RestartAgent.PrimaryGrounding

set_option autoImplicit false

/-!
# Restart agent: grounding of the recovery assessment

`_ground_recovery_support` and `_finalize_model_audit` of `l2/audit.py`.  The assessment may stop
a job for good only when the primary failure is in the log, and every item of the evidence that
speaks for one of its two claims was resolved.
-/

namespace ResiliencyExt.Attribution.RestartAgent

open Foundation List

structure RecoverySupport where
  failureDomainLines : List Int
  retryOutlookLines : List Int
  unresolvedLines : List Int
deriving DecidableEq, Repr

/-- The lines of the grounded items with a tag, as a set. -/
def supportingLines (grounding : PrimaryGrounding) (tag : SupportTag) : List Int :=
  ((grounding.audit.grounded.filter fun item => tag ∈ item.supports).map GroundedItem.line).dedup

/-- `_ground_recovery_support` -/
def groundRecoverySupport (grounding : PrimaryGrounding) : RecoverySupport where
  failureDomainLines := supportingLines grounding .failureDomain
  retryOutlookLines := supportingLines grounding .retryOutlook
  unresolvedLines :=
    ((grounding.audit.citationAudits.filter fun audit => audit.resolvedLine.isNone &&
      (audit.supports.contains .failureDomain || audit.supports.contains .retryOutlook)).map
        CitationAudit.originalLine).insertionSort (· ≤ ·)

/-- `recovery_assessment_policy_grounded` of `_finalize_model_audit`. -/
def finalizeModelAudit (grounding : PrimaryGrounding) (rootCauseStatus : AssessmentStatus)
    (support : RecoverySupport) : Bool :=
  grounding.sourceLineAvailable &&
    (rootCauseStatus = .establishedByCurrentLog || rootCauseStatus = .supportedButUnconfirmed) &&
    !support.failureDomainLines.isEmpty && !support.retryOutlookLines.isEmpty &&
    support.unresolvedLines.isEmpty

/-- `recovery_assessment_policy_grounded` of `ground_and_audit_model_evidence`. -/
def policyGrounded (lines : List LineText) (promptPayload : Payload)
    (transcript : List TranscriptEvent) (answer : L1Evidence) : Bool :=
  match answer.primaryFailure with
  | none => false
  | some primary =>
    match groundPrimarySelection lines (modelVisibleLineTexts promptPayload transcript) primary
      answer.evidence with
    | .error _ => false
    | .ok grounding =>
      finalizeModelAudit grounding answer.rootCauseStatus (groundRecoverySupport grounding)

/-! ## What the audit keeps of an item -/

section Audit

variable {lines : List LineText} {visible : LineTexts}

variable {audit : EvidenceAudit} {grounded : GroundedItem} {entries : List (EvidenceItem × Nat)}

theorem quote_resolveCitation (line : Int) (text quote : LineText) (supports : List SupportTag) :
    (resolveCitation lines line text quote supports visible).quote = quote ∧
      (resolveCitation lines line text quote supports visible).supports = supports := by
  unfold resolveCitation
  dsimp only
  repeat' split
  all_goals exact ⟨rfl, rfl⟩

theorem EvidenceItem.supports_grounding {item : EvidenceItem} {resolution : CitationGrounding}
    (h : item.grounding lines visible = some resolution) :
    resolution.supports = item.supports := by
  obtain ⟨text, _, rfl⟩ := Option.map_eq_some_iff.mp h
  exact (quote_resolveCitation _ _ _ _).2

/-- An item that is resolved is kept with its line. -/
theorem mem_grounded_auditItem {item : EvidenceItem} {index : Nat}
    (h : grounded ∈ (auditItem lines visible audit (item, index)).grounded) :
    grounded ∈ audit.grounded ∨
      (item.resolvedTo lines visible = some grounded.line ∧
        grounded.supports = item.supports) := by
  unfold auditItem at h
  dsimp only at h
  unfold EvidenceItem.resolvedTo
  cases hgrounding : item.grounding lines visible with
  | none =>
    rw [hgrounding] at h
    exact .inl h
  | some resolution =>
    rw [hgrounding] at h
    dsimp only at h
    cases hresolved : resolution.resolvedLine with
    | none =>
      rw [hresolved] at h
      exact .inl h
    | some line =>
      rw [hresolved] at h
      dsimp only at h
      have hmem : grounded ∈ audit.grounded ++
          [⟨item.id, line, resolution.quote, resolution.supports⟩] := by
        split at h
        · exact h
        · exact h
      refine (mem_append.mp hmem).imp id fun hnew => ?_
      rw [mem_singleton.mp hnew]
      exact ⟨hresolved, EvidenceItem.supports_grounding hgrounding⟩

/-- Of every item there is an audit that says where it was resolved to. -/
theorem exists_audit_auditItem (lines : List LineText) (visible : LineTexts)
    (audit : EvidenceAudit) (item : EvidenceItem) (index : Nat) :
    ∃ citation : CitationAudit,
      (auditItem lines visible audit (item, index)).citationAudits =
        audit.citationAudits ++ [citation] ∧
      citation.originalLine = item.line ∧ citation.supports = item.supports ∧
      citation.resolvedLine = item.resolvedTo lines visible := by
  unfold auditItem EvidenceItem.resolvedTo
  dsimp only
  cases hgrounding : item.grounding lines visible with
  | none => exact ⟨_, rfl, rfl, rfl, rfl⟩
  | some resolution =>
    rw [Option.bind_some]
    dsimp only
    have hsupports := EvidenceItem.supports_grounding hgrounding
    cases hresolved : resolution.resolvedLine with
    | none => exact ⟨_, rfl, rfl, hsupports, rfl⟩
    | some line =>
      dsimp only
      split
      · exact ⟨_, rfl, rfl, hsupports, rfl⟩
      · exact ⟨_, rfl, rfl, hsupports, rfl⟩

theorem mem_grounded_foldl
    (h : grounded ∈ (entries.foldl (auditItem lines visible) audit).grounded) :
    grounded ∈ audit.grounded ∨ ∃ item ∈ entries.map Prod.fst,
      item.resolvedTo lines visible = some grounded.line ∧ grounded.supports = item.supports := by
  induction entries generalizing audit with
  | nil => exact .inl h
  | cons e entries ih =>
    rcases ih h with hold | ⟨item, hitem, hresolved⟩
    · exact (mem_grounded_auditItem hold).imp id fun hnew => ⟨e.1, mem_cons_self, hnew⟩
    · exact .inr ⟨item, mem_cons_of_mem _ hitem, hresolved⟩

theorem exists_audit_foldl (lines : List LineText) (visible : LineTexts) (audit : EvidenceAudit) :
    (∀ citation ∈ audit.citationAudits,
      citation ∈ (entries.foldl (auditItem lines visible) audit).citationAudits) ∧
    ∀ item ∈ entries.map Prod.fst,
      ∃ citation ∈ (entries.foldl (auditItem lines visible) audit).citationAudits,
        citation.originalLine = item.line ∧ citation.supports = item.supports ∧
          citation.resolvedLine = item.resolvedTo lines visible := by
  induction entries generalizing audit with
  | nil => exact ⟨fun _ => id, nofun⟩
  | cons e entries ih =>
    obtain ⟨hkept, hitems⟩ := ih (auditItem lines visible audit e)
    obtain ⟨new, happend, hnew⟩ := exists_audit_auditItem lines visible audit e.1 e.2
    have hmem : ∀ citation ∈ audit.citationAudits ++ [new],
        citation ∈ (auditItem lines visible audit e).citationAudits := fun citation h =>
      happend ▸ h
    refine ⟨fun citation h => hkept citation (hmem citation (mem_append_left _ h)), ?_⟩
    intro item hitem
    rcases mem_cons.mp hitem with rfl | hrest
    · exact ⟨new, hkept new (hmem new (mem_append_right _ mem_cons_self)), hnew⟩
    · exact hitems item hrest

end Audit

/-! ## What a grounded assessment rests on -/

section Grounded

variable (lines : List LineText) (promptPayload : Payload) (transcript : List TranscriptEvent)

/-- The two lines are at most `NEARBY_EVIDENCE_LINE_RADIUS` lines apart. -/
def Around (line other : Int) : Prop :=
  line - nearbyEvidenceLineRadius ≤ other ∧ other ≤ line + nearbyEvidenceLineRadius

/-- The model was shown a text of the line with the quote. -/
def ShownQuote (line : Int) (quote : LineText) : Prop :=
  ∃ text, ShownToModel promptPayload transcript line text ∧ Occurs quote text

/-- The item is resolved to `line`, a line of the log that is not far off, with its quote in a text
that the model was shown for it.  It is another line than the cited one only as the only line
around that has such a text. -/
structure GroundedAt (item : EvidenceItem) (line : Int) : Prop where
  resolved : item.resolvedTo lines (modelVisibleLineTexts promptPayload transcript) = some line
  inLog : (logLine lines line).isSome = true
  near : Around item.line line
  shown : ShownQuote promptPayload transcript line item.quote
  only : line ≠ item.line → ∀ other, Around item.line other →
    ShownQuote promptPayload transcript other item.quote → other = line

/-- All that a grounded recovery assessment rests on. -/
structure RestsOnEvidence (answer : L1Evidence) : Prop where
  primary : ∃ primary grounding, answer.primaryFailure = some primary ∧
    groundPrimarySelection lines (modelVisibleLineTexts promptPayload transcript) primary
      answer.evidence = .ok grounding ∧ (logLine lines grounding.line).isSome = true
  grounded : ∀ item ∈ answer.evidence,
    .failureDomain ∈ item.supports ∨ .retryOutlook ∈ item.supports →
      ∃ line, GroundedAt lines promptPayload transcript item line
  failureDomain : ∃ item ∈ answer.evidence, .failureDomain ∈ item.supports ∧
    ∃ line, GroundedAt lines promptPayload transcript item line
  retryOutlook : ∃ item ∈ answer.evidence, .retryOutlook ∈ item.supports ∧
    ∃ line, GroundedAt lines promptPayload transcript item line

end Grounded

variable {lines : List LineText} {promptPayload : Payload} {transcript : List TranscriptEvent}

variable {line : Int} {item : EvidenceItem}

variable {text : LineText} {grounding : PrimaryGrounding} {evidence : List EvidenceItem}

/-- Only positive lines are shown. -/
theorem Shows.pos {payload : Payload} (h : Shows line text payload) : 0 < line := by
  induction h with
  | here _ hline =>
    unfold isLineField at hline
    exact of_decide_eq_true (Bool.and_eq_true_iff.mp hline).2
  | value _ _ ih => exact ih
  | item _ _ ih => exact ih

theorem ShownToModel.pos (h : ShownToModel promptPayload transcript line text) : 0 < line := by
  rcases h with ⟨_, _, _, _, h⟩ | ⟨_, h⟩
  · exact h.pos
  · exact h.pos

/-- The visible matches of a citation are the lines around that the model was shown its quote
for. -/
theorem mem_visibleMatches_iff :
    line ∈ visibleQuoteMatches (modelVisibleLineTexts promptPayload transcript) item.line
        item.quote ↔
      Around item.line line ∧
        ShownQuote promptPayload transcript line item.quote := by
  have hquote : item.quote ≠ [] := by
    intro hnil
    refine item.quote_ne ?_
    rw [hnil]
    rfl
  have hnear : 0 < line → (isNearby item.line line = true ↔ Around item.line line) := by
    intro hpos
    unfold isNearby Around
    rw [Bool.and_eq_true, decide_eq_true_eq, decide_eq_true_eq]
    omega
  rw [mem_visibleQuoteMatches]
  constructor
  · rintro ⟨_, hnearby, text, htext, hoccurs⟩
    have hshown := (mem_textsOf_modelVisible promptPayload transcript).mp htext
    exact ⟨(hnear hshown.pos).mp hnearby, text, hshown, hoccurs⟩
  · rintro ⟨hradius, text, hshown, hoccurs⟩
    exact ⟨hquote, (hnear hshown.pos).mpr hradius, text,
      (mem_textsOf_modelVisible promptPayload transcript).mpr hshown, hoccurs⟩

/-- Every resolution is grounded. -/
theorem groundedAt_of_resolvedTo
    (h : item.resolvedTo lines (modelVisibleLineTexts promptPayload transcript) = some line) :
    GroundedAt lines promptPayload transcript item line := by
  by_cases hown : line = item.line
  · subst hown
    obtain ⟨resolution, hresolution, hresolved⟩ := Option.bind_eq_some_iff.mp h
    obtain ⟨text, htext, rfl⟩ := Option.map_eq_some_iff.mp hresolution
    have hmem : item.line ∈ visibleQuoteMatches
        (modelVisibleLineTexts promptPayload transcript) item.line item.quote := by
      rcases resolveCitation_cases lines item.line text item.quote item.supports
        (modelVisibleLineTexts promptPayload transcript) with
        ⟨hmem, _⟩ | ⟨_, other, hone, _, hother, _⟩ | ⟨_, hnone, _⟩
      · exact hmem
      · rw [hother] at hresolved
        rw [hone, Option.some.inj hresolved]
        exact mem_cons_self
      · rw [hnone] at hresolved
        cases hresolved
    obtain ⟨hnear, hshown⟩ := mem_visibleMatches_iff.mp hmem
    exact ⟨h, htext ▸ rfl, hnear, hshown, fun hne => absurd rfl hne⟩
  · obtain ⟨_, _, hone, hsome⟩ :=
      EvidenceItem.movedTo_eq_some (EvidenceItem.movedTo_of_resolvedTo h hown)
    have hmatch : ∀ other, other ∈ visibleQuoteMatches
        (modelVisibleLineTexts promptPayload transcript) item.line item.quote ↔ other = line := by
      intro other
      rw [hone, mem_singleton]
    obtain ⟨hnear, hshown⟩ := mem_visibleMatches_iff.mp ((hmatch line).mpr rfl)
    exact ⟨h, hsome, hnear, hshown, fun _ other hnear hshown =>
      (hmatch other).mp (mem_visibleMatches_iff.mpr ⟨hnear, hshown⟩)⟩

/-- A tag has a line only through an item that is grounded. -/
theorem exists_grounded_of_supportingLines {tag : SupportTag}
    (haudit : grounding.audit.grounded =
      (auditedModelEvidence lines (modelVisibleLineTexts promptPayload transcript) evidence).grounded)
    (h : supportingLines grounding tag ≠ []) :
    ∃ item ∈ evidence, tag ∈ item.supports ∧
      ∃ line, GroundedAt lines promptPayload transcript item line := by
  obtain ⟨line, hline⟩ := exists_mem_of_ne_nil _ h
  obtain ⟨grounded, hmem, -⟩ := mem_map.mp (mem_dedup.mp hline)
  obtain ⟨hgrounded, htag⟩ := mem_filter.mp hmem
  rw [haudit] at hgrounded
  rcases mem_grounded_foldl hgrounded with hnone | ⟨item, hitem, hresolved, hsupports⟩
  · cases hnone
  · rw [zipIdx_map_fst] at hitem
    exact ⟨item, hitem, hsupports ▸ of_decide_eq_true htag, grounded.line,
      groundedAt_of_resolvedTo hresolved⟩

/-- No item for one of the two claims is left unresolved. -/
theorem exists_grounded_of_unresolved
    (haudit : grounding.audit.citationAudits =
      (auditedModelEvidence lines (modelVisibleLineTexts promptPayload transcript) evidence).citationAudits)
    (h : (groundRecoverySupport grounding).unresolvedLines = []) (hitem : item ∈ evidence)
    (htag : .failureDomain ∈ item.supports ∨ .retryOutlook ∈ item.supports) :
    ∃ line, GroundedAt lines promptPayload transcript item line := by
  have hindexed : item ∈ evidence.zipIdx.map Prod.fst := (zipIdx_map_fst 0 evidence).symm ▸ hitem
  obtain ⟨citation, hmem, -, hsupports, hresolved⟩ := (exists_audit_foldl lines
    (modelVisibleLineTexts promptPayload transcript) {}).2 item hindexed
  cases hline : item.resolvedTo lines (modelVisibleLineTexts promptPayload transcript) with
  | some line => exact ⟨line, groundedAt_of_resolvedTo hline⟩
  | none =>
    have hnil := (perm_insertionSort (· ≤ ·) _).symm.trans (.of_eq h)
    have hunresolved : citation ∈ grounding.audit.citationAudits.filter fun audit =>
        audit.resolvedLine.isNone &&
          (audit.supports.contains .failureDomain || audit.supports.contains .retryOutlook) := by
      refine mem_filter.mpr ⟨haudit ▸ hmem, ?_⟩
      rw [hresolved, hline, hsupports, Bool.and_eq_true, Bool.or_eq_true, contains_iff_mem,
        contains_iff_mem]
      exact ⟨rfl, htag⟩
    rw [perm_nil, map_eq_nil_iff] at hnil
    rw [hnil] at hunresolved
    cases hunresolved

theorem restsOnEvidence_of_policyGrounded {answer : L1Evidence}
    (h : policyGrounded lines promptPayload transcript answer = true) :
    RestsOnEvidence lines promptPayload transcript answer := by
  unfold policyGrounded at h
  split at h
  · cases h
  · next primary hprimary =>
    obtain ⟨grounding, hok, -, havailable, hgrounded, haudits⟩ :=
      groundPrimarySelection_line lines (modelVisibleLineTexts promptPayload transcript) primary
        answer.evidence
    rw [hok] at h
    unfold finalizeModelAudit at h
    simp only [Bool.and_eq_true, Bool.not_eq_true', isEmpty_eq_false_iff,
      List.isEmpty_iff] at h
    obtain ⟨⟨⟨⟨hsource, -⟩, hdomain⟩, houtlook⟩, hunresolved⟩ := h
    exact
      { primary := ⟨primary, grounding, hprimary, hok, havailable ▸ hsource⟩
        grounded := fun item hitem htag =>
          exists_grounded_of_unresolved haudits hunresolved hitem htag
        failureDomain := exists_grounded_of_supportingLines hgrounded hdomain
        retryOutlook := exists_grounded_of_supportingLines hgrounded houtlook }

theorem rule_of_workloadUnrecoverable {primary : Option FailureEvidence}
    {rule : Option RetryPolicyRule} {exhausted observedAdvance : Bool}
    (h : (decision primary rule exhausted observedAdvance).2 = .workloadUnrecoverable) :
    rule = some .workloadUnrecoverable := by
  by_contra hne
  unfold decision at h
  rw [if_neg hne] at h
  repeat' split at h
  all_goals cases h

/-- The policy takes the basis `workload_unrecoverable` for a grounded assessment only. -/
theorem grounded_of_workloadUnrecoverable {input : L4PolicyInput}
    (h : (evaluatePolicy input).decisionBasis = .workloadUnrecoverable) :
    input.assessmentGrounded = true := by
  have hrule := rule_of_workloadUnrecoverable h
  unfold selectRule at hrule
  split at hrule
  · cases hrule
  split at hrule
  · cases hrule
  split at hrule
  · cases hrule
  split at hrule
  · next hqualifies =>
    unfold currentEvidenceQualifies at hqualifies
    split at hqualifies
    · cases hqualifies
    · simp only [Bool.and_eq_true] at hqualifies
      exact hqualifies.1.1.1.1.2
  split at hrule
  · cases hrule
  split at hrule
  · cases hrule
  · cases hrule

/-- A recovery assessment that L2 reports as grounded rests on evidence that the model was shown,
and the policy stops a job as unrecoverable only for such an assessment. -/
theorem policyGrounded_restsOnEvidence (lines : List LineText) (promptPayload : Payload)
    (transcript : List TranscriptEvent) (answer : L1Evidence) :
    (policyGrounded lines promptPayload transcript answer = true →
      RestsOnEvidence lines promptPayload transcript answer) ∧
    ∀ input : L4PolicyInput,
      input.assessmentGrounded = policyGrounded lines promptPayload transcript answer →
      (evaluatePolicy input).decision = .stop →
      (evaluatePolicy input).decisionBasis = .workloadUnrecoverable →
      RestsOnEvidence lines promptPayload transcript answer :=
  ⟨restsOnEvidence_of_policyGrounded, fun _ hinput _ hbasis =>
    restsOnEvidence_of_policyGrounded (hinput ▸ grounded_of_workloadUnrecoverable hbasis)⟩

/-- The policy for the failure that `crashAnswer` finds. -/
def crashPolicy : L4PolicyInput where
  primary := some { failureClass := "cuda", faultOutcome := some .terminal }
  history := { available := false, availabilityReason := "history_disabled" }
  modelRecoveryAssessment := some crashAnswer.recoveryAssessment
  assessmentGrounded := true
  retryPolicy := ⟨1, 1, 5, by decide, by decide⟩

theorem policyGrounded_restsOnEvidence_crash :
    (evaluatePolicy crashPolicy).decisionBasis = .workloadUnrecoverable ∧
      RestsOnEvidence crashLines crashPayload [] crashAnswer := by
  have hgrounded : policyGrounded crashLines crashPayload [] crashAnswer = true := by
    decide +kernel
  have hbasis : (evaluatePolicy crashPolicy).decisionBasis = .workloadUnrecoverable := by decide
  exact ⟨hbasis, (policyGrounded_restsOnEvidence crashLines crashPayload [] crashAnswer).2
    crashPolicy hgrounded.symm (by decide) hbasis⟩

end ResiliencyExt.Attribution.RestartAgent
