import ResiliencyExt.Attribution.RestartAgent.Citations
import ResiliencyExt.Attribution.RestartAgent.RetryPolicy

set_option autoImplicit false

/-!
# Restart agent: grounding of the primary failure

`_audited_model_evidence` and `_ground_primary_selection` of `l2/audit.py`.  The evidence of the
model is resolved item by item.  The lines of those items that were moved to a line nearby are
kept in a map, and the line of the primary failure is looked up there.

An answer of the model is here what the contract of L1 lets pass, so that the branches for items
of another shape are left out, and so are the lines that only the findings on related failures
read.
-/

namespace ResiliencyExt.Attribution.RestartAgent

open Foundation List

inductive CausalRole where
  | initiating
  | cascade
  | teardown
  | unknown
deriving DecidableEq, Repr

/-- An item of the evidence that `_evidence_errors` has no error for. -/
structure EvidenceItem where
  id : LineText
  line : Int
  quote : LineText
  supports : List SupportTag
  line_pos : 1 ≤ line
  quote_ne : Unicode.strip quote ≠ []
  supports_ne : supports ≠ []
  supports_nodup : supports.Nodup
deriving DecidableEq

structure PrimaryFailure where
  line : Int
  causalRole : CausalRole
  line_pos : 1 ≤ line
deriving DecidableEq

/-- An answer that `model_evidence_contract_errors` has no error for. -/
structure L1Evidence where
  primaryFailure : Option PrimaryFailure
  rootCauseStatus : AssessmentStatus
  recoveryAssessment : ModelRecoveryAssessment
  evidence : List EvidenceItem
  ids_nodup : (evidence.map EvidenceItem.id).Nodup
  length_le : evidence.length ≤ 12
  supported : primaryFailure.isSome = true → ∀ tag, ∃ item ∈ evidence, tag ∈ item.supports
  unsupported : primaryFailure = none → evidence = []

/-! ## The audit -/

structure Finding where
  field : String
  message : String
  code : String
deriving DecidableEq, Repr

structure CitationAudit where
  index : Nat
  originalLine : Int
  resolvedLine : Option Int
  supports : List SupportTag
  status : CitationStatus
  candidateLines : List Int := []
deriving DecidableEq, Repr

structure GroundingAdjustment where
  field : String
  source : Int
  target : Int
deriving DecidableEq, Repr

structure GroundedItem where
  id : LineText
  line : Int
  quote : LineText
  supports : List SupportTag
deriving DecidableEq, Repr

/-- What the loop over the evidence has found so far. -/
structure EvidenceAudit where
  grounded : List GroundedItem := []
  resolvedLines : Dict Int Int := Dict.empty
  citationAudits : List CitationAudit := []
  adjustments : List GroundingAdjustment := []
  findings : List Finding := []

section Evidence

variable (lines : List LineText) (visible : LineTexts)

/-- The resolution of an item, unless its line is outside of the log. -/
def EvidenceItem.grounding (item : EvidenceItem) : Option CitationGrounding :=
  (logLine lines item.line).map fun text =>
    resolveCitation lines item.line text item.quote item.supports visible

/-- `f"evidence_{resolution.status}"` of an item that is not resolved. -/
def CitationStatus.code : CitationStatus → String
  | .exact => "evidence_exact"
  | .renderedExact => "evidence_rendered_exact"
  | .abbreviatedExact => "evidence_abbreviated_exact"
  | .nearbyResolved => "evidence_nearby_resolved"
  | .ambiguousNearbyMatch => "evidence_ambiguous_nearby_match"
  | .notModelVisible => "evidence_not_model_visible"
  | .ungrounded => "evidence_ungrounded"

/-- One item of `_audited_model_evidence`. -/
def auditItem (audit : EvidenceAudit) (e : EvidenceItem × Nat) : EvidenceAudit :=
  let (item, index) := e
  match item.grounding lines visible with
  | none =>
    { audit with
      findings := audit.findings ++
        [⟨"evidence", s!"evidence[{index}] line is outside the log",
          "evidence_line_outside_log"⟩]
      citationAudits := audit.citationAudits ++
        [⟨index, item.line, none, item.supports, .ungrounded, []⟩] }
  | some resolution =>
    let citationAudit : CitationAudit :=
      { index := index
        originalLine := item.line
        resolvedLine := resolution.resolvedLine
        supports := resolution.supports
        status := resolution.status
        candidateLines :=
          if resolution.status = .ambiguousNearbyMatch ∨ resolution.status = .notModelVisible ∨
            resolution.status = .ungrounded then resolution.candidateLines else [] }
    let citationAudits := audit.citationAudits ++ [citationAudit]
    match resolution.resolvedLine with
    | none =>
      let message :=
        if resolution.status = .notModelVisible then
          s!"evidence[{index}] line and quote were not visible to the model"
        else
          s!"evidence[{index}] quote could not be uniquely grounded near line {item.line}"
      { audit with
        citationAudits := citationAudits
        findings := audit.findings ++ [⟨"evidence", message, resolution.status.code⟩] }
    | some resolvedLine =>
      let grounded := audit.grounded ++
        [⟨item.id, resolvedLine, resolution.quote, resolution.supports⟩]
      if resolution.status = .nearbyResolved then
        { audit with
          citationAudits := citationAudits
          grounded := grounded
          resolvedLines := audit.resolvedLines.set item.line resolvedLine
          adjustments := audit.adjustments ++
            [⟨s!"evidence[{index}].line", item.line, resolvedLine⟩] }
      else { audit with citationAudits := citationAudits, grounded := grounded }

/-- `_audited_model_evidence` -/
def auditedModelEvidence (evidence : List EvidenceItem) : EvidenceAudit :=
  evidence.zipIdx.foldl (auditItem lines visible) {}

inductive GroundingMethod where
  | exactSourceLine
  | unavailable
  | nearbyUniqueQuoteMatch
deriving DecidableEq, Repr

structure PrimaryGrounding where
  line : Int
  logLine : LineText
  sourceLineAvailable : Bool
  groundingMethod : GroundingMethod
  audit : EvidenceAudit

/-- `_ground_primary_selection` of an answer with a primary failure. -/
def groundPrimarySelection (primary : PrimaryFailure) (evidence : List EvidenceItem) :
    Except String PrimaryGrounding :=
  let source := logLine lines primary.line
  let audited := auditedModelEvidence lines visible evidence
  let roleFindings : List Finding :=
    if primary.causalRole = .initiating ∨ primary.causalRole = .unknown then []
    else [⟨"primary_failure", "primary_failure causal_role is not initiating or unknown",
      "primary_causal_role_suspect"⟩]
  let lineFindings : List Finding :=
    if source.isSome then []
    else [⟨"primary_failure", s!"primary_failure line {primary.line} is outside the source log",
      "primary_line_outside_log"⟩]
  let audit := { audited with findings := roleFindings ++ lineFindings ++ audited.findings }
  let resolvedPrimaryLine := (audited.resolvedLines.get? primary.line).getD primary.line
  if resolvedPrimaryLine ≠ primary.line then
    match logLine lines resolvedPrimaryLine with
    | none => .error "resolved evidence line must exist in source log"
    | some text =>
      .ok
        { line := resolvedPrimaryLine
          logLine := text
          sourceLineAvailable := true
          groundingMethod := .nearbyUniqueQuoteMatch
          audit := { audit with
            adjustments := audit.adjustments ++
              [⟨"primary_failure.line", primary.line, resolvedPrimaryLine⟩] } }
  else
    .ok
      { line := primary.line
        logLine := source.getD "unverified model-selected failure".toList
        sourceLineAvailable := source.isSome
        groundingMethod := if source.isSome then .exactSourceLine else .unavailable
        audit := audit }

/-! ## The lines of the items -/

/-- The line that the item is resolved to. -/
def EvidenceItem.resolvedTo (item : EvidenceItem) : Option Int :=
  (item.grounding lines visible).bind CitationGrounding.resolvedLine

/-- The line that the item was moved to, as the only one nearby with its quote. -/
def EvidenceItem.movedTo (item : EvidenceItem) : Option Int :=
  (item.grounding lines visible).bind fun resolution =>
    if resolution.status = .nearbyResolved then resolution.resolvedLine else none

end Evidence

variable {lines : List LineText} {visible : LineTexts}

namespace EvidenceItem

variable {item : EvidenceItem} {target : Int}

/-- An item that was moved has its new line as the only one nearby with its quote, and that line is
in the log. -/
theorem movedTo_eq_some (h : item.movedTo lines visible = some target) :
    item.resolvedTo lines visible = some target ∧ target ≠ item.line ∧
      visibleQuoteMatches visible item.line item.quote = [target] ∧
      (logLine lines target).isSome = true := by
  obtain ⟨resolution, hresolution, hmoved⟩ := Option.bind_eq_some_iff.mp h
  obtain ⟨text, _, rfl⟩ := Option.map_eq_some_iff.mp hresolution
  rcases resolveCitation_cases lines item.line text item.quote item.supports visible with
    ⟨_, _, hstatus⟩ | ⟨hown, resolvedLine, hone, hsome, hresolved, hstatus⟩ | ⟨_, _, hstatus⟩
  · rw [if_neg hstatus] at hmoved
    cases hmoved
  · rw [if_pos hstatus, hresolved] at hmoved
    cases hmoved
    refine ⟨Option.bind_eq_some_iff.mpr ⟨_, hresolution, hresolved⟩, ?_, hone, hsome⟩
    rintro rfl
    rw [hone] at hown
    exact hown mem_cons_self
  · rw [if_neg hstatus] at hmoved
    cases hmoved

/-- An item that is resolved to another line was moved there. -/
theorem movedTo_of_resolvedTo (h : item.resolvedTo lines visible = some target)
    (hne : target ≠ item.line) : item.movedTo lines visible = some target := by
  obtain ⟨resolution, hresolution, hresolved⟩ := Option.bind_eq_some_iff.mp h
  obtain ⟨text, _, rfl⟩ := Option.map_eq_some_iff.mp hresolution
  refine Option.bind_eq_some_iff.mpr ⟨_, hresolution, ?_⟩
  rcases resolveCitation_cases lines item.line text item.quote item.supports visible with
    ⟨_, hline, _⟩ | ⟨_, resolvedLine, _, _, _, hstatus⟩ | ⟨_, hnone, _⟩
  · rw [hline] at hresolved
    exact absurd (Option.some.inj hresolved).symm hne
  · rw [if_pos hstatus, hresolved]
  · rw [hnone] at hresolved
    cases hresolved

end EvidenceItem

/-! ## The map of the moved lines -/

theorem resolvedLines_auditItem (audit : EvidenceAudit) (item : EvidenceItem) (index : Nat) :
    (auditItem lines visible audit (item, index)).resolvedLines =
      match item.movedTo lines visible with
      | some target => audit.resolvedLines.set item.line target
      | none => audit.resolvedLines := by
  unfold auditItem EvidenceItem.movedTo
  dsimp only
  cases item.grounding lines visible with
  | none => rfl
  | some resolution =>
    rw [Option.bind_some]
    dsimp only
    cases resolution.resolvedLine with
    | none =>
      rw [ite_self]
    | some target =>
      by_cases hstatus : resolution.status = .nearbyResolved
      · simp only [if_pos hstatus]
      · simp only [if_neg hstatus]

/-- The lines that the items at `line` were moved to, in order. -/
def moves (lines : List LineText) (visible : LineTexts) (line : Int)
    (evidence : List EvidenceItem) : List Int :=
  evidence.filterMap fun item =>
    if item.line = line then item.movedTo lines visible else none

theorem mem_moves {line target : Int} {evidence : List EvidenceItem} :
    target ∈ moves lines visible line evidence ↔
      ∃ item ∈ evidence, item.line = line ∧ item.movedTo lines visible = some target := by
  refine mem_filterMap.trans (exists_congr fun item => and_congr Iff.rfl ?_)
  split
  · next hline => exact ⟨fun h => ⟨hline, h⟩, And.right⟩
  · next hline => exact ⟨nofun, fun h => absurd h.1 hline⟩

theorem ne_of_mem_moves {line target : Int} {evidence : List EvidenceItem}
    (h : target ∈ moves lines visible line evidence) : target ≠ line := by
  obtain ⟨item, _, rfl, hmoved⟩ := mem_moves.mp h
  exact (EvidenceItem.movedTo_eq_some hmoved).2.1

/-- Of the items with one line the last that was moved is in the map. -/
theorem get?_foldl_auditItem (line : Int) (entries : List (EvidenceItem × Nat))
    (audit : EvidenceAudit) :
    (entries.foldl (auditItem lines visible) audit).resolvedLines.get? line =
      (moves lines visible line (entries.map Prod.fst)).getLast?.or
        (audit.resolvedLines.get? line) := by
  induction entries generalizing audit with
  | nil => rfl
  | cons e entries ih =>
    obtain ⟨item, index⟩ := e
    rw [foldl_cons, ih, resolvedLines_auditItem, map_cons]
    have hcons : moves lines visible line (item :: entries.map Prod.fst) =
        (if item.line = line then item.movedTo lines visible else none).toList ++
          moves lines visible line (entries.map Prod.fst) := by
      unfold moves
      rw [filterMap_cons]
      split <;> next h => rw [h]; rfl
    rw [hcons]
    split
    · next target hmoved =>
      rw [hmoved, Dict.get?_set]
      by_cases hline : item.line = line
      · rw [if_pos hline, if_pos hline.symm, Option.toList_some, singleton_append,
          getLast?_cons]
        cases (moves lines visible line (entries.map Prod.fst)).getLast? <;> rfl
      · rw [if_neg hline, if_neg fun heq => hline heq.symm]
        rfl
    · next hnone =>
      rw [hnone, ite_self]
      rfl

/-- The primary failure goes to the last line that an item at its line was moved to. -/
theorem groundPrimarySelection_line (lines : List LineText) (visible : LineTexts)
    (primary : PrimaryFailure) (evidence : List EvidenceItem) :
    ∃ grounding, groundPrimarySelection lines visible primary evidence = .ok grounding ∧
      grounding.line = (moves lines visible primary.line evidence).getLast?.getD primary.line ∧
      grounding.sourceLineAvailable = (logLine lines grounding.line).isSome ∧
      grounding.audit.grounded = (auditedModelEvidence lines visible evidence).grounded ∧
      grounding.audit.citationAudits =
        (auditedModelEvidence lines visible evidence).citationAudits := by
  have hget : (auditedModelEvidence lines visible evidence).resolvedLines.get? primary.line =
      (moves lines visible primary.line evidence).getLast? := by
    rw [auditedModelEvidence, get?_foldl_auditItem, zipIdx_map_fst]
    exact Option.or_none
  unfold groundPrimarySelection
  dsimp only
  rw [hget]
  split
  · next hne =>
    cases hlast : (moves lines visible primary.line evidence).getLast? with
    | none =>
      rw [hlast] at hne
      exact absurd rfl hne
    | some target =>
      obtain ⟨item, _, _, hmoved⟩ := mem_moves.mp (mem_of_getLast? hlast)
      obtain ⟨text, htext⟩ :=
        Option.isSome_iff_exists.mp (EvidenceItem.movedTo_eq_some hmoved).2.2.2
      rw [Option.getD_some, htext]
      exact ⟨_, rfl, rfl, htext ▸ rfl, rfl, rfl⟩
  · next hsame =>
    refine ⟨_, rfl, ?_, rfl, rfl, rfl⟩
    exact (Classical.not_not.mp hsame).symm

/-! ## The evidence of the primary failure -/

/-- The line of the primary failure as grounded. -/
def groundedPrimaryLine (lines : List LineText) (visible : LineTexts) (primary : PrimaryFailure)
    (evidence : List EvidenceItem) : Option Int :=
  (groundPrimarySelection lines visible primary evidence).toOption.map PrimaryGrounding.line

def EvidenceItem.supportsPrimary (item : EvidenceItem) : Bool :=
  .primaryFailure ∈ item.supports

/-- The line of the primary failure is moved by its own evidence only: not while an item at the
line is resolved to the line itself, and only to where such an item that supports the primary
failure was moved, whatever the order of the items and whatever supports other claims. -/
structure MovedByOwnEvidence (lines : List LineText) (visible : LineTexts)
    (primary : PrimaryFailure) (evidence : List EvidenceItem) (line : Int) : Prop where
  unresolved : line ≠ primary.line → ∀ item ∈ evidence, item.line = primary.line →
    item.resolvedTo lines visible ≠ some primary.line
  moved : line ≠ primary.line → ∃ item ∈ evidence, item.line = primary.line ∧
    item.supportsPrimary = true ∧ item.movedTo lines visible = some line
  independent : ∀ other : List EvidenceItem,
    other.Perm evidence ∨ other.Perm (evidence.filter EvidenceItem.supportsPrimary) →
      groundedPrimaryLine lines visible primary other = some line

/-- Of the items at the line none is moved, or none is resolved to the line itself, and those that
are moved go to one line, as one that supports the primary failure does. -/
def MovesTogether (lines : List LineText) (visible : LineTexts) (primary : PrimaryFailure)
    (evidence : List EvidenceItem) : Prop :=
  (∀ item ∈ evidence, item.line = primary.line → item.movedTo lines visible = none) ∨
    ∃ target, (∀ item ∈ evidence, item.line = primary.line →
        item.resolvedTo lines visible ≠ some primary.line ∧
          ∀ other, item.movedTo lines visible = some other → other = target) ∧
      ∃ item ∈ evidence, item.line = primary.line ∧ item.supportsPrimary = true ∧
        item.movedTo lines visible = some target

variable {primary : PrimaryFailure} {evidence : List EvidenceItem}

theorem groundedPrimaryLine_eq (primary : PrimaryFailure) (evidence : List EvidenceItem) :
    groundedPrimaryLine lines visible primary evidence =
      some ((moves lines visible primary.line evidence).getLast?.getD primary.line) := by
  obtain ⟨grounding, hok, hline, -⟩ :=
    groundPrimarySelection_line lines visible primary evidence
  rw [groundedPrimaryLine, hok, ← hline]
  rfl

/-- The last of a list whose members are all the same. -/
theorem getLast?_getD_of_forall {targets : List Int} {target fallback : Int}
    (hall : ∀ other ∈ targets, other = target) (hmem : target ∈ targets) :
    targets.getLast?.getD fallback = target := by
  cases hlast : targets.getLast? with
  | none =>
    rw [getLast?_eq_none_iff] at hlast
    rw [hlast] at hmem
    cases hmem
  | some last => exact hall last (mem_of_getLast? hlast)

/-- Without a move the line stays, whatever items are left out. -/
theorem moves_eq_nil (h : ∀ item ∈ evidence, item.line = primary.line →
    item.movedTo lines visible = none) : moves lines visible primary.line evidence = [] := by
  refine eq_nil_iff_forall_not_mem.mpr fun target hmem => ?_
  obtain ⟨item, hitem, hline, hmoved⟩ := mem_moves.mp hmem
  rw [h item hitem hline] at hmoved
  cases hmoved

/-- The grounded line of the primary failure moves by its own evidence exactly when the items at
the line move together. -/
theorem movedByOwnEvidence_iff (lines : List LineText) (visible : LineTexts)
    (primary : PrimaryFailure) (evidence : List EvidenceItem) :
    (∃ line, groundedPrimaryLine lines visible primary evidence = some line ∧
      MovedByOwnEvidence lines visible primary evidence line) ↔
    MovesTogether lines visible primary evidence := by
  constructor
  · rintro ⟨line, hline, hown⟩
    by_cases hmoves : moves lines visible primary.line evidence = []
    · refine .inl fun item hitem hat => Option.eq_none_iff_forall_ne_some.mpr fun target hmoved => ?_
      have hmem : target ∈ moves lines visible primary.line evidence :=
        mem_moves.mpr ⟨item, hitem, hat, hmoved⟩
      rw [hmoves] at hmem
      cases hmem
    · have hlast : ∀ item ∈ evidence, item.line = primary.line → ∀ target,
          item.movedTo lines visible = some target → target = line := by
        intro item hitem hat target hmoved
        -- The item is the last one of another order of the evidence.
        have hperm : (evidence.erase item ++ [item]).Perm evidence :=
          (perm_append_singleton _ _).trans (perm_cons_erase hitem).symm
        have hgrounded := hown.independent _ (.inl hperm)
        have hend : moves lines visible primary.line (evidence.erase item ++ [item]) =
            moves lines visible primary.line (evidence.erase item) ++ [target] := by
          unfold moves
          rw [filterMap_append, filterMap_cons, if_pos hat, hmoved]
          rfl
        rw [groundedPrimaryLine_eq, hend, getLast?_concat] at hgrounded
        exact Option.some.inj hgrounded
      obtain ⟨target, hmem⟩ := exists_mem_of_ne_nil _ hmoves
      obtain ⟨item, hitem, hat, hmoved⟩ := mem_moves.mp hmem
      have hne : line ≠ primary.line := by
        rw [← hlast item hitem hat target hmoved]
        exact ne_of_mem_moves hmem
      refine .inr ⟨line, fun item hitem hat => ⟨hown.unresolved hne item hitem hat, ?_⟩, ?_⟩
      · exact hlast item hitem hat
      · exact hown.moved hne
  · rintro (hnone | ⟨target, hall, item, hitem, hat, hsupports, hmoved⟩)
    · refine ⟨primary.line, ?_, fun h => absurd rfl h, fun h => absurd rfl h, ?_⟩
      · rw [groundedPrimaryLine_eq, moves_eq_nil hnone]
        rfl
      · intro other hother
        rw [groundedPrimaryLine_eq, moves_eq_nil]
        · rfl
        · intro item hitem hat
          rcases hother with hperm | hperm
          · exact hnone item (hperm.mem_iff.mp hitem) hat
          · exact hnone item (mem_filter.mp (hperm.mem_iff.mp hitem)).1 hat
    · have hgrounded : ∀ other : List EvidenceItem, (∀ item ∈ other, item ∈ evidence) →
          item ∈ other → groundedPrimaryLine lines visible primary other = some target := by
        intro other hsubset hmem
        rw [groundedPrimaryLine_eq]
        refine congrArg some (getLast?_getD_of_forall (fun target' hmem' => ?_)
          (mem_moves.mpr ⟨item, hmem, hat, hmoved⟩))
        obtain ⟨item', hitem', hat', hmoved'⟩ := mem_moves.mp hmem'
        exact (hall item' (hsubset item' hitem') hat').2 target' hmoved'
      refine ⟨target, hgrounded evidence (fun _ => id) hitem, ?_, ?_, ?_⟩
      · exact fun _ item hitem hat => (hall item hitem hat).1
      · exact fun _ => ⟨item, hitem, hat, hsupports, hmoved⟩
      · intro other hother
        rcases hother with hperm | hperm
        · exact hgrounded other (fun item => hperm.mem_iff.mp) (hperm.mem_iff.mpr hitem)
        · refine hgrounded other (fun item hmem => ?_) ?_
          · exact (mem_filter.mp (hperm.mem_iff.mp hmem)).1
          · exact hperm.mem_iff.mpr (mem_filter.mpr ⟨hitem, hsupports⟩)

/-! ## A citation of another claim -/

/-- The two lines of a log that the model was shown. -/
def crashLines : List LineText :=
  ["RuntimeError: CUDA error".toList, "worker exited with status 1".toList]

def crashPayload : Payload :=
  .dict [("lines".toList, .list
    [.dict [("line".toList, .int 1), ("text".toList, .str "RuntimeError: CUDA error".toList)],
      .dict [("line".toList, .int 2), ("text".toList, .str "worker exited with status 1".toList)]])]

def crashPrimary : PrimaryFailure where
  line := 1
  causalRole := .initiating
  line_pos := by decide

/-- The primary failure with the line it is at. -/
def primaryItem : EvidenceItem where
  id := "e1".toList
  line := 1
  quote := "CUDA error".toList
  supports := [.primaryFailure, .rootCauseAssessment, .failureDomain]
  line_pos := by decide
  quote_ne := by decide
  supports_ne := by decide
  supports_nodup := by decide

/-- The outlook, with the quote of the line that follows. -/
def outlookItem : EvidenceItem where
  id := "e2".toList
  line := 1
  quote := "worker exited".toList
  supports := [.retryOutlook]
  line_pos := by decide
  quote_ne := by decide
  supports_ne := by decide
  supports_nodup := by decide

def crashAnswer : L1Evidence where
  primaryFailure := some crashPrimary
  rootCauseStatus := .establishedByCurrentLog
  recoveryAssessment :=
    ⟨.workload, .establishedByCurrentLog, .cannotRecover, .establishedByCurrentLog⟩
  evidence := [primaryItem, outlookItem]
  ids_nodup := by decide
  length_le := by decide
  supported := by
    intro _ tag
    cases tag with
    | retryOutlook => exact ⟨outlookItem, by decide, by decide⟩
    | _ => exact ⟨primaryItem, by decide, by decide⟩
  unsupported := nofun

/-- The item of the outlook moves the primary failure, whose own item is resolved to its line. -/
theorem not_movedByOwnEvidence :
    crashAnswer.primaryFailure = some crashPrimary ∧
      groundedPrimaryLine crashLines (modelVisibleLineTexts crashPayload []) crashPrimary
        crashAnswer.evidence = some 2 ∧
      ¬ ∃ line, groundedPrimaryLine crashLines (modelVisibleLineTexts crashPayload []) crashPrimary
          crashAnswer.evidence = some line ∧
        MovedByOwnEvidence crashLines (modelVisibleLineTexts crashPayload []) crashPrimary
          crashAnswer.evidence line := by
  have hgrounded : groundedPrimaryLine crashLines (modelVisibleLineTexts crashPayload [])
      crashPrimary crashAnswer.evidence = some 2 := by decide +kernel
  refine ⟨rfl, hgrounded, ?_⟩
  rintro ⟨line, hline, hown⟩
  obtain rfl : 2 = line := Option.some.inj (hgrounded.symm.trans hline)
  have hexact : primaryItem.resolvedTo crashLines (modelVisibleLineTexts crashPayload []) =
      some 1 := by decide +kernel
  exact hown.unresolved (by decide) primaryItem mem_cons_self rfl hexact

end ResiliencyExt.Attribution.RestartAgent
