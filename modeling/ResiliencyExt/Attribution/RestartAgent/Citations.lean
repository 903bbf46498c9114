import ResiliencyExt.Attribution.RestartAgent.VisibleTexts
import ResiliencyExt.Foundation.TextSearch
import ResiliencyExt.Foundation.Unicode

set_option autoImplicit false

/-!
# Restart agent: citations

`_resolve_citation` of `l2/audit.py`.  A citation is a line with a quote.  It is resolved to its
own line when the quote is in a text that the model was shown for it, and else to the one line
nearby that has such a text.
-/

namespace ResiliencyExt.Attribution.RestartAgent

open Foundation List

/-! ## Quotes -/

/-- The length of a truncation mark at the start of the text. -/
def markLength (text : LineText) : Option Nat :=
  if "...[truncated]".toList <+: text then some 14
  else if "...".toList <+: text then some 3
  else if "…".toList <+: text then some 1
  else none

/-- `re.split` at the truncation marks, with `skip` characters of a mark still to pass. -/
def splitAtMarks : Nat → LineText → List LineText
  | _, [] => [[]]
  | skip + 1, _ :: rest => splitAtMarks skip rest
  | 0, c :: rest =>
    match markLength (c :: rest) with
    | some length => [] :: splitAtMarks (length - 1) rest
    | none =>
      match splitAtMarks 0 rest with
      | [] => [[c]]
      | piece :: pieces => (c :: piece) :: pieces

/-- The fragments of a quote between the truncation marks, without blank ones. -/
def quoteFragments (quote : LineText) : List LineText :=
  ((splitAtMarks 0 quote).map Unicode.strip).filter fun fragment => fragment ≠ []

/-- `"..." in quote or "…" in quote` -/
def isAbbreviated (quote : LineText) : Bool :=
  TextSearch.occursIn "...".toList quote || TextSearch.occursIn "…".toList quote

/-- `_quote_matches` -/
def quoteMatches (source quote : LineText) : Bool :=
  if TextSearch.occursIn quote source then true
  else
    let fragments := quoteFragments quote
    if fragments.length = 1 && !isAbbreviated quote then false
    else TextSearch.findInOrder fragments source && !fragments.isEmpty

/-- The quote stands in the text, or it is abbreviated and all its fragments do, in order and
without overlap. -/
def Occurs (quote text : LineText) : Prop :=
  quote <:+: text ∨ (isAbbreviated quote = true ∧ quoteFragments quote ≠ [] ∧
    TextSearch.InOrder (quoteFragments quote) text)

/-! ## Resolution -/

/-- `LogSnapshot.line` of the lines of a log. -/
def logLine (lines : List LineText) (line : Int) : Option LineText :=
  if line < 1 ∨ (lines.length : Int) < line then none else lines[(line - 1).toNat]?

/-- `NEARBY_EVIDENCE_LINE_RADIUS` -/
def nearbyEvidenceLineRadius : Int := 5

/-- From `max(1, line - radius)` to `line + radius`. -/
def isNearby (line candidate : Int) : Bool :=
  max 1 (line - nearbyEvidenceLineRadius) ≤ candidate &&
    candidate ≤ line + nearbyEvidenceLineRadius

inductive CitationStatus where
  | exact
  | renderedExact
  | abbreviatedExact
  | nearbyResolved
  | ambiguousNearbyMatch
  | notModelVisible
  | ungrounded
deriving DecidableEq, Repr

/-- `evidence_support_tags` -/
inductive SupportTag where
  | primaryFailure
  | rootCauseAssessment
  | failureDomain
  | retryOutlook
deriving DecidableEq, Repr

structure CitationGrounding where
  originalLine : Int
  resolvedLine : Option Int
  quote : LineText
  supports : List SupportTag
  status : CitationStatus
  candidateLines : List Int := []
deriving DecidableEq, Repr

/-- `_visible_quote_matches` -/
def visibleQuoteMatches (visible : LineTexts) (line : Int) (quote : LineText) : List Int :=
  if quote = [] then []
  else (visible.entries.filter fun e => isNearby line e.1 &&
    e.2.any fun text => TextSearch.occursIn quote text || quoteMatches text quote).map Prod.fst

/-- `_nearby_quote_matches` -/
def nearbyQuoteMatches (lines : List LineText) (line : Int) (quote : LineText) : List Int :=
  if quote = [] then []
  else ((List.range 11).map fun i => line - nearbyEvidenceLineRadius + (i : Int)).filter
    fun candidate => isNearby line candidate && candidate ≠ line &&
      (logLine lines candidate).any fun text => quoteMatches text quote

/-- `_resolve_citation` -/
def resolveCitation (lines : List LineText) (line : Int) (text quote : LineText)
    (supports : List SupportTag) (visible : LineTexts) : CitationGrounding :=
  let resolved := fun (resolvedLine : Int) (status : CitationStatus) =>
    ({ originalLine := line, resolvedLine := some resolvedLine, quote := quote,
       supports := supports, status := status } : CitationGrounding)
  let unresolved := fun (status : CitationStatus) (candidateLines : List Int) =>
    ({ originalLine := line, resolvedLine := none, quote := quote, supports := supports,
       status := status, candidateLines := candidateLines } : CitationGrounding)
  let visibleMatches := visibleQuoteMatches visible line quote
  if line ∉ visibleMatches then
    let missed := unresolved
      (if visibleMatches = [] then .notModelVisible else .ambiguousNearbyMatch) visibleMatches
    match visibleMatches with
    | [resolvedLine] =>
      if quote ≠ [] ∧ (logLine lines resolvedLine).any (fun source => quoteMatches source quote)
      then resolved resolvedLine .nearbyResolved
      else missed
    | _ => missed
  else
    let visibleTexts := textsOf visible line
    if quote ≠ [] ∧ TextSearch.occursIn quote text ∧
        visibleTexts.any (fun source => TextSearch.occursIn quote source) then
      resolved line .exact
    else if quote ≠ [] ∧ visibleTexts.any (fun source => TextSearch.occursIn quote source) then
      resolved line .renderedExact
    else if quote ≠ [] ∧ (quoteMatches text quote ∨
        visibleTexts.any fun source => quoteMatches source quote) then
      resolved line .abbreviatedExact
    else
      let nearby := (nearbyQuoteMatches lines line quote).filter fun candidate =>
        candidate ∈ visibleMatches
      match nearby with
      | [resolvedLine] => resolved resolvedLine .nearbyResolved
      | [] => unresolved .ungrounded nearby
      | _ => unresolved .ambiguousNearbyMatch nearby

/-! ## What a matching quote says -/

theorem isAbbreviated_of_suffix {text rest : LineText} (hsuffix : rest <:+ text)
    (h : isAbbreviated rest = true) : isAbbreviated text = true := by
  unfold isAbbreviated at h ⊢
  rw [Bool.or_eq_true, TextSearch.occursIn_iff, TextSearch.occursIn_iff] at h ⊢
  exact h.imp (·.trans hsuffix.isInfix) (·.trans hsuffix.isInfix)

theorem isAbbreviated_of_markLength {text : LineText} {length : Nat}
    (h : markLength text = some length) : isAbbreviated text = true := by
  unfold isAbbreviated
  rw [Bool.or_eq_true, TextSearch.occursIn_iff, TextSearch.occursIn_iff]
  unfold markLength at h
  split at h
  · next hprefix =>
    have hdots : "...".toList <+: "...[truncated]".toList := by decide
    exact .inl (hdots.trans hprefix).isInfix
  split at h
  · next hprefix => exact .inl hprefix.isInfix
  split at h
  · next hprefix => exact .inr hprefix.isInfix
  · cases h

/-- There are two pieces only where there is a mark. -/
theorem isAbbreviated_of_pieces (text : LineText) : ∀ skip,
    1 < (splitAtMarks skip text).length → isAbbreviated text = true := by
  induction text with
  | nil =>
    intro skip h
    cases skip <;> exact absurd h (Nat.lt_irrefl 1)
  | cons c rest ih =>
    intro skip h
    cases skip with
    | succ skip => exact isAbbreviated_of_suffix (suffix_cons c rest) (ih skip h)
    | zero =>
      rw [splitAtMarks] at h
      split at h
      · next hmark => exact isAbbreviated_of_markLength hmark
      · split at h
        · exact absurd h (Nat.lt_irrefl 1)
        · next piece pieces hpieces =>
          refine isAbbreviated_of_suffix (suffix_cons c rest) (ih 0 ?_)
          rw [hpieces]
          exact h

/-- `_quote_matches` finds what stands in the text, and nothing else. -/
theorem quoteMatches_iff {text quote : LineText} :
    quoteMatches text quote = true ↔ Occurs quote text := by
  unfold quoteMatches Occurs
  split
  · next hoccurs => exact ⟨fun _ => .inl (TextSearch.occursIn_iff.mp hoccurs), fun _ => rfl⟩
  · next hnot =>
    rw [TextSearch.occursIn_iff] at hnot
    dsimp only
    split
    · next hwhole =>
      rw [Bool.and_eq_true, Bool.not_eq_true'] at hwhole
      refine ⟨fun h => absurd h Bool.false_ne_true, fun h => ?_⟩
      rcases h with h | ⟨habbreviated, _⟩
      · exact absurd h hnot
      · rw [hwhole.2] at habbreviated
        cases habbreviated
    · next hmany =>
      rw [Bool.and_eq_true, TextSearch.findInOrder_iff, Bool.not_eq_true',
        isEmpty_eq_false_iff]
      constructor
      · rintro ⟨hfound, hne⟩
        refine .inr ⟨?_, hne, hfound⟩
        cases habbreviated : isAbbreviated quote with
        | true => rfl
        | false =>
          have hone : (quoteFragments quote).length ≠ 1 := by
            intro hone
            rw [habbreviated] at hmany
            exact hmany (by rw [hone]; rfl)
          have hpos := length_pos_iff.mpr hne
          have hle : (quoteFragments quote).length ≤ (splitAtMarks 0 quote).length := by
            unfold quoteFragments
            exact (length_filter_le _ _).trans_eq (length_map _)
          have hpieces := isAbbreviated_of_pieces quote 0 (by omega)
          exact habbreviated.symm.trans hpieces
      · rintro (h | ⟨_, hne, hfound⟩)
        · exact absurd h hnot
        · exact ⟨hfound, hne⟩

/-- The lines nearby that have a text with the quote. -/
theorem mem_visibleQuoteMatches {visible : LineTexts} {line candidate : Int} {quote : LineText} :
    candidate ∈ visibleQuoteMatches visible line quote ↔
      quote ≠ [] ∧ isNearby line candidate = true ∧
        ∃ text ∈ textsOf visible candidate, Occurs quote text := by
  have hmatches : ∀ text, (TextSearch.occursIn quote text || quoteMatches text quote) = true ↔
      Occurs quote text := by
    intro text
    rw [Bool.or_eq_true, TextSearch.occursIn_iff, quoteMatches_iff]
    exact or_iff_right_of_imp .inl
  unfold visibleQuoteMatches
  split
  · next hnil => exact ⟨nofun, fun h => absurd hnil h.1⟩
  · next hne =>
    rw [mem_map]
    constructor
    · rintro ⟨⟨line', texts⟩, hmem, rfl⟩
      obtain ⟨hentry, hnear⟩ := mem_filter.mp hmem
      obtain ⟨hnear, hany⟩ := Bool.and_eq_true_iff.mp hnear
      obtain ⟨text, htext, hoccurs⟩ := any_eq_true.mp hany
      refine ⟨hne, hnear, text, ?_, (hmatches text).mp hoccurs⟩
      rwa [textsOf_of_mem_entries hentry]
    · rintro ⟨_, hnear, text, htext, hoccurs⟩
      refine ⟨(candidate, textsOf visible candidate), mem_filter.mpr
        ⟨mem_entries_of_mem_textsOf htext, ?_⟩, rfl⟩
      exact Bool.and_eq_true_iff.mpr
        ⟨hnear, any_eq_true.mpr ⟨text, htext, (hmatches text).mpr hoccurs⟩⟩

/-! ## What a resolution says -/

/-- A citation is resolved to its own line, when that has a text with the quote, or else to the
only line nearby that has one, which is in the log, or it is not resolved. -/
theorem resolveCitation_cases (lines : List LineText) (line : Int) (text quote : LineText)
    (supports : List SupportTag) (visible : LineTexts) :
    (line ∈ visibleQuoteMatches visible line quote ∧
      (resolveCitation lines line text quote supports visible).resolvedLine = some line ∧
      (resolveCitation lines line text quote supports visible).status ≠ .nearbyResolved) ∨
    (line ∉ visibleQuoteMatches visible line quote ∧ ∃ resolvedLine,
      visibleQuoteMatches visible line quote = [resolvedLine] ∧
      (logLine lines resolvedLine).isSome = true ∧
      (resolveCitation lines line text quote supports visible).resolvedLine = some resolvedLine ∧
      (resolveCitation lines line text quote supports visible).status = .nearbyResolved) ∨
    (line ∉ visibleQuoteMatches visible line quote ∧
      (resolveCitation lines line text quote supports visible).resolvedLine = none ∧
      (resolveCitation lines line text quote supports visible).status ≠ .nearbyResolved) := by
  by_cases hown : line ∈ visibleQuoteMatches visible line quote
  · refine .inl ⟨hown, ?_⟩
    obtain ⟨hne, _, source, hsource, hoccurs⟩ := mem_visibleQuoteMatches.mp hown
    -- The text that makes the line a match is found again by the last of the three tests.
    have hany : (textsOf visible line).any (fun source => quoteMatches source quote) = true :=
      any_eq_true.mpr ⟨source, hsource, quoteMatches_iff.mpr hoccurs⟩
    unfold resolveCitation
    dsimp only
    rw [if_neg (not_not_intro hown)]
    split
    · exact ⟨rfl, nofun⟩
    split
    · exact ⟨rfl, nofun⟩
    split
    · exact ⟨rfl, nofun⟩
    · next hnot => exact absurd ⟨hne, .inr hany⟩ hnot
  · refine .inr ?_
    have hmissed : (if visibleQuoteMatches visible line quote = [] then
        CitationStatus.notModelVisible else .ambiguousNearbyMatch) ≠ .nearbyResolved := by
      split <;> nofun
    unfold resolveCitation
    dsimp only
    rw [if_pos hown]
    split
    · next resolvedLine hone =>
      split
      · next hsource =>
        have hsome : (logLine lines resolvedLine).isSome = true := by
          cases hline : logLine lines resolvedLine with
          | none => exact absurd (hline ▸ hsource.2) nofun
          | some source => rfl
        exact .inl ⟨hown, resolvedLine, hone, hsome, rfl, rfl⟩
      · exact .inr ⟨hown, rfl, hmissed⟩
    · exact .inr ⟨hown, rfl, hmissed⟩

end ResiliencyExt.Attribution.RestartAgent
