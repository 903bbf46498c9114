import ResiliencyExt.Attribution.RestartAgent.Observe
import ResiliencyExt.Attribution.RestartAgent.RankAgreement
import ResiliencyExt.Foundation.Fallible

set_option autoImplicit false

/-!
# Restart agent: what a log must be for its ingestion

An exception on one line ends the ingestion of the whole log.  The lines that raise none are
the `LineReadable` ones, and of the world sizes only the first that the log names is read
(`exists_observeLines_iff`); with that, the fast way to the rank agrees with the plain one on
every line.
-/

namespace ResiliencyExt.Attribution.RestartAgent

open Foundation List
open LinePattern (failureIteration timeoutMs)
open Foundation.Fallible
open Foundation.Regex
open ResiliencyExt.FaultTolerance.CycleInfo (intValue)

variable {data : CharData}

/-! ## Readable lines -/

/-- The text whose terms decide about progress and failures, in lower case. -/
def signalLowered (data : CharData) (line : List Char) : List Char :=
  lower data (structuredLogSignalText data line)

/-- The iteration of a failure is looked for on the line. -/
def SearchesIteration (data : CharData) (line : List Char) : Prop :=
  mentionsProgress data line (signalLowered data line) = false ∧
    containsAny failureIterationTriggerTerms (signalLowered data line) = true ∧
      observesFailure data line = true

/-- The iteration of a failure has no more digits than `int` takes. -/
def IterationReadable (data : CharData) (line : List Char) : Prop :=
  SearchesIteration data line → ∀ digits,
    searchGroup data true failureIteration "1" (stripRoutingPrefix data line) =
      some digits → digits.length ≤ maxStrDigits

/-- The timeout of an operation that timed out has no more digits than `int` takes, and is not
too large for a floating-point number. -/
def TimeoutReadable (data : CharData) (line : List Char) : Prop :=
  mentionsTimeout (lower data line) = true → (timedOperationFields data line).isSome = true →
    ∀ digits, searchGroup data true timeoutMs "milliseconds" line = some digits →
      digits.length ≤ maxStrDigits ∧ intValue digits < floatLimit

/-- The first world size of the lines has no more digits than `int` takes. -/
def WorldSizeReadable (data : CharData) (lines : List (List Char)) : Prop :=
  ∀ digits, lines.findSome? (worldSizeDigits data) = some digits → digits.length ≤ maxStrDigits

/-! ## The steps that can raise -/

variable {text digits : List Char} {item : LogLine} {acc next : LineObservations}

theorem digits_of_failureIteration
    (h : searchGroup data true failureIteration "1" text = some digits) :
    IntText digits ↔ digits.length ≤ maxStrDigits :=
  intText_iff_of_digits (digits_of_searchGroup (by decide +kernel) h)

theorem digits_of_timeoutMs
    (h : searchGroup data true timeoutMs "milliseconds" text = some digits) :
    IntText digits ↔ digits.length ≤ maxStrDigits :=
  intText_iff_of_digits (digits_of_searchGroup (by decide +kernel) h)

theorem digits_of_worldSizeDigits (h : worldSizeDigits data text = some digits) :
    IntText digits ↔ digits.length ≤ maxStrDigits := by
  unfold worldSizeDigits at h
  split at h
  · exact intText_iff_of_digits (digits_of_searchGroup (by decide +kernel) h)
  · cases h

theorem exists_intOf_iff : (∃ value, intOf digits = .ok value) ↔ IntText digits :=
  ⟨fun ⟨_, h⟩ => (intOf_eq_ok_iff.mp h).1, fun h => ⟨_, intOf_of_intText h⟩⟩

theorem exists_map_iff {ε α β : Type} {x : Except ε α} {f : α → β} :
    (∃ b, x.map f = .ok b) ↔ ∃ a, x = .ok a := by
  cases x with
  | error e => exact ⟨fun ⟨_, h⟩ => (by cases h), fun ⟨_, h⟩ => (by cases h)⟩
  | ok a => exact ⟨fun _ => ⟨a, rfl⟩, fun _ => ⟨f a, rfl⟩⟩

theorem exists_extractFailureIteration_iff :
    (∃ value, extractFailureIteration data text = .ok value) ↔ ∀ digits,
      searchGroup data true failureIteration "1" (stripRoutingPrefix data text) =
        some digits → digits.length ≤ maxStrDigits := by
  unfold extractFailureIteration
  split
  · next hnone =>
    refine ⟨fun _ digits h => ?_, fun _ => ⟨none, rfl⟩⟩
    rw [hnone] at h
    cases h
  · next digits hsome =>
    rw [exists_map_iff, exists_intOf_iff, digits_of_failureIteration hsome, hsome]
    exact ⟨fun h digits' heq => Option.some.inj heq ▸ h, fun h => h digits rfl⟩

/-- Whether a line may change the progress is decided unless its iteration is too long. -/
theorem exists_lineMayChangeProgress_iff {line : List Char} :
    (∃ changes, lineMayChangeProgress data line (signalLowered data line) = .ok changes) ↔
      IterationReadable data line := by
  unfold lineMayChangeProgress IterationReadable SearchesIteration
  split
  · next hprogress =>
    rw [hprogress]
    exact ⟨fun _ h => absurd h.1.symm Bool.false_ne_true, fun _ => ⟨true, rfl⟩⟩
  · next hprogress =>
    rw [Bool.not_eq_true] at hprogress
    split
    · next hterms =>
      rw [exists_map_iff]
      unfold observedFailureIteration
      split
      · next hfailure =>
        rw [Bool.not_eq_true'] at hfailure
        rw [hfailure]
        exact ⟨fun _ h => absurd h.2.2 Bool.false_ne_true, fun _ => ⟨none, rfl⟩⟩
      · next hfailure =>
        rw [Bool.not_eq_true, Bool.not_eq_false'] at hfailure
        rw [exists_extractFailureIteration_iff]
        exact ⟨fun h _ => h, fun h => h ⟨hprogress, hterms, hfailure⟩⟩
    · next hterms =>
      exact ⟨fun _ h => absurd h.2.1 hterms, fun _ => ⟨false, rfl⟩⟩

theorem exists_configuredTimeout_iff :
    (∃ value, configuredTimeout data text = .ok value) ↔ ∀ digits,
      searchGroup data true timeoutMs "milliseconds" text = some digits →
        digits.length ≤ maxStrDigits ∧ intValue digits < floatLimit := by
  unfold configuredTimeout
  split
  · next hnone =>
    refine ⟨fun _ digits h => ?_, fun _ => ⟨none, rfl⟩⟩
    rw [hnone] at h
    cases h
  · next digits hsome =>
    rw [hsome, exists_bind_iff]
    constructor
    · rintro ⟨value, hvalue, _, hlimit⟩ digits' heq
      obtain ⟨htext, rfl⟩ := intOf_eq_ok_iff.mp hvalue
      cases heq
      split at hlimit
      · cases hlimit
      · next hless => exact ⟨htext.2.2, Nat.lt_of_not_le hless⟩
    · intro h
      obtain ⟨hlength, hless⟩ := h digits rfl
      exact ⟨intValue digits, intOf_of_intText ((digits_of_timeoutMs hsome).mpr hlength), _,
        if_neg (Nat.not_le_of_lt hless)⟩
theorem exists_timedOperationEvent_iff :
    (∃ event, timedOperationEvent data item = .ok event) ↔
      ((timedOperationFields data item.text).isSome = true → ∀ digits,
        searchGroup data true timeoutMs "milliseconds" item.text = some digits →
          digits.length ≤ maxStrDigits ∧ intValue digits < floatLimit) := by
  unfold timedOperationEvent
  split
  · next hnone =>
    rw [hnone]
    exact ⟨fun _ h => absurd h Bool.false_ne_true, fun _ => ⟨none, rfl⟩⟩
  · next seqnum optype hsome =>
    rw [hsome, exists_bind_iff, ← exists_configuredTimeout_iff]
    exact ⟨fun ⟨timeout, h, _⟩ _ => ⟨timeout, h⟩,
      fun h => (h rfl).imp fun timeout htimeout => ⟨htimeout, _, rfl⟩⟩

/-- The operation of a line is read unless its timeout is too long or too large. -/
theorem exists_observedTimeout_iff :
    (∃ event, observedTimeout data item (lower data item.text) = .ok event) ↔
      TimeoutReadable data item.text := by
  unfold observedTimeout TimeoutReadable
  split
  · next hmentions =>
    rw [exists_timedOperationEvent_iff]
    exact ⟨fun h _ => h, fun h => h hmentions⟩
  · next hmentions => exact ⟨fun _ h => absurd h hmentions, fun _ => ⟨none, rfl⟩⟩

/-- The world size of a line is read unless it is too long or one was read before. -/
theorem exists_observeWorldSize_iff :
    (∃ next, observeWorldSize data acc item = .ok next) ↔
      (acc.explicitWorldSize = none → ∀ digits, worldSizeDigits data item.text = some digits →
        digits.length ≤ maxStrDigits) := by
  unfold observeWorldSize
  split
  · next digits hunset hsome =>
    rw [exists_bind_iff, hunset, hsome]
    constructor
    · rintro ⟨size, hsize, -⟩ - digits' heq
      cases heq
      exact (intOf_eq_ok_iff.mp hsize).1.2.2
    · intro h
      have htext := (digits_of_worldSizeDigits hsome).mpr (h rfl digits rfl)
      exact ⟨_, intOf_of_intText htext, _, rfl⟩
  · next hother =>
    exact ⟨fun _ hunset digits hsome => (hother digits hunset hsome).elim,
      fun _ => ⟨acc, rfl⟩⟩

theorem explicitWorldSize_of_observeWorldSize (h : observeWorldSize data acc item = .ok next) :
    next.explicitWorldSize = none ↔
      acc.explicitWorldSize = none ∧ worldSizeDigits data item.text = none := by
  unfold observeWorldSize at h
  split at h
  · next digits hunset hsome =>
    obtain ⟨size, _, h⟩ := exists_of_bind_eq_ok h
    cases h
    rw [hsome]
    exact ⟨fun heq => (Option.some_ne_none _ heq).elim,
      fun heq => (Option.some_ne_none _ heq.2).elim⟩
  · next hother =>
    cases h
    refine ⟨fun hunset => ⟨hunset, ?_⟩, fun h => h.1⟩
    exact Option.eq_none_iff_forall_ne_some.mpr fun digits hsome => hother digits hunset hsome

/-! ## One line -/

theorem observeProgress_cases {signalLowered : List Char}
    (h : observeProgress data acc item signalLowered = .ok next) :
    (∃ changes, lineMayChangeProgress data item.text signalLowered = .ok changes) ∧
      next.explicitWorldSize = acc.explicitWorldSize := by
  obtain ⟨changes, hchanges, hnext⟩ := exists_of_bind_eq_ok h
  cases hnext
  exact ⟨⟨changes, hchanges⟩, rfl⟩

theorem observeTimedOperation_cases {lowered : List Char}
    (h : observeTimedOperation data acc item lowered = .ok next) :
    (∃ event, observedTimeout data item lowered = .ok event) ∧
      next.explicitWorldSize = acc.explicitWorldSize := by
  obtain ⟨event, hevent, hnext⟩ := exists_of_bind_eq_ok h
  cases hnext
  exact ⟨⟨event, hevent⟩, rfl⟩

/-- What `_observe` does of a line: four steps that can raise, and what is between them keeps
the world size. -/
theorem observe_cases (h : observe data acc item = .ok next) :
    (∃ rank, fastNumericRank data item.text (lower data item.text) = .ok rank) ∧
      (∃ changes, lineMayChangeProgress data item.text (signalLowered data item.text) =
        .ok changes) ∧
      (∃ event, observedTimeout data item (lower data item.text) = .ok event) ∧
      ∃ before after, before.explicitWorldSize = acc.explicitWorldSize ∧
        observeWorldSize data before item = .ok after ∧
          next.explicitWorldSize = after.explicitWorldSize := by
  obtain ⟨rank, hrank, h₁⟩ := exists_of_bind_eq_ok h
  obtain ⟨progressed, hprogress, h₂⟩ := exists_of_bind_eq_ok h₁
  obtain ⟨timed, htimed, h₃⟩ := exists_of_bind_eq_ok h₂
  obtain ⟨after, hsize, h₄⟩ := exists_of_bind_eq_ok h₃
  obtain ⟨hchanges, hprogressed⟩ := observeProgress_cases hprogress
  obtain ⟨hevent, hkept⟩ := observeTimedOperation_cases htimed
  have hnext : next = observeEntities data after item (lower data item.text) rank :=
    (Except.ok.inj h₄).symm
  refine ⟨⟨rank, hrank⟩, hchanges, hevent, observeArtifacts data timed item
    (lower data item.text) (signalLowered data item.text) rank, after, ?_, hsize, ?_⟩
  · exact hkept.trans hprogressed
  · rw [hnext]
    rfl

theorem observeProgress_of_eq_ok (acc : LineObservations) {signalLowered : List Char}
    {changes : Bool} (h : lineMayChangeProgress data item.text signalLowered = .ok changes) :
    ∃ next, observeProgress data acc item signalLowered = .ok next ∧
      next.explicitWorldSize = acc.explicitWorldSize := by
  unfold observeProgress
  rw [h]
  exact ⟨_, rfl, rfl⟩

theorem observeTimedOperation_of_eq_ok (acc : LineObservations) {lowered : List Char}
    {event : Option TimedOperationEvent} (h : observedTimeout data item lowered = .ok event) :
    ∃ next, observeTimedOperation data acc item lowered = .ok next ∧
      next.explicitWorldSize = acc.explicitWorldSize := by
  unfold observeTimedOperation
  rw [h]
  exact ⟨_, rfl, rfl⟩

/-- Nothing else of a line raises. -/
theorem exists_observe {rank : Option Nat}
    (hrank : fastNumericRank data item.text (lower data item.text) = .ok rank)
    (hiteration : IterationReadable data item.text) (htimeout : TimeoutReadable data item.text)
    (hsize : acc.explicitWorldSize = none →
      ∀ digits, worldSizeDigits data item.text = some digits → digits.length ≤ maxStrDigits) :
    ∃ next, observe data acc item = .ok next := by
  obtain ⟨changes, hchanges⟩ := exists_lineMayChangeProgress_iff.mpr hiteration
  obtain ⟨event, hevent⟩ := exists_observedTimeout_iff.mpr htimeout
  obtain ⟨progressed, hprogressed, hkept⟩ :=
    observeProgress_of_eq_ok (observePath data acc item) hchanges
  obtain ⟨timed, htimed, hkept'⟩ := observeTimedOperation_of_eq_ok
    (observeSignals data progressed item (lower data item.text)
      (structuredLogSignalText data item.text) (signalLowered data item.text)) hevent
  obtain ⟨after, hafter⟩ : ∃ after, observeWorldSize data (observeArtifacts data timed item
      (lower data item.text) (signalLowered data item.text) rank) item = .ok after :=
    exists_observeWorldSize_iff.mpr fun hunset =>
      hsize ((hkept'.trans hkept).symm.trans hunset)
  exact exists_bind_iff.mpr ⟨rank, hrank, exists_bind_iff.mpr ⟨progressed, hprogressed,
    exists_bind_iff.mpr ⟨timed, htimed, exists_bind_iff.mpr ⟨after, hafter, _, rfl⟩⟩⟩⟩

/-- A line is ingested when the digits that are read of it are such as `int` takes. -/
theorem exists_observe_iff :
    (∃ next, observe data acc item = .ok next) ↔
      (∃ rank, fastNumericRank data item.text (lower data item.text) = .ok rank) ∧
        IterationReadable data item.text ∧ TimeoutReadable data item.text ∧
          (acc.explicitWorldSize = none → ∀ digits,
            worldSizeDigits data item.text = some digits → digits.length ≤ maxStrDigits) := by
  constructor
  · rintro ⟨next, h⟩
    obtain ⟨hrank, hchanges, hevent, before, after, hbefore, hsize, _⟩ := observe_cases h
    refine ⟨hrank, exists_lineMayChangeProgress_iff.mp hchanges,
      exists_observedTimeout_iff.mp hevent, fun hunset => ?_⟩
    exact exists_observeWorldSize_iff.mp ⟨after, hsize⟩ (hbefore.trans hunset)
  · rintro ⟨⟨rank, hrank⟩, hiteration, htimeout, hsize⟩
    exact exists_observe hrank hiteration htimeout hsize

theorem explicitWorldSize_of_observe (h : observe data acc item = .ok next) :
    next.explicitWorldSize = none ↔
      acc.explicitWorldSize = none ∧ worldSizeDigits data item.text = none := by
  obtain ⟨_, _, _, before, after, hbefore, hsize, hnext⟩ := observe_cases h
  rw [hnext, explicitWorldSize_of_observeWorldSize hsize, hbefore]

/-! ## All lines -/

/-- The lines of a log from a number on. -/
def numberedFrom (texts : List (List Char)) (first : Nat) : List LogLine :=
  (texts.zipIdx first).map fun e => ⟨e.2, e.1⟩

theorem exists_observeExisting_iff {acc : L0ObservationAccumulator LineObservations}
    {P : L0ObservationAccumulator LineObservations → Prop} :
    (∃ next, observeExisting data acc ⟨acc.observedCount + 1, text⟩ = .ok next ∧ P next) ↔
      ∃ next, observe data acc.observations ⟨acc.observedCount + 1, text⟩ = .ok next ∧
        P ⟨acc.observedCount + 1, next⟩ := by
  unfold observeExisting
  rw [if_pos rfl]
  constructor
  · rintro ⟨next, h, hP⟩
    obtain ⟨observations, hobserve, hnext⟩ := exists_of_bind_eq_ok h
    cases hnext
    exact ⟨observations, hobserve, hP⟩
  · rintro ⟨observations, hobserve, hP⟩
    rw [hobserve]
    exact ⟨_, rfl, hP⟩

/-- What is known of the world size after a line decides about the lines after it. -/
theorem worldSize_cons_iff {line : Nat} {texts : List (List Char)}
    (h : observe data acc ⟨line, text⟩ = .ok next) :
    (next.explicitWorldSize = none → WorldSizeReadable data texts) ↔
      (acc.explicitWorldSize = none → WorldSizeReadable data (text :: texts)) := by
  rw [explicitWorldSize_of_observe h]
  unfold WorldSizeReadable
  obtain ⟨_, _, _, hsize⟩ := exists_observe_iff.mp ⟨next, h⟩
  cases hdigits : worldSizeDigits data text with
  | none =>
    rw [findSome?_cons, hdigits]
    exact ⟨fun hrest hunset => hrest ⟨hunset, rfl⟩, fun hrest hunset => hrest hunset.1⟩
  | some digits =>
    rw [findSome?_cons, hdigits]
    refine ⟨fun _ hunset digits' heq => ?_, fun _ hunset => ?_⟩
    · exact hsize hunset digits' (hdigits.trans heq)
    · exact (Option.some_ne_none _ hunset.2).elim

/-- Lines are ingested when each of them is and the first world size among them is read. -/
theorem exists_foldlM_iff {texts : List (List Char)} :
    ∀ {acc : L0ObservationAccumulator LineObservations},
      (∃ next, (numberedFrom texts (acc.observedCount + 1)).foldlM (observeExisting data) acc =
        .ok next) ↔
        (∀ line ∈ texts, (∃ rank, fastNumericRank data line (lower data line) = .ok rank) ∧
          IterationReadable data line ∧ TimeoutReadable data line) ∧
          (acc.observations.explicitWorldSize = none → WorldSizeReadable data texts) := by
  induction texts with
  | nil =>
    intro acc
    refine ⟨fun _ => ⟨fun _ h => absurd h not_mem_nil, fun _ digits h => ?_⟩,
      fun _ => ⟨acc, rfl⟩⟩
    cases h
  | cons text texts ih =>
    intro acc
    have hcons : numberedFrom (text :: texts) (acc.observedCount + 1) =
        ⟨acc.observedCount + 1, text⟩ :: numberedFrom texts (acc.observedCount + 1 + 1) := rfl
    rw [hcons, foldlM_cons, exists_bind_iff, exists_observeExisting_iff,
      forall_mem_cons]
    constructor
    · rintro ⟨next, hnext, hrest⟩
      obtain ⟨hrank, hiteration, htimeout, _⟩ := exists_observe_iff.mp ⟨next, hnext⟩
      obtain ⟨hlines, hsize⟩ := ih.mp hrest
      exact ⟨⟨⟨hrank, hiteration, htimeout⟩, hlines⟩, (worldSize_cons_iff hnext).mp hsize⟩
    · rintro ⟨⟨⟨⟨rank, hrank⟩, hiteration, htimeout⟩, hlines⟩, hsize⟩
      obtain ⟨next, hnext⟩ :
          ∃ next, observe data acc.observations ⟨acc.observedCount + 1, text⟩ = .ok next :=
        exists_observe hrank hiteration htimeout fun hunset digits hdigits =>
          hsize hunset digits (by rw [findSome?_cons, hdigits])
      exact ⟨next, hnext, ih.mpr ⟨hlines, (worldSize_cons_iff hnext).mpr hsize⟩⟩

/-! ## A log -/

/-- The ingestion of a log ends without an exception, and on every line the fast way to the rank
gives the value of what the plain way reads. -/
def IngestsAgreeing (data : CharData) (content : List UInt8) : Prop :=
  (∃ acc, observeLines data (logTexts content) = .ok acc) ∧
    ∀ line ∈ logTexts content, fastNumericRank data line (lower data line) =
      .ok ((extractRank data line).map intValue)

/-- The numbers of a log that are read during its ingestion are such as `int` takes. -/
structure Ingestible (data : CharData) (lines : List (List Char)) : Prop where
  rank : ∀ line ∈ lines, RankReadable data line
  iteration : ∀ line ∈ lines, IterationReadable data line
  timeout : ∀ line ∈ lines, TimeoutReadable data line
  worldSize : WorldSizeReadable data lines

/-- A log is ingested, with the fast way to the rank agreeing with the plain one, exactly when
the numbers that are read of it are such as `int` takes and a number that stands before white
space other than a blank or a tab is on a line with the word "rank". -/
theorem ingestsAgreeing_iff (data : CharData) (content : List UInt8) :
    IngestsAgreeing data content ↔ Ingestible data (logTexts content) := by
  unfold IngestsAgreeing observeLines
  have hlines := @exists_foldlM_iff data (logTexts content) ⟨0, noLineObservations⟩
  constructor
  · rintro ⟨hingested, hagrees⟩
    obtain ⟨hreadable, hsize⟩ := hlines.mp hingested
    exact ⟨fun line hline => fastNumericRank_eq_ok_iff.mp (hagrees line hline),
      fun line hline => (hreadable line hline).2.1, fun line hline => (hreadable line hline).2.2,
      hsize rfl⟩
  · intro h
    have hagrees := fun line hline => fastNumericRank_eq_ok_iff.mpr (h.rank line hline)
    refine ⟨hlines.mpr ⟨fun line hline => ⟨⟨_, hagrees line hline⟩, h.iteration line hline,
      h.timeout line hline⟩, fun _ => h.worldSize⟩, hagrees⟩

/-- A log ends with the exception of its first line. -/
theorem observeLines_of_rank_error {error : LineError}
    (h : fastNumericRank data text (lower data text) = .error error) (texts : List (List Char)) :
    observeLines data (text :: texts) = .error error := by
  have hobserve : observe data noLineObservations ⟨1, text⟩ = .error error := by
    unfold observe
    dsimp only
    rw [h]
    rfl
  have hexisting : observeExisting data ⟨0, noLineObservations⟩ ⟨1, text⟩ = .error error := by
    unfold observeExisting
    rw [if_pos rfl, hobserve]
    rfl
  have hlines : logLines (text :: texts) = ⟨1, text⟩ :: numberedFrom texts 2 := rfl
  unfold observeLines
  rw [hlines, foldlM_cons, hexisting]
  rfl

/-- A superscript two before a colon and a blank ends the ingestion of a log. -/
theorem not_ingestsAgreeing_superscript :
    observeLines asciiData (logTexts [0xC2, 0xB2, 0x3A, 0x20, 0x78]) = .error .valueError ∧
      ¬ ∀ data content, IngestsAgreeing data content := by
  have htexts : logTexts [0xC2, 0xB2, 0x3A, 0x20, 0x78] = [['\u00B2', ':', ' ', 'x']] := by
    decide +kernel
  have htaken : fastPrefix ['\u00B2', ':', ' ', 'x'] = some ['\u00B2'] := by
    decide +kernel
  have hdigit : Unicode.isDecimal '\u00B2' = false := by
    decide +kernel
  have htext : ¬ IntText ['\u00B2'] := fun h =>
    Bool.false_ne_true (hdigit.symm.trans (h.2.1 _ mem_cons_self))
  have hrank : ∀ lowered, fastNumericRank asciiData ['\u00B2', ':', ' ', 'x'] lowered =
      .error .valueError := by
    intro lowered
    unfold fastNumericRank
    rw [htaken]
    exact congrArg (Except.map some) (if_neg htext)
  have hraised : observeLines asciiData (logTexts [0xC2, 0xB2, 0x3A, 0x20, 0x78]) =
      .error .valueError := htexts ▸ observeLines_of_rank_error (hrank _) []
  refine ⟨hraised, fun h => ?_⟩
  obtain ⟨acc, hacc⟩ := (h asciiData [0xC2, 0xB2, 0x3A, 0x20, 0x78]).1
  rw [hraised] at hacc
  cases hacc

end ResiliencyExt.Attribution.RestartAgent
