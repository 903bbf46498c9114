import Mathlib.Algebra.Order.Field.Rat
import Mathlib.Data.List.ReduceOption
import ResiliencyExt.Foundation.Fallible
import ResiliencyExt.FaultTolerance.RankMonitor.TimeoutsCalc
set_option autoImplicit false

/-!
# Rank monitor: the timeouts that are calculated

`get_section_timeouts` and `get_hb_timeouts` multiply the longest times that were measured
by the safety factor.  A section left out of the calculation keeps its current timeout, and
a timeout that was calculated before is averaged with the new one.

Times are clock ticks and timeouts are rational numbers of them.
-/

namespace ResiliencyExt.FaultTolerance.RankMonitor

open Foundation Fallible

/-- The heartbeat fields of `TimeoutsCalc`. -/
structure HeartbeatCalc where
  startTime : Int
  prevHbTime : Option Int
  count : Nat
  initialMaxTime : Int
  subsequentMaxTime : Int

/-- Why a calculation fails. -/
inductive CalcError where
  /-- A section event that is refused. -/
  | sectionEvent (error : TimeoutsCalcError)
  | notEnoughData
  | keyError (name : String)
  | typeError
  | assertionError
  deriving DecidableEq, Repr

/-- `TimeoutsCalc` -/
structure Calculator where
  sections : TimeoutsCalc
  heartbeats : HeartbeatCalc
  safetyFactor : ℚ

/-- `HeartbeatTimeouts` -/
structure HeartbeatTimeouts where
  initial : Option ℚ
  subsequent : Option ℚ
  wereCalculated : Option Bool

/-- `SectionTimeouts`, as the calculator returns it. -/
structure CalculatedTimeouts where
  sectionTimeouts : Dict String (Option ℚ)
  outOfSection : Option ℚ
  calculatedSections : List String
  isOutOfSectionCalculated : Bool

/-- `_ema` with the default weight; the error is that of a `None`. -/
def ema : Option ℚ → Option ℚ → Except CalcError ℚ
  | some x, some curr => .ok (1 / 2 * x + (1 - 1 / 2) * curr)
  | _, _ => .error .typeError

/-! ## Heartbeats -/

namespace HeartbeatCalc

/-- The interval that a heartbeat ends. -/
def measure (measured : HeartbeatCalc) (hbTime : Int) : Except CalcError HeartbeatCalc :=
  if measured.count = 0 then
    .ok { measured with initialMaxTime := max measured.initialMaxTime (hbTime - measured.startTime) }
  else
    match measured.prevHbTime with
    | none => .error .typeError
    | some prev =>
      .ok { measured with subsequentMaxTime := max measured.subsequentMaxTime (hbTime - prev) }

/-- `update_on_heartbeat` -/
def updateOnHeartbeat (measured : HeartbeatCalc) (hbTime : Int) : Except CalcError HeartbeatCalc :=
  (measured.measure hbTime).map fun next =>
    { next with count := next.count + 1, prevHbTime := some hbTime }

/-- `can_get_hb_timeouts` -/
def canGetHbTimeouts (measured : HeartbeatCalc) : Bool :=
  0 < measured.initialMaxTime && 0 < measured.subsequentMaxTime

end HeartbeatCalc

namespace Calculator

/-- `_ema` of what is calculated and what was calculated before. -/
def mergeHbTimeouts (current : HeartbeatTimeouts) (initial subsequent : ℚ) :
    Except CalcError HeartbeatTimeouts := do
  if current.initial.isNone ∨ current.subsequent.isNone then throw .assertionError
  let initial ← ema (some initial) current.initial
  let subsequent ← ema (some subsequent) current.subsequent
  return ⟨some initial, some subsequent, some true⟩

/-- `get_hb_timeouts` -/
def getHbTimeouts (measured : Calculator) (current : Option HeartbeatTimeouts) :
    Except CalcError HeartbeatTimeouts :=
  if measured.heartbeats.canGetHbTimeouts = false then .error .notEnoughData
  else
    let initial := measured.safetyFactor * measured.heartbeats.initialMaxTime
    let subsequent := measured.safetyFactor * measured.heartbeats.subsequentMaxTime
    match current with
    | some current =>
      if current.wereCalculated = some true then mergeHbTimeouts current initial subsequent
      else .ok ⟨some initial, some subsequent, some true⟩
    | none => .ok ⟨some initial, some subsequent, some true⟩

/-! ## Sections -/

/-- `section_to_max_time[name]` -/
def maxTime (measured : Calculator) (name : String) : Except CalcError Int :=
  match measured.sections.sectionToMaxTime.get? (some name) with
  | some time => .ok time
  | none => .error (.keyError name)

/-- The names of the sections that are measured. -/
def sectionNames (measured : Calculator) : List String :=
  measured.sections.sectionToMaxTime.keys.reduceOption

/-- `all(section_to_max_time[s] > 0 for s in selected)` -/
def allMeasured (measured : Calculator) : List String → Except CalcError Bool
  | [] => .ok true
  | name :: rest => do
    let time ← measured.maxTime name
    if 0 < time then measured.allMeasured rest else return false

/-- `selected_sections if selected_sections else section_to_max_time.keys()` -/
def selectedOrAll (measured : Calculator) (selected : Option (List String)) : List String :=
  match selected with
  | some (name :: rest) => name :: rest
  | _ => measured.sectionNames

/-- `can_get_section_timeouts` -/
def canGetSectionTimeouts (measured : Calculator) (selected : Option (List String))
    (calcOutOfSection : Bool) : Except CalcError Bool := do
  let enough ← measured.allMeasured (measured.selectedOrAll selected)
  return enough && (!calcOutOfSection || 0 < measured.sections.outOfSectionMaxTime)

/-- One round of the loop over the selected sections. -/
def setTimeout (measured : Calculator) (timeouts : Dict String (Option ℚ)) (name : String) :
    Except CalcError (Dict String (Option ℚ)) := do
  let time ← measured.maxTime name
  if 0 < measured.safetyFactor * time then
    return timeouts.set name (some (measured.safetyFactor * time))
  else throw .assertionError

/-- The timeout out of all sections. -/
def outOfSectionTimeout (measured : Calculator) (calcOutOfSection : Bool) :
    Except CalcError (Option ℚ) :=
  if calcOutOfSection then
    if 0 < measured.safetyFactor * measured.sections.outOfSectionMaxTime then
      .ok (some (measured.safetyFactor * measured.sections.outOfSectionMaxTime))
    else .error .assertionError
  else .ok none

/-- `{se: None for se in section_to_max_time}` -/
def noTimeouts (measured : Calculator) : Dict String (Option ℚ) :=
  measured.sectionNames.foldl (fun timeouts name => timeouts.set name none) Dict.empty

/-- The sections that are calculated. -/
def selectedNames (measured : Calculator) (selected : Option (List String)) : List String :=
  selected.getD measured.sectionNames

/-- `new` of `get_section_timeouts` -/
def newTimeouts (measured : Calculator) (selected : Option (List String))
    (calcOutOfSection : Bool) : Except CalcError CalculatedTimeouts := do
  let timeouts ← (measured.selectedNames selected).foldlM measured.setTimeout measured.noTimeouts
  let outOfSection ← measured.outOfSectionTimeout calcOutOfSection
  return ⟨timeouts, outOfSection, measured.selectedNames selected, calcOutOfSection⟩

end Calculator

namespace CalculatedTimeouts

/-- `section[name]` -/
def lookup (timeouts : CalculatedTimeouts) (name : String) : Except CalcError (Option ℚ) :=
  match timeouts.sectionTimeouts.get? name with
  | some timeout => .ok timeout
  | none => .error (.keyError name)

/-- The merged timeout of one section. -/
def mergedTimeout (new current : CalculatedTimeouts) (name : String) (timeout : Option ℚ) :
    Except CalcError (Option ℚ) :=
  if name ∈ current.calculatedSections ∧ name ∈ new.calculatedSections then do
    let before ← current.lookup name
    let average ← ema before timeout
    return some average
  else if name ∈ new.calculatedSections then .ok timeout
  else current.lookup name

/-- One round of the loop over the sections. -/
def mergeSection (new current : CalculatedTimeouts) (timeouts : Dict String (Option ℚ))
    (e : String × Option ℚ) : Except CalcError (Dict String (Option ℚ)) := do
  let timeout ← mergedTimeout new current e.1 e.2
  return timeouts.set e.1 timeout

/-- The merged timeout out of all sections. -/
def mergedOutOfSection (new current : CalculatedTimeouts) : Except CalcError (Option ℚ) :=
  if current.isOutOfSectionCalculated && new.isOutOfSectionCalculated then do
    let average ← ema current.outOfSection new.outOfSection
    return some average
  else if new.isOutOfSectionCalculated then .ok new.outOfSection
  else .ok current.outOfSection

/-- `_get_merged_section_timeouts` -/
def merge (new : CalculatedTimeouts) (current : Option CalculatedTimeouts) :
    Except CalcError CalculatedTimeouts :=
  match current with
  | none => .ok new
  | some current => do
    let timeouts ← new.sectionTimeouts.entries.foldlM (mergeSection new current) Dict.empty
    let outOfSection ← mergedOutOfSection new current
    return ⟨timeouts, outOfSection, current.calculatedSections ∪ new.calculatedSections,
      current.isOutOfSectionCalculated || new.isOutOfSectionCalculated⟩

end CalculatedTimeouts

/-- `get_section_timeouts` -/
def Calculator.getSectionTimeouts (measured : Calculator) (selected : Option (List String))
    (calcOutOfSection : Bool) (current : Option CalculatedTimeouts) :
    Except CalcError CalculatedTimeouts := do
  let enough ← measured.canGetSectionTimeouts selected calcOutOfSection
  if enough = false then throw .notEnoughData
  let new ← measured.newTimeouts selected calcOutOfSection
  new.merge current

/-! ## Where the timeouts come from -/

/-- The timeout of the section is its longest time, multiplied. -/
def Calculator.Multiplied (measured : Calculator) (name : String) (limit : ℚ) : Prop :=
  ∃ time, measured.sections.sectionToMaxTime.get? (some name) = some time ∧
    limit = measured.safetyFactor * time ∧ 0 < limit

/-- All timeouts that are set are multiplied times. -/
def Calculator.AllMultiplied (measured : Calculator) (timeouts : Dict String (Option ℚ)) :
    Prop :=
  ∀ name limit, timeouts.get? name = some (some limit) → measured.Multiplied name limit

variable {measured : Calculator} {selected : Option (List String)} {calcOutOfSection : Bool}
  {new current timeouts : CalculatedTimeouts}

variable {name : String} {limit : ℚ}

theorem Calculator.allMultiplied_noTimeouts : measured.AllMultiplied measured.noTimeouts := by
  have hnone : ∀ (names : List String) (d : Dict String (Option ℚ)),
      (∀ name limit, d.get? name ≠ some (some limit)) → ∀ name limit,
        (names.foldl (fun d name => d.set name none) d).get? name ≠ some (some limit) := by
    intro names
    induction names with
    | nil => exact fun _ h => h
    | cons first rest ih =>
      intro d h
      refine ih _ fun name limit => ?_
      rw [Dict.get?_set]
      split
      · simp
      · exact h name limit
  intro name limit h
  refine absurd h (hnone _ _ ?_ name limit)
  simp [Dict.empty, Dict.get?]

theorem Calculator.maxTime_eq_ok {time : Int} (h : measured.maxTime name = .ok time) :
    measured.sections.sectionToMaxTime.get? (some name) = some time := by
  unfold Calculator.maxTime at h
  split at h
  next found hfound =>
      cases h
      exact hfound
  next => cases h

theorem Calculator.allMultiplied_setTimeout {d next : Dict String (Option ℚ)}
    (hd : measured.AllMultiplied d) (h : measured.setTimeout d name = .ok next) :
    measured.AllMultiplied next := by
  obtain ⟨time, htime, h⟩ := exists_of_bind_eq_ok h
  split at h
  next hpos =>
      cases h
      intro other limit hget
      rw [Dict.get?_set] at hget
      split at hget
      next heq =>
          simp only [Option.some.injEq] at hget
          rw [heq]
          exact ⟨time, maxTime_eq_ok htime, hget.symm, hget ▸ hpos⟩
      next => exact hd other limit hget
  next => cases h

/-- What a new calculation holds. -/
theorem Calculator.newTimeouts_spec
    (h : measured.newTimeouts selected calcOutOfSection = .ok new) :
    measured.AllMultiplied new.sectionTimeouts ∧
      new.calculatedSections = measured.selectedNames selected ∧
      new.isOutOfSectionCalculated = calcOutOfSection ∧
      (∀ limit, new.outOfSection = some limit →
        limit = measured.safetyFactor * measured.sections.outOfSectionMaxTime ∧ 0 < limit) := by
  obtain ⟨found, hfound, h⟩ := exists_of_bind_eq_ok h
  obtain ⟨outside, houtside, h⟩ := exists_of_bind_eq_ok h
  cases h
  refine ⟨?_, rfl, rfl, fun limit hlimit => ?_⟩
  · exact foldlM_invariant (fun _ _ _ _ hd hnext => allMultiplied_setTimeout hd hnext)
      allMultiplied_noTimeouts hfound
  · unfold Calculator.outOfSectionTimeout at houtside
    split_ifs at houtside with hcalc hpos
    · cases houtside
      cases hlimit
      exact ⟨rfl, hpos⟩
    · cases houtside
      cases hlimit

theorem CalculatedTimeouts.mergedTimeout_eq_ok (hcurrent : current.calculatedSections = [])
    {timeout result : Option ℚ} (h : mergedTimeout new current name timeout = .ok result) :
    result = timeout ∨ (name ∉ new.calculatedSections ∧
      current.sectionTimeouts.get? name = some result) := by
  unfold mergedTimeout at h
  rw [hcurrent, if_neg fun hboth => List.not_mem_nil hboth.1] at h
  split at h
  next =>
      cases h
      exact .inl rfl
  next hkept =>
      refine .inr ⟨hkept, ?_⟩
      unfold lookup at h
      split at h
      next found hfound =>
          cases h
          exact hfound
      next => cases h

/-- A timeout of a merged calculation is new, or it was kept. -/
theorem CalculatedTimeouts.get?_merge (h : new.merge (some current) = .ok timeouts)
    (hcurrent : current.calculatedSections = [])
    (hget : timeouts.sectionTimeouts.get? name = some (some limit)) :
    new.sectionTimeouts.get? name = some (some limit) ∨
      (name ∉ new.calculatedSections ∧
        current.sectionTimeouts.get? name = some (some limit)) := by
  obtain ⟨found, hfound, h⟩ := exists_of_bind_eq_ok h
  obtain ⟨outside, -, h⟩ := exists_of_bind_eq_ok h
  cases h
  refine foldlM_invariant (P := fun d => ∀ name limit, d.get? name = some (some limit) →
    new.sectionTimeouts.get? name = some (some limit) ∨ (name ∉ new.calculatedSections ∧
      current.sectionTimeouts.get? name = some (some limit))) ?_ ?_ hfound name limit hget
  · intro d e he next hd hnext other limit hget
    obtain ⟨timeout, htimeout, hset⟩ := exists_of_bind_eq_ok hnext
    cases hset
    rw [Dict.get?_set] at hget
    split at hget
    next heq =>
        obtain rfl : timeout = some limit := Option.some.inj hget
        rw [heq]
        rcases mergedTimeout_eq_ok hcurrent htimeout with hnew | hkept
        · exact .inl (hnew ▸ Dict.get?_eq_some_of_mem he)
        · exact .inr hkept
    next => exact hd other limit hget
  · simp [Dict.empty, Dict.get?]

/-- Likewise for the timeout out of all sections. -/
theorem CalculatedTimeouts.outOfSection_merge (h : new.merge (some current) = .ok timeouts)
    (hcurrent : current.isOutOfSectionCalculated = false)
    (hlimit : timeouts.outOfSection = some limit) :
    new.outOfSection = some limit ∨
      (new.isOutOfSectionCalculated = false ∧ current.outOfSection = some limit) := by
  obtain ⟨found, -, h⟩ := exists_of_bind_eq_ok h
  obtain ⟨outside, houtside, h⟩ := exists_of_bind_eq_ok h
  cases h
  obtain rfl : outside = some limit := hlimit
  unfold mergedOutOfSection at houtside
  rw [hcurrent, Bool.false_and, if_neg Bool.false_ne_true] at houtside
  split at houtside
  next => exact .inl (Except.ok.inj houtside)
  next hkept => exact .inr ⟨Bool.eq_false_iff.mpr hkept, Except.ok.inj houtside⟩

/-- None of the timeouts was calculated before. -/
def CalculatedTimeouts.NotCalculated (timeouts : CalculatedTimeouts) : Prop :=
  timeouts.calculatedSections = [] ∧ timeouts.isOutOfSectionCalculated = false

/-- The timeout of a section is multiplied, or it is kept of a section left out. -/
theorem Calculator.getSectionTimeouts_section {current : Option CalculatedTimeouts}
    (h : measured.getSectionTimeouts selected calcOutOfSection current = .ok timeouts)
    (hcurrent : ∀ before, current = some before → before.NotCalculated)
    (hget : timeouts.sectionTimeouts.get? name = some (some limit)) :
    measured.Multiplied name limit ∨ (name ∉ measured.selectedNames selected ∧
      ∃ before, current = some before ∧
        before.sectionTimeouts.get? name = some (some limit)) := by
  obtain ⟨enough, -, h⟩ := exists_of_bind_eq_ok h
  split at h
  next => cases h
  next =>
      obtain ⟨new, hnew, h⟩ := exists_of_bind_eq_ok h
      obtain ⟨hmultiplied, hselected, -, -⟩ := newTimeouts_spec hnew
      cases current with
      | none =>
        cases h
        exact .inl (hmultiplied name limit hget)
      | some before =>
        rcases CalculatedTimeouts.get?_merge h (hcurrent before rfl).1 hget with hin | hkept
        · exact .inl (hmultiplied name limit hin)
        · exact .inr ⟨hselected ▸ hkept.1, before, rfl, hkept.2⟩

theorem Calculator.getSectionTimeouts_outOfSection {current : Option CalculatedTimeouts}
    (h : measured.getSectionTimeouts selected calcOutOfSection current = .ok timeouts)
    (hcurrent : ∀ before, current = some before → before.NotCalculated)
    (hlimit : timeouts.outOfSection = some limit) :
    (limit = measured.safetyFactor * measured.sections.outOfSectionMaxTime ∧ 0 < limit) ∨
      (calcOutOfSection = false ∧
        ∃ before, current = some before ∧ before.outOfSection = some limit) := by
  obtain ⟨enough, -, h⟩ := exists_of_bind_eq_ok h
  split at h
  next => cases h
  next =>
      obtain ⟨new, hnew, h⟩ := exists_of_bind_eq_ok h
      obtain ⟨-, -, hcalc, houtside⟩ := newTimeouts_spec hnew
      cases current with
      | none =>
        cases h
        exact .inl (houtside limit hlimit)
      | some before =>
        rcases CalculatedTimeouts.outOfSection_merge h (hcurrent before rfl).2 hlimit with
          hin | hkept
        · exact .inl (houtside limit hin)
        · exact .inr ⟨hcalc ▸ hkept.1, before, rfl, hkept.2⟩

/-- The timeouts of heartbeats are multiplied times. -/
theorem Calculator.getHbTimeouts_spec {current : Option HeartbeatTimeouts}
    {timeouts : HeartbeatTimeouts} (h : measured.getHbTimeouts current = .ok timeouts)
    (hcurrent : ∀ before, current = some before → before.wereCalculated ≠ some true) :
    timeouts.initial = some (measured.safetyFactor * measured.heartbeats.initialMaxTime) ∧
      timeouts.subsequent =
        some (measured.safetyFactor * measured.heartbeats.subsequentMaxTime) ∧
      0 < measured.heartbeats.initialMaxTime ∧ 0 < measured.heartbeats.subsequentMaxTime := by
  unfold getHbTimeouts at h
  split at h
  next => cases h
  next henough =>
      rw [Bool.not_eq_false, HeartbeatCalc.canGetHbTimeouts, Bool.and_eq_true, decide_eq_true_eq,
        decide_eq_true_eq] at henough
      cases current with
      | none =>
        cases h
        exact ⟨rfl, rfl, henough⟩
      | some before =>
        simp only [if_neg (hcurrent before rfl)] at h
        cases h
        exact ⟨rfl, rfl, henough⟩

end ResiliencyExt.FaultTolerance.RankMonitor
