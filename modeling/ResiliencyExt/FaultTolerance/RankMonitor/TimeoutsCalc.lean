import ResiliencyExt.Foundation.Dict

set_option autoImplicit false

/-!
# Rank monitor: the client's timeout calculator

`TimeoutsCalc` measures how long sections are open and how long the rank runs
outside of all of them.  Only the section part is modelled here.  Times are
clock ticks, and `-1` stands for "nothing measured yet" as in the source.

A section is named by a string; messages carry an optional name.  Python keys
its dictionaries by whatever it is handed, so `SectionName` is optional too.
-/

namespace ResiliencyExt.FaultTolerance.RankMonitor

open Foundation

/-- A section name, or the `None` that `end_all_sections` passes. -/
abbrev SectionName := Option String

instance : LawfulBEq SectionName := inferInstance

inductive SectionAction where
  | «open»
  | close
  | closeAll
  deriving DecidableEq, Repr

inductive TimeoutsCalcError where
  | alreadyOpen (sectionName : SectionName)
  | notOpen (sectionName : SectionName)
  | unknownSection (sectionName : SectionName)
  /-- `KeyError` of a section without a measured maximum. -/
  | keyError (sectionName : SectionName)
  deriving DecidableEq, Repr

/-- The section fields of `TimeoutsCalc`. -/
structure TimeoutsCalc where
  openSections : Dict SectionName Int
  lastSectionCloseTime : Int
  outOfSectionMaxTime : Int
  sectionToMaxTime : Dict SectionName Int

namespace TimeoutsCalc

/-- `maybe_bump_oos_time` -/
def maybeBumpOosTime (timeouts : TimeoutsCalc) (currTime : Int) : TimeoutsCalc :=
  if timeouts.openSections.keys = [] then
    { timeouts with
      outOfSectionMaxTime :=
        max timeouts.outOfSectionMaxTime (currTime - timeouts.lastSectionCloseTime) }
  else timeouts

/-- `_open_section` -/
def openSection (timeouts : TimeoutsCalc) (sectionName : SectionName) (eventTime : Int) :
    Except TimeoutsCalcError TimeoutsCalc :=
  if sectionName ∈ timeouts.openSections.keys then .error (.alreadyOpen sectionName)
  else
    let timeouts := timeouts.maybeBumpOosTime eventTime
    .ok { timeouts with openSections := timeouts.openSections.set sectionName eventTime }

/-- `_close_section` -/
def closeSection (timeouts : TimeoutsCalc) (sectionName : SectionName) (eventTime : Int) :
    Except TimeoutsCalcError TimeoutsCalc :=
  match timeouts.openSections.get? sectionName with
  | none => .error (.notOpen sectionName)
  | some startTime =>
    match timeouts.sectionToMaxTime.get? sectionName with
    | none => .error (.keyError sectionName)
    | some currentMax =>
      let openSections := timeouts.openSections.erase sectionName
      .ok { timeouts with
        sectionToMaxTime :=
          timeouts.sectionToMaxTime.set sectionName (max currentMax (eventTime - startTime))
        openSections := openSections
        lastSectionCloseTime :=
          if openSections.keys = [] then eventTime else timeouts.lastSectionCloseTime }

/-- The loop of `CLOSE_ALL` over the sections open when it begins. -/
def closeSections (timeouts : TimeoutsCalc) (eventTime : Int) :
    List SectionName → Except TimeoutsCalcError TimeoutsCalc
  | [] => .ok timeouts
  | sectionName :: rest =>
    match timeouts.closeSection sectionName eventTime with
    | .error error => .error error
    | .ok timeouts => timeouts.closeSections eventTime rest

/-- `update_on_section_event` -/
def updateOnSectionEvent (timeouts : TimeoutsCalc) (sectionName : SectionName)
    (action : SectionAction) (eventTime : Int) : Except TimeoutsCalcError TimeoutsCalc :=
  if sectionName ≠ none ∧ sectionName ∉ timeouts.sectionToMaxTime.keys then
    .error (.unknownSection sectionName)
  else
    match action with
    | .open => timeouts.openSection sectionName eventTime
    | .close => timeouts.closeSection sectionName eventTime
    | .closeAll => timeouts.closeSections eventTime timeouts.openSections.keys

/-! ## The keys after an event -/

variable {timeouts : TimeoutsCalc} {sectionName : SectionName}

@[simp] theorem openSections_maybeBumpOosTime (timeouts : TimeoutsCalc) (currTime : Int) :
    (timeouts.maybeBumpOosTime currTime).openSections = timeouts.openSections := by
  unfold maybeBumpOosTime
  split <;> rfl

@[simp] theorem sectionToMaxTime_maybeBumpOosTime (timeouts : TimeoutsCalc) (currTime : Int) :
    (timeouts.maybeBumpOosTime currTime).sectionToMaxTime = timeouts.sectionToMaxTime := by
  unfold maybeBumpOosTime
  split <;> rfl

theorem keys_openSection {next : TimeoutsCalc} {eventTime : Int}
    (h : timeouts.openSection sectionName eventTime = .ok next) :
    sectionName ∉ timeouts.openSections.keys ∧
      next.openSections.keys = timeouts.openSections.keys ++ [sectionName] ∧
      next.sectionToMaxTime.keys = timeouts.sectionToMaxTime.keys := by
  unfold openSection at h
  split at h
  · simp at h
  · rename_i hnew
    simp only [Except.ok.injEq] at h
    subst h
    refine ⟨hnew, ?_, by simp⟩
    simp only [openSections_maybeBumpOosTime]
    exact Dict.keys_set_of_not_mem eventTime hnew

theorem keys_closeSection {next : TimeoutsCalc} {eventTime : Int}
    (h : timeouts.closeSection sectionName eventTime = .ok next) :
    next.openSections.keys = timeouts.openSections.keys.filter (fun s => s ≠ sectionName) ∧
      next.sectionToMaxTime.keys = timeouts.sectionToMaxTime.keys := by
  unfold closeSection at h
  split at h
  · simp at h
  · split at h
    · simp at h
    · rename_i currentMax hmax
      simp only [Except.ok.injEq] at h
      subst h
      have hmem : sectionName ∈ timeouts.sectionToMaxTime.keys :=
        Dict.get?_isSome_iff.mp (by simp [hmax])
      exact ⟨Dict.keys_erase _ _, Dict.keys_set_of_mem _ hmem⟩

/-- Closing an open section that has a measured maximum succeeds. -/
theorem closeSection_ok (eventTime : Int) (hopen : sectionName ∈ timeouts.openSections.keys)
    (hknown : sectionName ∈ timeouts.sectionToMaxTime.keys) :
    ∃ next, timeouts.closeSection sectionName eventTime = .ok next := by
  obtain ⟨startTime, hstart⟩ := Dict.exists_get?_of_mem hopen
  obtain ⟨currentMax, hmax⟩ := Dict.exists_get?_of_mem hknown
  simp [closeSection, hstart, hmax]

end TimeoutsCalc

end ResiliencyExt.FaultTolerance.RankMonitor
