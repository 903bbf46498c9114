import ResiliencyExt.FaultTolerance.RankMonitor.Sections

set_option autoImplicit false

/-!
# Rank monitor: section timeouts

The periodic check asks `_is_section_timeout_elapsed` whether an open section has
been open for longer than its timeout, or the rank has been out of all sections for
too long.  The loop over the open sections keeps one flag and overwrites it in every
round, so that the section opened last decides alone.

Times are values of any type with a difference and an order.
-/

namespace ResiliencyExt.FaultTolerance.RankMonitor

open Foundation List

variable {Time : Type}

/-- The configuration fields that the check reads; a section without an entry and one whose
entry is `None` have no timeout. -/
structure SectionTimeouts (Time : Type) where
  rankSectionTimeouts : Dict String (Option Time)
  rankOutOfSectionTimeout : Option Time
  numWarmupIterations : Int

/-- The fields of the server that the check reads. -/
structure SectionState (Time : Type) where
  openSections : Dict SectionName Time
  outOfSectionTime : Option Time
  initialIteration : Option Int
  currentIteration : Option Int
  stepSectionSeenThisCycle : Bool

/-- `curr_time - None` -/
inductive CheckError where
  | typeError
  deriving DecidableEq, Repr

namespace SectionState

variable (cfg : SectionTimeouts Time) (state : SectionState Time)

/-- The iterations of this cycle are still warmup iterations. -/
def inWarmup : Bool :=
  match state.initialIteration, state.currentIteration with
  | some initial, some current => current - initial < cfg.numWarmupIterations
  | _, _ => false

/-- The timeout of an open section. -/
def timeoutOf (sectionName : SectionName) : Option Time :=
  if sectionName = some "step" ∧ "warmup" ∈ cfg.rankSectionTimeouts.keys ∧
      state.inWarmup cfg = true then
    (cfg.rankSectionTimeouts.get? "warmup").join
  else
    match sectionName with
    | some name => (cfg.rankSectionTimeouts.get? name).join
    | none => none

/-- No timeout is set for setup work and no step has been seen. -/
def skipsOutOfSection : Bool :=
  !cfg.rankSectionTimeouts.keys.isEmpty && "warmup" ∉ cfg.rankSectionTimeouts.keys &&
    !state.stepSectionSeenThisCycle

variable [Sub Time] [LT Time]

/-- An open section has been open for longer than its timeout. -/
def Elapsed (currTime : Time) (e : SectionName × Time) : Prop :=
  ∃ timeout, state.timeoutOf cfg e.1 = some timeout ∧ timeout < currTime - e.2

/-- The rank has been out of all sections for longer than the timeout of that. -/
def OutOfSectionElapsed (currTime : Time) : Prop :=
  state.openSections.keys = [] ∧ state.skipsOutOfSection cfg = false ∧
    ∃ start timeout, state.outOfSectionTime = some start ∧
      cfg.rankOutOfSectionTimeout = some timeout ∧ timeout < currTime - start

theorem not_exists_elapsed_of_closed {state : SectionState Time} (cfg : SectionTimeouts Time)
    (currTime : Time) (hclosed : state.openSections.keys = []) :
    ¬ ∃ e ∈ state.openSections.entries, state.Elapsed cfg currTime e := by
  rintro ⟨e, hmem, -⟩
  have hkey : e.1 ∈ state.openSections.keys := mem_map_of_mem hmem
  rw [hclosed] at hkey
  cases hkey

variable [DecidableLT Time]

/-- `timeout is not None and currTime - start > timeout` -/
def isElapsed (currTime start : Time) (timeout : Option Time) : Bool :=
  match timeout with
  | some timeout => timeout < currTime - start
  | none => false

/-- `_is_section_timeout_elapsed` -/
def isSectionTimeoutElapsed (currTime : Time) : Except CheckError Bool :=
  let inSections := state.openSections.entries.foldl
    (fun _ e => isElapsed currTime e.2 (state.timeoutOf cfg e.1)) false
  if state.openSections.keys = [] then
    if state.skipsOutOfSection cfg then .ok false
    else
      match state.outOfSectionTime with
      | none => .error .typeError
      | some start => .ok (isElapsed currTime start cfg.rankOutOfSectionTimeout)
  else .ok inSections

/-- The check returns and reports exactly what has elapsed. -/
def ReportsElapsed (currTime : Time) : Prop :=
  ∃ elapsed, state.isSectionTimeoutElapsed cfg currTime = .ok elapsed ∧
    (elapsed = true ↔ (∃ e ∈ state.openSections.entries, state.Elapsed cfg currTime e) ∨
      state.OutOfSectionElapsed cfg currTime)

variable {cfg state}

theorem isElapsed_iff {currTime start : Time} {timeout : Option Time} :
    isElapsed currTime start timeout = true ↔
      ∃ limit, timeout = some limit ∧ limit < currTime - start := by
  cases timeout with
  | none => simp [isElapsed]
  | some limit => simp [isElapsed]

/-- A loop that overwrites its flag keeps the verdict of the last round. -/
theorem foldl_overwrite {α : Type} (verdict : α → Bool) (items : List α) (flag : Bool) :
    items.foldl (fun _ item => verdict item) flag = (items.getLast?.map verdict).getD flag := by
  induction items generalizing flag with
  | nil => rfl
  | cons first rest ih =>
    rw [foldl_cons, ih]
    cases rest with
    | nil => rfl
    | cons second rest =>
      rw [getLast?_cons_cons, getLast?_eq_getLast_of_ne_nil (cons_ne_nil _ _)]
      rfl

/-- Out of all sections the check is exact. -/
theorem reportsElapsed_of_closed {currTime : Time} (hclosed : state.openSections.keys = [])
    (hclock : state.outOfSectionTime.isSome) : state.ReportsElapsed cfg currTime := by
  have hnone := not_exists_elapsed_of_closed cfg currTime hclosed
  obtain ⟨start, hstart⟩ := Option.isSome_iff_exists.mp hclock
  unfold ReportsElapsed isSectionTimeoutElapsed
  rw [if_pos hclosed]
  by_cases hskip : state.skipsOutOfSection cfg = true
  · refine ⟨false, if_pos hskip, ?_⟩
    simp only [Bool.false_eq_true, false_iff, not_or]
    refine ⟨hnone, fun hout => ?_⟩
    rw [hout.2.1] at hskip
    cases hskip
  · refine ⟨isElapsed currTime start cfg.rankOutOfSectionTimeout, ?_, ?_⟩
    · rw [if_neg hskip, hstart]
    · rw [isElapsed_iff, or_iff_right hnone]
      constructor
      · rintro ⟨limit, hlimit, hless⟩
        exact ⟨hclosed, Bool.eq_false_iff.mpr hskip, start, limit, hstart, hlimit, hless⟩
      · rintro ⟨-, -, start', limit, hstart', hlimit, hless⟩
        rw [hstart] at hstart'
        cases hstart'
        exact ⟨limit, hlimit, hless⟩

/-- In a section the check reports what the section opened last says. -/
theorem isSectionTimeoutElapsed_of_open (cfg : SectionTimeouts Time) (currTime : Time)
    (hopen : state.openSections.keys ≠ []) :
    ∃ last, state.openSections.entries.getLast? = some last ∧
      state.isSectionTimeoutElapsed cfg currTime =
        .ok (isElapsed currTime last.2 (state.timeoutOf cfg last.1)) := by
  have hne : state.openSections.entries ≠ [] := fun hnil => hopen (by rw [Dict.keys, hnil]; rfl)
  have hlast := getLast?_eq_getLast_of_ne_nil hne
  refine ⟨_, hlast, ?_⟩
  unfold isSectionTimeoutElapsed
  rw [if_neg hopen, foldl_overwrite (fun e : SectionName × Time =>
    isElapsed currTime e.2 (state.timeoutOf cfg e.1)), hlast]
  rfl

/-- **When the section check is exact.**  It reports exactly what has elapsed when the section
opened last is one of the sections that have been open for too long, if there are any. -/
theorem reportsElapsed_iff {currTime : Time}
    (hclock : state.openSections.keys = [] → state.outOfSectionTime.isSome) :
    state.ReportsElapsed cfg currTime ↔
      ((∃ e ∈ state.openSections.entries, state.Elapsed cfg currTime e) →
        ∃ last, state.openSections.entries.getLast? = some last ∧
          state.Elapsed cfg currTime last) := by
  by_cases hclosed : state.openSections.keys = []
  · have hnone := not_exists_elapsed_of_closed cfg currTime hclosed
    exact ⟨fun _ hexists => absurd hexists hnone,
      fun _ => reportsElapsed_of_closed hclosed (hclock hclosed)⟩
  · obtain ⟨last, hlast, hcheck⟩ :=
      isSectionTimeoutElapsed_of_open cfg currTime hclosed
    have hout : ¬ state.OutOfSectionElapsed cfg currTime := fun hout => hclosed hout.1
    unfold ReportsElapsed
    rw [or_iff_left hout, hcheck]
    constructor
    · rintro ⟨elapsed, helapsed, hiff⟩ hexists
      cases helapsed
      exact ⟨last, hlast, isElapsed_iff.mp (hiff.mpr hexists)⟩
    · intro hcond
      refine ⟨_, rfl, fun helapsed => ?_, fun hexists => ?_⟩
      · exact ⟨last, mem_of_getLast? hlast, isElapsed_iff.mp helapsed⟩
      · obtain ⟨last', hlast', helapsed⟩ := hcond hexists
        rw [hlast] at hlast'
        cases hlast'
        exact isElapsed_iff.mpr helapsed

/-! ## Two open sections -/

/-- A step that was opened first and a section for a checkpoint within it. -/
def nestedSections (outerTimeout innerTimeout : Int) : SectionTimeouts Int where
  rankSectionTimeouts :=
    ⟨[("step", some outerTimeout), ("checkpoint", some innerTimeout)], by simp⟩
  rankOutOfSectionTimeout := none
  numWarmupIterations := 0

def nestedState : SectionState Int where
  openSections := ⟨[(some "step", 0), (some "checkpoint", 100)], by decide⟩
  outOfSectionTime := none
  initialIteration := none
  currentIteration := none
  stepSectionSeenThisCycle := true

/-- Both sections have been open for too long. -/
theorem reportsElapsed_nested : nestedState.ReportsElapsed (nestedSections 50 20) 130 :=
  (reportsElapsed_iff (by decide)).mpr fun _ =>
    ⟨(some "checkpoint", 100), rfl, 20, by decide, by decide⟩

/-- The step has been open for more than its 50 seconds, the checkpoint within it has not. -/
theorem not_reportsElapsed_nested :
    ¬ nestedState.ReportsElapsed (nestedSections 50 60) 130 := by
  rintro ⟨elapsed, hcheck, hiff⟩
  have hfalse : nestedState.isSectionTimeoutElapsed (nestedSections 50 60) 130 = .ok false := by
    decide
  rw [hcheck] at hfalse
  cases hfalse
  exact Bool.false_ne_true (hiff.mpr (.inl
    ⟨(some "step", 0), mem_cons_self, 50, by decide, by decide⟩))

end SectionState

end ResiliencyExt.FaultTolerance.RankMonitor
