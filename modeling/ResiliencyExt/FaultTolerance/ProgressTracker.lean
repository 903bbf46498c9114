import Mathlib.Data.List.Induction

set_option autoImplicit false

/-!
# The tracker of training progress

`TrainingProgressTracker` reads the iteration of the latest checkpoint at its start and
after each cycle, and counts the cycles without progress.  The flags that make it warn
once, and the texts of its messages, are left out.
-/

namespace ResiliencyExt.FaultTolerance.ProgressTracker

/-- What a read of the checkpoint file gives: nothing when the file is not there, cannot be read,
is empty or holds no integer. -/
abbrev Reading :=
  Option Int

/-- The arguments of the constructor. -/
structure Config where
  minProgressIterations : Int
  maxNoProgressCycles : Int
  initialCycleNumber : Int
  checkpointIterationFile : Option String

/-- `self.checkpoint_iteration_file` is set. -/
def Config.hasFile (cfg : Config) : Bool :=
  cfg.checkpointIterationFile.any fun path => path ≠ ""

structure TrainingProgressTracker where
  currentMaxIteration : Int
  lastRestartIteration : Int
  noProgressCount : Nat
  cycleNumber : Int
  deriving DecidableEq, Repr

namespace TrainingProgressTracker

/-- `update_iteration` -/
def updateIteration (t : TrainingProgressTracker) (iteration : Int) : TrainingProgressTracker :=
  if t.currentMaxIteration < iteration then { t with currentMaxIteration := iteration } else t

/-- `_read_iteration_from_checkpoint_file`, with whether a value was obtained. -/
def readIteration (cfg : Config) (reading : Reading) (t : TrainingProgressTracker) :
    TrainingProgressTracker × Bool :=
  if cfg.hasFile then
    match reading with
    | none => (t, false)
    | some iteration => (t.updateIteration iteration, true)
  else (t, false)

/-- `__init__` -/
def init (cfg : Config) (reading : Reading) : TrainingProgressTracker :=
  let t := (readIteration cfg reading ⟨0, 0, 0, cfg.initialCycleNumber⟩).1
  { t with lastRestartIteration := t.currentMaxIteration }

/-- The count of a cycle of which the iteration is known. -/
def scoreCycle (cfg : Config) (t : TrainingProgressTracker) : Nat :=
  if t.lastRestartIteration = 0 ∧ t.currentMaxIteration = 0 then t.noProgressCount
  else if cfg.minProgressIterations ≤ t.currentMaxIteration - t.lastRestartIteration then 0
  else t.noProgressCount + 1

/-- `analyze_previous_cycle` -/
def analyzePreviousCycle (cfg : Config) (t : TrainingProgressTracker) (reading : Reading) :
    TrainingProgressTracker :=
  if cfg.maxNoProgressCycles ≤ 0 then t
  else
    let read := readIteration cfg reading t
    if cfg.hasFile ∧ read.2 = false then { read.1 with cycleNumber := read.1.cycleNumber + 1 }
    else
      { currentMaxIteration := 0
        lastRestartIteration := read.1.currentMaxIteration
        noProgressCount := scoreCycle cfg read.1
        cycleNumber := read.1.cycleNumber + 1 }

/-- `should_terminate_early` -/
def shouldTerminateEarly (cfg : Config) (t : TrainingProgressTracker) : Bool :=
  if cfg.maxNoProgressCycles ≤ 0 then false
  else cfg.maxNoProgressCycles ≤ (t.noProgressCount : Int)

/-- The tracker after cycles with the given readings. -/
def afterCycles (cfg : Config) (baseline : Reading) (readings : List Reading) :
    TrainingProgressTracker :=
  readings.foldl (analyzePreviousCycle cfg) (init cfg baseline)

end TrainingProgressTracker

/-! ## Stuck cycles -/

/-- Whether each scored cycle increased the iteration by the minimum over the last known
reading. -/
def verdicts (minProgress : Int) : Int → List Reading → List Bool
  | _, [] => []
  | last, none :: readings => verdicts minProgress last readings
  | last, some iteration :: readings =>
    if last = 0 ∧ iteration = 0 then verdicts minProgress iteration readings
    else decide (minProgress ≤ iteration - last) :: verdicts minProgress iteration readings

/-- The number of the most recent consecutive scored cycles without progress; the reading before
the first cycle is that of the constructor, or 0. -/
def stuckCycles (minProgress : Int) (baseline : Reading) (readings : List Reading) : Nat :=
  ((verdicts minProgress (baseline.getD 0) readings).reverse.takeWhile fun ok => !ok).length

/-- The known readings are iterations, and the first one of a cycle is not below the one of the
constructor. -/
structure StartsForward (baseline : Reading) (readings : List Reading) : Prop where
  nonneg : ∀ iteration, some iteration ∈ baseline :: readings → 0 ≤ iteration
  forward : ∀ iteration, (readings.filterMap id).head? = some iteration →
    baseline.getD 0 ≤ iteration

/-! ## The count -/

/-- What the tracker does with a verdict. -/
def countVerdict (count : Nat) (ok : Bool) : Nat :=
  if ok then 0 else count + 1

theorem foldl_countVerdict (verdicts : List Bool) :
    verdicts.foldl countVerdict 0 = (verdicts.reverse.takeWhile fun ok => !ok).length := by
  induction verdicts using List.reverseRecOn with
  | nil => rfl
  | append_singleton verdicts ok ih =>
    rw [List.foldl_append, List.reverse_append]
    cases ok with
    | true => rfl
    | false =>
      change verdicts.foldl countVerdict 0 + 1 = _
      rw [ih]
      rfl

namespace TrainingProgressTracker

variable {cfg : Config}

theorem analyze_unknown (hfile : cfg.hasFile = true) (hmax : 0 < cfg.maxNoProgressCycles)
    (t : TrainingProgressTracker) :
    analyzePreviousCycle cfg t none = { t with cycleNumber := t.cycleNumber + 1 } := by
  simp [analyzePreviousCycle, readIteration, hfile, Int.not_le.mpr hmax]

theorem updateIteration_eq {t : TrainingProgressTracker} {iteration : Int}
    (h : t.currentMaxIteration ≤ iteration) :
    t.updateIteration iteration = { t with currentMaxIteration := iteration } := by
  unfold updateIteration
  split
  · rfl
  · obtain ⟨currentMaxIteration, _, _, _⟩ := t
    obtain rfl : currentMaxIteration = iteration :=
      Int.le_antisymm h (Int.not_lt.mp (by assumption))
    rfl

/-- A cycle with a known iteration that is not below the running maximum. -/
theorem analyze_known (hfile : cfg.hasFile = true) (hmax : 0 < cfg.maxNoProgressCycles)
    {t : TrainingProgressTracker} {iteration : Int} (h : t.currentMaxIteration ≤ iteration) :
    analyzePreviousCycle cfg t (some iteration) =
      { currentMaxIteration := 0
        lastRestartIteration := iteration
        noProgressCount := scoreCycle cfg { t with currentMaxIteration := iteration }
        cycleNumber := t.cycleNumber + 1 } := by
  simp [analyzePreviousCycle, readIteration, hfile, Int.not_le.mpr hmax, updateIteration_eq h]

/-- Cycles from a tracker whose running maximum the next known iteration does not undercut. -/
theorem foldl_analyze (hfile : cfg.hasFile = true) (hmax : 0 < cfg.maxNoProgressCycles)
    (readings : List Reading) :
    ∀ t : TrainingProgressTracker, (∀ iteration, some iteration ∈ readings → 0 ≤ iteration) →
      (∀ iteration, (readings.filterMap id).head? = some iteration →
        t.currentMaxIteration ≤ iteration) →
      (readings.foldl (analyzePreviousCycle cfg) t).noProgressCount =
        (verdicts cfg.minProgressIterations t.lastRestartIteration readings).foldl countVerdict
          t.noProgressCount := by
  induction readings with
  | nil => exact fun _ _ _ => rfl
  | cons reading readings ih =>
    intro t hnonneg hnext
    have hrest : ∀ iteration, some iteration ∈ readings → 0 ≤ iteration := fun iteration hmem =>
      hnonneg iteration (List.mem_cons_of_mem _ hmem)
    cases reading with
    | none =>
      rw [List.foldl_cons, analyze_unknown hfile hmax]
      exact ih _ hrest hnext
    | some iteration =>
      have hhead : ∀ next, (readings.filterMap id).head? = some next → 0 ≤ next := by
        intro next hmem
        have hmem := List.mem_of_mem_head? hmem
        exact hrest next (by simpa using hmem)
      rw [List.foldl_cons, analyze_known hfile hmax (hnext iteration rfl), ih _ hrest hhead,
        verdicts, scoreCycle]
      split
      · rfl
      · rw [List.foldl_cons, countVerdict]
        simp only [decide_eq_true_eq]

end TrainingProgressTracker

open TrainingProgressTracker in
/-- After any cycles, the counter is the number of the most recent cycles without progress, and
the tracker gives up when it reaches the limit, if the first known iteration is not below the one
of the constructor. -/
theorem noProgressCount_eq_stuckCycles {cfg : Config} (hfile : cfg.hasFile = true)
    (hmax : 0 < cfg.maxNoProgressCycles) {baseline : Reading} {readings : List Reading}
    (h : StartsForward baseline readings) :
    (afterCycles cfg baseline readings).noProgressCount =
        stuckCycles cfg.minProgressIterations baseline readings ∧
      (shouldTerminateEarly cfg (afterCycles cfg baseline readings) = true ↔
        cfg.maxNoProgressCycles ≤
          (stuckCycles cfg.minProgressIterations baseline readings : Int)) := by
  have hinit : init cfg baseline =
      ⟨baseline.getD 0, baseline.getD 0, 0, cfg.initialCycleNumber⟩ := by
    cases baseline with
    | none => simp [init, readIteration]
    | some iteration =>
      have hle := h.nonneg iteration List.mem_cons_self
      simp [init, readIteration, hfile, updateIteration_eq (t := ⟨0, 0, 0, _⟩) hle]
  have hcount : (afterCycles cfg baseline readings).noProgressCount =
      stuckCycles cfg.minProgressIterations baseline readings := by
    rw [afterCycles, hinit, foldl_analyze hfile hmax, foldl_countVerdict]
    · rfl
    · exact fun iteration hmem => h.nonneg iteration (List.mem_cons_of_mem _ hmem)
    · exact h.forward
  refine ⟨hcount, ?_⟩
  rw [shouldTerminateEarly, if_neg (Int.not_le.mpr hmax), hcount, decide_eq_true_eq]

/-- Progress of at least one iteration, and an end after two cycles without it. -/
def twoCycles : Config where
  minProgressIterations := 1
  maxNoProgressCycles := 2
  initialCycleNumber := 0
  checkpointIterationFile := some "latest_checkpointed_iteration.txt"

open TrainingProgressTracker in
theorem noProgressCount_eq_stuckCycles_unknown :
    StartsForward (some 5) [some 5, none, some 5] ∧
      (afterCycles twoCycles (some 5) [some 5, none, some 5]).noProgressCount = 2 ∧
      (afterCycles twoCycles (some 5) [some 5, none, some 5]).noProgressCount =
        stuckCycles twoCycles.minProgressIterations (some 5) [some 5, none, some 5] ∧
      (shouldTerminateEarly twoCycles (afterCycles twoCycles (some 5) [some 5, none, some 5]) =
          true ↔ twoCycles.maxNoProgressCycles ≤
        (stuckCycles twoCycles.minProgressIterations (some 5) [some 5, none, some 5] : Int)) := by
  have h : StartsForward (some 5) [some 5, none, some 5] := by
    constructor
    · intro iteration hmem
      simp at hmem
      omega
    · rintro _ ⟨⟩
      exact Int.le_refl 5
  exact ⟨h, by decide, noProgressCount_eq_stuckCycles (by decide) (by decide) h⟩

open TrainingProgressTracker in
/-- The first cycle falls back behind the checkpoint of the constructor, and the second makes
progress from there. -/
theorem not_noProgressCount_eq_stuckCycles :
    ¬ ∀ (cfg : Config), cfg.hasFile = true → 0 < cfg.maxNoProgressCycles →
      ∀ baseline readings, (afterCycles cfg baseline readings).noProgressCount =
          stuckCycles cfg.minProgressIterations baseline readings ∧
        (shouldTerminateEarly cfg (afterCycles cfg baseline readings) = true ↔
          cfg.maxNoProgressCycles ≤
            (stuckCycles cfg.minProgressIterations baseline readings : Int)) := by
  intro h
  have hrun := (h twoCycles (by decide) (by decide) (some 100) [some 50, some 60]).1
  exact absurd hrun (by decide)

end ResiliencyExt.FaultTolerance.ProgressTracker
