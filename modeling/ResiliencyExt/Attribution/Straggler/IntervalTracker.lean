import Mathlib.Data.List.Sort
import Mathlib.Data.Rat.Floor
import ResiliencyExt.Attribution.Straggler.DistUtils

set_option autoImplicit false

/-!
# Straggler detection: the report interval

Every rank measures its first steps.  After `INTERVAL_ESTIMATION_ITERS` of them the
ranks agree on the largest number of iterations that any of them estimates for the
time interval, and from then on report in step with that number.
-/

namespace ResiliencyExt.Attribution.Straggler

open Foundation

/-- A measured time. -/
abbrev PosTime :=
  {t : ℚ // 0 < t}

def INTERVAL_ESTIMATION_ITERS : Nat := 16

structure ReportIntervalTracker where
  timeInterval : ℚ
  currentIter : Nat
  iterInterval : Option Nat
  /-- `prev_iter_start_time is not None` -/
  started : Bool
  stepTimes : List PosTime
  profilingInterval : Nat

def ReportIntervalTracker.new (timeInterval : ℚ) (profilingInterval : Nat) :
    ReportIntervalTracker where
  timeInterval := timeInterval
  currentIter := 0
  iterInterval := none
  started := false
  stepTimes := []
  profilingInterval := profilingInterval

/-- `torch.median`: the lower of the two middle values of an even number of them. -/
def median (times : List PosTime) : ℚ :=
  (((times.map Subtype.val).insertionSort (· ≤ ·))[(times.length - 1) / 2]?).getD 0

namespace ReportIntervalTracker

/-- `_gather_report_interval`; torch.distributed is initialized. -/
def gatherReportInterval (t : ReportIntervalTracker) : RankProgram ReportIntervalTracker :=
  if t.iterInterval.isSome then .raise .assertionError
  else .call (.allReduce .max [t.timeInterval / median t.stepTimes]) fun reply =>
    .done { t with
      iterInterval := some ⌊max (reply.values.headD 0) t.profilingInterval⌋.toNat }

/-- What `iter_increase` does with the time since the previous iteration. -/
def recordStep (t : ReportIntervalTracker) (stepTime : PosTime) :
    RankProgram ReportIntervalTracker := do
  let t := { t with stepTimes := t.stepTimes ++ [stepTime] }
  if t.stepTimes.length = INTERVAL_ESTIMATION_ITERS then
    let gathered ← t.gatherReportInterval
    let cleared := { gathered with stepTimes := [] }
    if cleared.iterInterval.isNone then .raise .assertionError else return cleared
  else return t

/-- `iter_increase`, when `stepTime` has passed since the previous call. -/
def iterIncrease (t : ReportIntervalTracker) (stepTime : PosTime) :
    RankProgram ReportIntervalTracker := do
  let t := { t with currentIter := t.currentIter + 1 }
  if t.iterInterval.isNone then
    let recorded ← if t.started then t.recordStep stepTime else pure t
    return { recorded with started := true }
  else return t

/-- `is_interval_elapsed` -/
def isIntervalElapsed (t : ReportIntervalTracker) : Bool :=
  match t.iterInterval with
  | none => false
  | some interval => t.currentIter % interval = 0

/-! ## In lockstep -/

/-- What the trackers of all ranks have in common. -/
structure Common where
  currentIter : Nat
  iterInterval : Option Nat
  started : Bool
  recorded : Nat
  profilingInterval : Nat

def common (t : ReportIntervalTracker) : Common where
  currentIter := t.currentIter
  iterInterval := t.iterInterval
  started := t.started
  recorded := t.stepTimes.length
  profilingInterval := t.profilingInterval

/-- The interval is at least one iteration, once it is known. -/
structure Common.Valid (c : Common) : Prop where
  profilingInterval : 1 ≤ c.profilingInterval
  iterInterval : ∀ interval, c.iterInterval = some interval → 1 ≤ interval

theorem one_le_interval {profilingInterval : Nat} (h : 1 ≤ profilingInterval) (gathered : ℚ) :
    1 ≤ ⌊max gathered profilingInterval⌋.toNat := by
  have hle : (1 : ℤ) ≤ ⌊max gathered profilingInterval⌋ := by
    refine Int.le_floor.mpr (le_max_of_le_right ?_)
    exact_mod_cast h
  omega

variable {n : Nat}

variable {ts : Fin n → ReportIntervalTracker} {c : Common}

/-- All ranks obtain one interval. -/
theorem gatherReportInterval_lockstep (hcommon : ∀ r, (ts r).common = c)
    (hnone : c.iterInterval = none) (hvalid : c.Valid) : ∃ trace ts' interval,
      Lockstep (processGroup n) (fun r => (ts r).gatherReportInterval) trace ts' ∧
        1 ≤ interval ∧ ∀ r, (ts' r).common = { c with iterInterval := some interval } := by
  let estimate (r : Fin n) : ℚ := (ts r).timeInterval / median (ts r).stepTimes
  let gathered : ℚ := (reduceTensors .max (List.ofFn fun r => [estimate r])).headD 0
  have hnone' : ∀ r, (ts r).iterInterval = none := fun r =>
    (congrArg Common.iterInterval (hcommon r)).trans hnone
  have hprofiling : ∀ r, (ts r).profilingInterval = c.profilingInterval := fun r =>
    congrArg Common.profilingInterval (hcommon r)
  have hrun : Lockstep (processGroup n)
      (fun r => (.call (.allReduce .max [estimate r]) fun reply => .done { ts r with
        iterInterval := some ⌊max (reply.values.headD 0) (ts r).profilingInterval⌋.toNat } :
          RankProgram ReportIntervalTracker)) [.allReduce .max 1]
      (fun r => { ts r with
        iterInterval := some ⌊max gathered (ts r).profilingInterval⌋.toNat }) :=
    .single _ _ fun _ => rfl
  have hprograms : (fun r => (ts r).gatherReportInterval) = fun r =>
      (.call (.allReduce .max [estimate r]) fun reply => .done { ts r with
        iterInterval := some ⌊max (reply.values.headD 0) (ts r).profilingInterval⌋.toNat } :
          RankProgram ReportIntervalTracker) := by
    funext r
    rw [gatherReportInterval, hnone' r]
    rfl
  refine ⟨_, _, _, hprograms ▸ hrun, one_le_interval hvalid.profilingInterval gathered, ?_⟩
  intro r
  have hsame := hcommon r
  simp only [common] at hsame ⊢
  rw [hprofiling r, ← hsame]

/-- All ranks record a step, and with the last of them obtain the interval. -/
theorem recordStep_lockstep (hcommon : ∀ r, (ts r).common = c) (hnone : c.iterInterval = none)
    (hvalid : c.Valid) (stepTimes : Fin n → PosTime) : ∃ trace ts' c',
      Lockstep (processGroup n) (fun r => (ts r).recordStep (stepTimes r)) trace ts' ∧
        (∀ r, (ts' r).common = c') ∧ c'.Valid := by
  let appended (r : Fin n) : ReportIntervalTracker :=
    { ts r with stepTimes := (ts r).stepTimes ++ [stepTimes r] }
  have hlength : ∀ r, (appended r).stepTimes.length = c.recorded + 1 := by
    intro r
    have hrecorded : (ts r).stepTimes.length = c.recorded :=
      congrArg Common.recorded (hcommon r)
    simp only [appended, List.length_append, List.length_singleton, hrecorded]
  have happended : ∀ r, (appended r).common = { c with recorded := c.recorded + 1 } := by
    intro r
    have hsame := hcommon r
    simp only [common] at hsame ⊢
    rw [hlength r, ← hsame]
  by_cases hfull : c.recorded + 1 = INTERVAL_ESTIMATION_ITERS
  · obtain ⟨trace, ts', interval, hgather, hpos, hcommon'⟩ :=
      gatherReportInterval_lockstep happended hnone ⟨hvalid.profilingInterval, hvalid.iterInterval⟩
    refine ⟨trace ++ [], fun r => { ts' r with stepTimes := [] },
      { c with recorded := 0, iterInterval := some interval }, ?_, fun r => ?_,
      hvalid.profilingInterval, fun k hk => Option.some.inj hk ▸ hpos⟩
    · have hprograms : (fun r => (ts r).recordStep (stepTimes r)) = fun r =>
          (appended r).gatherReportInterval >>= fun gathered =>
            let cleared := { gathered with stepTimes := [] }
            if cleared.iterInterval.isNone then .raise .assertionError else pure cleared :=
        funext fun r => if_pos ((hlength r).trans hfull)
      rw [hprograms]
      refine hgather.bind (.done fun r => ?_)
      have hsome : (ts' r).iterInterval = some interval :=
        congrArg Common.iterInterval (hcommon' r)
      exact if_neg (by simp [hsome])
    · have hsame := hcommon' r
      simp only [common] at hsame ⊢
      rw [Common.mk.injEq] at hsame ⊢
      exact ⟨hsame.1, hsame.2.1, hsame.2.2.1, rfl, hsame.2.2.2.2⟩
  · refine ⟨[], appended, _, .done fun r => ?_, happended, hvalid.profilingInterval,
      hvalid.iterInterval⟩
    exact if_neg fun heq => hfull ((hlength r).symm.trans heq)

/-- One iteration of all ranks. -/
theorem iterIncrease_lockstep (hcommon : ∀ r, (ts r).common = c) (hvalid : c.Valid)
    (stepTimes : Fin n → PosTime) :
    ∃ trace ts' c', Lockstep (processGroup n) (fun r => (ts r).iterIncrease (stepTimes r)) trace
      ts' ∧ (∀ r, (ts' r).common = c') ∧ c'.Valid := by
  let counted (r : Fin n) : ReportIntervalTracker :=
    { ts r with currentIter := (ts r).currentIter + 1 }
  have hcounted : ∀ r, (counted r).common = { c with currentIter := c.currentIter + 1 } := by
    intro r
    rw [← hcommon r]
    rfl
  have hvalid' : Common.Valid { c with currentIter := c.currentIter + 1 } :=
    ⟨hvalid.profilingInterval, hvalid.iterInterval⟩
  have hinterval : ∀ r, (ts r).iterInterval = c.iterInterval := fun r =>
    congrArg Common.iterInterval (hcommon r)
  have hstarted : ∀ r, (ts r).started = c.started := fun r =>
    congrArg Common.started (hcommon r)
  by_cases hnone : c.iterInterval = none
  · have hisNone : ∀ r, (ts r).iterInterval.isNone = true := fun r => by
      rw [hinterval, hnone]
      rfl
    have hfinish : ∀ {ts' : Fin n → ReportIntervalTracker} {c' : Common},
        (∀ r, (ts' r).common = c') → ∀ r, ({ ts' r with started := true }).common =
          { c' with started := true } := by
      intro ts' c' hcommon' r
      rw [← hcommon' r]
      rfl
    cases hstart : c.started with
    | false =>
      refine ⟨[], fun r => { counted r with started := true }, _, .done fun r => ?_,
        hfinish hcounted, hvalid'.profilingInterval, hvalid'.iterInterval⟩
      simp only [iterIncrease, hisNone, hstarted, hstart]
      rfl
    | true =>
      obtain ⟨trace, ts', c', hrecord, hcommon', hvalid''⟩ :=
        recordStep_lockstep hcounted hnone hvalid' stepTimes
      refine ⟨trace ++ [], fun r => { ts' r with started := true }, _, ?_, hfinish hcommon',
        hvalid''.profilingInterval, hvalid''.iterInterval⟩
      have hprograms : (fun r => (ts r).iterIncrease (stepTimes r)) = fun r =>
          (counted r).recordStep (stepTimes r) >>= fun recorded =>
            pure { recorded with started := true } := by
        funext r
        change (if (ts r).iterInterval.isNone = true then _ else _) = _
        rw [if_pos (hisNone r)]
        change (if (ts r).started = true then _ else _) = _
        rw [if_pos ((hstarted r).trans hstart)]
      rw [hprograms]
      exact hrecord.bind (.done fun _ => rfl)
  · refine ⟨[], counted, _, .done fun r => ?_, hcounted, hvalid'⟩
    have hsome : (ts r).iterInterval.isNone = false := by
      rw [hinterval, Option.isNone_eq_false_iff]
      exact Option.isSome_iff_ne_none.mpr hnone
    simp only [iterIncrease, hsome]
    rfl

/-- All ranks decide alike whether to report. -/
theorem isIntervalElapsed_eq {t t' : ReportIntervalTracker} (h : t.common = t'.common) :
    t.isIntervalElapsed = t'.isIntervalElapsed := by
  have hinterval : t.iterInterval = t'.iterInterval := congrArg Common.iterInterval h
  have hiter : t.currentIter = t'.currentIter := congrArg Common.currentIter h
  rw [isIntervalElapsed, isIntervalElapsed, hinterval, hiter]

end ReportIntervalTracker

end ResiliencyExt.Attribution.Straggler
