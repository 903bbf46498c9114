import ResiliencyExt.Attribution.Straggler.LockstepReports

set_option autoImplicit false

/-!
# Straggler detection: the detector

`Detector.generate_report_if_interval_elapsed`, called by every rank in each training
iteration.  A rank that counts another interval than its peers, or that skips an
operation because it has measured nothing, would leave them waiting: no rank does.
-/

namespace ResiliencyExt.Attribution.Straggler

open Foundation

structure Detector where
  reporter : ReportGenerator
  reportIntervalTracker : ReportIntervalTracker

/-- `Detector.initialize` -/
def Detector.new (scoresToCompute : List String) (gatherOnRank0 : Bool)
    (profilingInterval : Nat) (nodeName : String) (reportTimeInterval : ℚ) : Detector where
  reporter := .new scoresToCompute gatherOnRank0 nodeName
  reportIntervalTracker := .new reportTimeInterval profilingInterval

/-- What a rank has measured when it calls the detector. -/
structure Measured where
  /-- The time since its previous call. -/
  stepTime : PosTime
  sectionSummaries : Summaries
  kernelSummaries : Summaries

/-- What a call comes to on one rank. -/
structure Outcome where
  detector : Detector
  /-- Whether a report was generated, which on the other ranks than 0 may be `None`. -/
  generated : Bool
  report : Option Report

namespace Detector

/-- `generate_report`; the measurements are reset after it. -/
def generateReport (worldSize rank : Nat) (d : Detector) (measured : Measured) :
    RankProgram (Detector × Option Report) := do
  let report ← d.reporter.generateReport worldSize rank measured.sectionSummaries
    measured.kernelSummaries
  return ({ d with reporter := report.1 }, report.2)

/-- `generate_report_if_interval_elapsed` -/
def generateReportIfIntervalElapsed (worldSize rank : Nat) (d : Detector) (measured : Measured) :
    RankProgram Outcome := do
  let tracker ← d.reportIntervalTracker.iterIncrease measured.stepTime
  let d := { d with reportIntervalTracker := tracker }
  if d.reportIntervalTracker.isIntervalElapsed then
    let report ← d.generateReport worldSize rank measured
    return { detector := report.1, generated := true, report := report.2 }
  else return { detector := d, generated := false, report := none }

/-! ## One call -/

variable {n : Nat}

/-- The detectors of all ranks are alike in everything that decides what they call. -/
structure Alike (t : ReportIntervalTracker.Common) (g : ReportGenerator.Common)
    (ds : Fin n → Detector) : Prop where
  tracker : ∀ r, (ds r).reportIntervalTracker.common = t
  reporter : ∀ r, (ds r).reporter.common = g
  valid : t.Valid
  consecutive : g.nameMapper.Consecutive

/-- What a call comes to on all ranks. -/
structure InStep (outcomes : Fin n → Outcome) : Prop where
  generated : ∀ r s, (outcomes r).generated = (outcomes s).generated
  iterInterval : ∀ r s, (outcomes r).detector.reportIntervalTracker.iterInterval =
    (outcomes s).detector.reportIntervalTracker.iterInterval
  one_le : ∀ r interval,
    (outcomes r).detector.reportIntervalTracker.iterInterval = some interval → 1 ≤ interval

variable {t : ReportIntervalTracker.Common} {g : ReportGenerator.Common} {ds : Fin n → Detector}

theorem Alike.inStep {outcomes : Fin n → Outcome} (h : Alike t g fun r => (outcomes r).detector)
    (hgenerated : ∀ r s, (outcomes r).generated = (outcomes s).generated) :
    InStep outcomes where
  generated := hgenerated
  iterInterval r s :=
    congrArg ReportIntervalTracker.Common.iterInterval ((h.tracker r).trans (h.tracker s).symm)
  one_le r interval hinterval :=
    h.valid.iterInterval interval
      ((congrArg ReportIntervalTracker.Common.iterInterval (h.tracker r)).symm.trans hinterval)

theorem generateReportIfIntervalElapsed_lockstep (h : Alike t g ds) (measured : Fin n → Measured) :
    ∃ trace outcomes t' g', Lockstep (processGroup n)
      (fun r => (ds r).generateReportIfIntervalElapsed n r (measured r)) trace outcomes ∧
        Alike t' g' (fun r => (outcomes r).detector) ∧ InStep outcomes := by
  obtain ⟨trace, ts, t', hiter, htracker, hvalid⟩ :=
    ReportIntervalTracker.iterIncrease_lockstep h.tracker h.valid fun r => (measured r).stepTime
  let counted (r : Fin n) : Detector := { ds r with reportIntervalTracker := ts r }
  by_cases hreport : ∀ r, (ts r).isIntervalElapsed = true
  · obtain ⟨trace', results, g', hgenerate, hreporter, hconsecutive⟩ :=
      ReportGenerator.generateReport_lockstep h.reporter h.consecutive
        (fun r => (measured r).sectionSummaries) fun r => (measured r).kernelSummaries
    let outcomes (r : Fin n) : Outcome :=
      ⟨{ counted r with reporter := (results r).1 }, true, (results r).2⟩
    have halike : Alike t' g' fun r => (outcomes r).detector :=
      ⟨htracker, hreporter, hvalid, hconsecutive⟩
    have hreportRun : Lockstep (processGroup n)
        (fun r => (counted r).generateReport n r (measured r)) (trace' ++ [])
        (fun r => ({ counted r with reporter := (results r).1 }, (results r).2)) :=
      hgenerate.bind (.done fun _ => rfl)
    have hrest : Lockstep (processGroup n)
        (fun r => (counted r).generateReport n r (measured r) >>= fun report =>
          pure ({ detector := report.1, generated := true, report := report.2 } : Outcome))
        ((trace' ++ []) ++ []) outcomes := hreportRun.bind (.done fun _ => rfl)
    refine ⟨trace ++ ((trace' ++ []) ++ []), outcomes, t', g', hiter.bind ?_, halike,
      halike.inStep fun _ _ => rfl⟩
    have hprograms : (fun r => if (ts r).isIntervalElapsed then
          (counted r).generateReport n r (measured r) >>= fun report =>
            pure ({ detector := report.1, generated := true, report := report.2 } : Outcome)
        else pure { detector := counted r, generated := false, report := none }) = fun r =>
          (counted r).generateReport n r (measured r) >>= fun report =>
            pure { detector := report.1, generated := true, report := report.2 } :=
      funext fun r => if_pos (hreport r)
    exact hprograms ▸ hrest
  · obtain ⟨member, hmember⟩ := not_forall.mp hreport
    have hnot : ∀ r, ¬ (ts r).isIntervalElapsed = true := fun r helapsed =>
      hmember ((ReportIntervalTracker.isIntervalElapsed_eq
        ((htracker member).trans (htracker r).symm)).trans helapsed)
    have halike : Alike t' g counted :=
      ⟨htracker, h.reporter, hvalid, h.consecutive⟩
    exact ⟨trace ++ [], fun r => ⟨counted r, false, none⟩, t', g,
      hiter.bind (.done fun r => if_neg (hnot r)), halike, halike.inStep fun _ _ => rfl⟩

/-! ## Runs -/

/-- What happened in one call of all ranks. -/
structure Iteration (n : Nat) where
  trace : List Signature
  outcomes : Fin n → Outcome

/-- All ranks call `generate_report_if_interval_elapsed` once for each of `calls`. -/
inductive Run : (Fin n → Detector) → List (Fin n → Measured) → List (Iteration n) → Prop
  | nil (ds : Fin n → Detector) : Run ds [] []
  | cons {ds : Fin n → Detector} {measured : Fin n → Measured} {calls : List (Fin n → Measured)}
      {trace : List Signature} {outcomes : Fin n → Outcome} {iterations : List (Iteration n)}
      (hcall : Lockstep (processGroup n)
        (fun r => (ds r).generateReportIfIntervalElapsed n r (measured r)) trace outcomes)
      (rest : Run (fun r => (outcomes r).detector) calls iterations) :
      Run ds (measured :: calls) (⟨trace, outcomes⟩ :: iterations)

theorem Alike.exists_run (calls : List (Fin n → Measured)) :
    ∀ {t : ReportIntervalTracker.Common} {g : ReportGenerator.Common} {ds : Fin n → Detector},
      Alike t g ds → ∃ iterations, Run ds calls iterations := by
  induction calls with
  | nil => exact fun _ => ⟨[], .nil _⟩
  | cons measured rest ih =>
    intro t g ds h
    obtain ⟨_, _, _, _, hcall, halike, -⟩ :=
      generateReportIfIntervalElapsed_lockstep h measured
    obtain ⟨iterations, hrest⟩ := ih halike
    exact ⟨_, .cons hcall hrest⟩

theorem Run.inStep {calls : List (Fin n → Measured)} {iterations : List (Iteration n)}
    (hrun : Run ds calls iterations) :
    ∀ {t : ReportIntervalTracker.Common} {g : ReportGenerator.Common}, Alike t g ds →
      ∀ iteration ∈ iterations, InStep iteration.outcomes := by
  induction hrun with
  | nil => exact fun _ _ h => absurd h List.not_mem_nil
  | @cons ds measured calls trace outcomes iterations hcall _ ih =>
    intro t g h
    obtain ⟨_, outcomes', t', g', hcall', halike, hinStep⟩ :=
      generateReportIfIntervalElapsed_lockstep h measured
    obtain rfl := hcall.results_unique hcall'
    exact List.forall_mem_cons.mpr ⟨hinStep, ih halike⟩

theorem alike_new (scoresToCompute : List String) (gatherOnRank0 : Bool)
    {profilingInterval : Nat} (hprofiling : 1 ≤ profilingInterval) (nodeName : Fin n → String)
    (reportTimeInterval : Fin n → ℚ) : ∃ t g, Alike t g fun r =>
      new scoresToCompute gatherOnRank0 profilingInterval (nodeName r)
        (reportTimeInterval r) :=
  ⟨⟨0, none, false, 0, profilingInterval⟩, ⟨_, _, gatherOnRank0, .empty, true⟩,
    fun _ => rfl, fun _ => rfl, ⟨hprofiling, nofun⟩, NameMapper.consecutive_empty⟩

/-- Whatever the ranks measure, they get through all calls, each with the same operations on all
ranks.  They obtain the same interval at the same call and report at the same calls. -/
theorem reports_in_lockstep (scoresToCompute : List String) (gatherOnRank0 : Bool)
    {profilingInterval : Nat} (hprofiling : 1 ≤ profilingInterval) (nodeName : Fin n → String)
    (reportTimeInterval : Fin n → ℚ) (calls : List (Fin n → Measured)) :
    let first (r : Fin n) :=
      new scoresToCompute gatherOnRank0 profilingInterval (nodeName r)
        (reportTimeInterval r)
    (∃ iterations, Run first calls iterations) ∧
      ∀ iterations, Run first calls iterations →
        ∀ iteration ∈ iterations, InStep iteration.outcomes := by
  obtain ⟨t, g, halike⟩ :=
    alike_new scoresToCompute gatherOnRank0 hprofiling nodeName reportTimeInterval
  exact ⟨halike.exists_run calls, fun iterations hrun => hrun.inStep halike⟩

/-- Two ranks, of which the second is slower and has measured nothing else. -/
def twoMeasured (r : Fin 2) : Measured where
  stepTime := if r.val = 0 then ⟨1, one_pos⟩ else ⟨2, two_pos⟩
  sectionSummaries :=
    if r.val = 0 then Dict.empty.set "forward" ⟨⟨1, one_pos⟩, ⟨1, one_pos⟩, 1, Nat.one_pos⟩
    else .empty
  kernelSummaries := .empty

theorem reports_in_lockstep_twoRanks :
    let first (r : Fin 2) :=
      new ["relative_perf_scores"] true 1 (if r.val = 0 then "a" else "b") 4
    (∃ iterations, Run first (List.replicate 20 twoMeasured) iterations) ∧
      ∀ iterations, Run first (List.replicate 20 twoMeasured) iterations →
        ∀ iteration ∈ iterations, InStep iteration.outcomes :=
  reports_in_lockstep ["relative_perf_scores"] true (Nat.le_refl 1) (fun r => if r.val = 0 then "a"
    else "b") (fun _ => 4) (List.replicate 20 twoMeasured)

end Detector

end ResiliencyExt.Attribution.Straggler
