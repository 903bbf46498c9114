import Mathlib.Data.List.Infix
import ResiliencyExt.Attribution.Straggler.IntervalTracker
import ResiliencyExt.Attribution.Straggler.NameMapper

set_option autoImplicit false

/-!
# Straggler detection: the report

`ReportGenerator.generate_report` in its stages: the nodes of the ranks, the ids of
the names, the individual scores, the relative scores and the gathered scores.  The
stages that talk to other ranks do so with tensors whose lengths are given by the
name mapper alone.  A score that is NaN is `none`.
-/

namespace ResiliencyExt.Attribution.Straggler

open Foundation

/-- The statistics of a kernel or of a section. -/
structure Summary where
  /-- `Statistic.MED` -/
  med : PosTime
  /-- `Statistic.AVG` -/
  avg : PosTime
  /-- `Statistic.NUM` -/
  num : Nat
  num_pos : 0 < num

abbrev Summaries :=
  Dict String Summary

abbrev Score :=
  Option ℚ

/-- The scores of one rank. -/
structure LocalScores where
  gpu : Score
  sections : Dict String Score

def LocalScores.nan : LocalScores :=
  ⟨none, .empty⟩

/-- The scores of a report: by rank, and for a section by rank. -/
structure PerfScores where
  gpuIndividual : Dict Nat Score
  sectionIndividual : Dict String (Dict Nat Score)
  gpuRelative : Dict Nat Score
  sectionRelative : Dict String (Dict Nat Score)

def PerfScores.empty : PerfScores :=
  ⟨.empty, .empty, .empty, .empty⟩

structure Report where
  scores : PerfScores
  rankToNode : Dict Nat String
  localSectionSummaries : Summaries
  localKernelSummaries : Summaries
  gatherOnRank0 : Bool
  rank : Nat

structure ReportGenerator where
  isComputingRelScores : Bool
  isComputingIndivScores : Bool
  gatherOnRank0 : Bool
  nodeName : String
  /-- A name that is not there has the default, infinity. -/
  minLocalKernelTimes : Dict String ℚ
  minLocalSectionTimes : Dict String ℚ
  nameMapper : NameMapper
  rankToNode : Dict Nat String

def ReportGenerator.new (scoresToCompute : List String) (gatherOnRank0 : Bool)
    (nodeName : String) : ReportGenerator where
  isComputingRelScores := scoresToCompute.contains "relative_perf_scores"
  isComputingIndivScores := scoresToCompute.contains "individual_perf_scores"
  gatherOnRank0 := gatherOnRank0
  nodeName := nodeName
  minLocalKernelTimes := .empty
  minLocalSectionTimes := .empty
  nameMapper := .empty
  rankToNode := .empty

/-! ## Scores -/

/-- One section of `_compute_sections_perf_scores`; `reference` has no entry where the lookup
raises. -/
def sectionScore (reference : String → Option Score) (scores : Dict String Score)
    (e : String × Summary) : Except Exn (Dict String Score) :=
  match reference e.1 with
  | none => .error (.keyError e.1)
  | some time => .ok (scores.set e.1 (time.map fun t => t / e.2.med))

/-- `_compute_sections_perf_scores` -/
def computeSectionsPerfScores (summaries : Summaries) (reference : String → Option Score) :
    Except Exn (Dict String Score) :=
  summaries.entries.foldlM (sectionScore reference) .empty

/-- The weighted scores, the weights and the number of the common kernels so far. -/
structure KernelSums where
  weightedScores : ℚ
  weights : ℚ
  numCommonKernels : Nat

/-- One kernel of `_compute_gpu_perf_score`: it is skipped where the reference is NaN. -/
def addKernel (reference : String → Option Score) (sums : KernelSums) (e : String × Summary) :
    Except Exn KernelSums :=
  match reference e.1 with
  | none => .error (.keyError e.1)
  | some none => .ok sums
  | some (some time) =>
    let weight := e.2.num * (e.2.avg : ℚ)
    .ok
      { weightedScores := sums.weightedScores + time / e.2.med * weight
        weights := sums.weights + weight
        numCommonKernels := sums.numCommonKernels + 1 }

/-- `_compute_gpu_perf_score` -/
def computeGpuPerfScore (summaries : Summaries) (reference : String → Option Score) :
    Except Exn Score := do
  let sums ← summaries.entries.foldlM (addKernel reference) ⟨0, 0, 0⟩
  return if 0 < sums.numCommonKernels then some (sums.weightedScores / sums.weights) else none

/-- Both scores against one pair of references. -/
def computeScores (kernels sections : Summaries)
  (kernelTimes sectionTimes : String → Option Score) :
    Except Exn LocalScores := do
  let gpu ← computeGpuPerfScore kernels kernelTimes
  let sectionScores ← computeSectionsPerfScores sections sectionTimes
  return ⟨gpu, sectionScores⟩

/-- `_update_local_min_times` of kernels or of sections. -/
def updateMinTimes (times : Dict String ℚ) (summaries : Summaries) : Dict String ℚ :=
  summaries.entries.foldl (fun times e => times.set e.1
    (match times.get? e.1 with
      | none => e.2.med
      | some time => min time e.2.med)) times

/-- `_filter_out_nccl_kernels` -/
def filterOutNcclKernels (kernels : Summaries) : Summaries :=
  kernels.filterKeys fun name => ¬ "ncclDev".toList <:+: name.toList

/-! ## Tensors -/

/-- `get_kernel_id`, `get_section_id` -/
def IdMap.getId (m : IdMap) (name : String) : Except Exn Nat :=
  match m.nameToId.get? name with
  | none => .error (.keyError name)
  | some id => .ok id

/-- `get_kernel_name`, `get_section_name` -/
def IdMap.getName (m : IdMap) (id : Nat) : Except Exn String :=
  match m.idToName.get? id with
  | none => .error (.keyErrorId id)
  | some name => .ok name

/-- Put the median time of a kernel or of a section into the tensor. -/
def packTime (m : IdMap) (offset : Nat) (tensor : List ℚ) (e : String × Summary) :
    Except Exn (List ℚ) := do
  let id ← m.getId e.1
  return tensor.set (offset + id) e.2.med

def packTimes (m : IdMap) (offset : Nat) (summaries : Summaries) (tensor : List ℚ) :
    Except Exn (List ℚ) :=
  summaries.entries.foldlM (packTime m offset) tensor

/-- Read the minimal time of a kernel or of a section: it is NaN unless all ranks had one. -/
def unpackTime (m : IdMap) (offset : Nat) (tensor : List ℚ) (times : Dict String Score)
    (id : Nat) : Except Exn (Dict String Score) := do
  let name ← m.getName id
  let val := tensor.getD (offset + id) (-1)
  return times.set name (if 0 ≤ val then some val else none)

def unpackTimes (m : IdMap) (offset : Nat) (tensor : List ℚ) : Except Exn (Dict String Score) :=
  (List.range m.counter).foldlM (unpackTime m offset tensor) .empty

/-- `_all_reduce_times` -/
def allReduceTimes (worldSize : Nat) (m : NameMapper) (kernels sections : Summaries) :
    RankProgram (Dict String Score × Dict String Score) := do
  let numKernels := m.kernels.counter
  let totalLen := numKernels + m.sections.counter
  let withKernels ← .ofExcept (packTimes m.kernels 0 kernels (List.replicate totalLen (-1)))
  let timesTensor ← .ofExcept (packTimes m.sections numKernels sections withKernels)
  let reduced ← allReduce worldSize .min timesTensor
  let minKernelTimes ← .ofExcept (unpackTimes m.kernels 0 reduced)
  let minSectionTimes ← .ofExcept (unpackTimes m.sections numKernels reduced)
  return (minKernelTimes, minSectionTimes)

/-- Put both scores of a section into the tensor. -/
def packScores (m : IdMap) (individual relative : LocalScores) (tensor : List Score) (id : Nat) :
    Except Exn (List Score) := do
  let name ← m.getName id
  return (tensor.set (2 + id) (individual.sections.get? name).join).set (2 + m.counter + id)
    (relative.sections.get? name).join

/-- `_get_tensor_from_scores` -/
def getTensorFromScores (m : IdMap) (individual relative : LocalScores) :
    Except Exn (List Score) :=
  (List.range m.counter).foldlM (packScores m individual relative)
    (((List.replicate (2 + 2 * m.counter) none).set 0 individual.gpu).set 1 relative.gpu)

/-- Read both scores of a section. -/
def unpackScores (m : IdMap) (numSections : Nat) (tensor : List Score)
    (scores : Dict String Score × Dict String Score) (id : Nat) :
    Except Exn (Dict String Score × Dict String Score) := do
  let name ← m.getName id
  return (scores.1.set name (tensor.getD (2 + id) none),
    scores.2.set name (tensor.getD (2 + numSections + id) none))

/-- `_get_scores_from_tensor` -/
def getScoresFromTensor (m : IdMap) (tensor : List Score) :
    Except Exn (LocalScores × LocalScores) :=
  let numSections := (tensor.length - 2) / 2
  if numSections ≠ m.counter then .error .assertionError
  else do
    let sections ← (List.range numSections).foldlM (unpackScores m numSections tensor)
      (.empty, .empty)
    return (⟨tensor.getD 0 none, sections.1⟩, ⟨tensor.getD 1 none, sections.2⟩)

/-! ## The stages of a report -/

/-- The scores of one rank in the format of the report. -/
def PerfScores.add (g : ReportGenerator) (scores : PerfScores) (rank : Nat)
    (individual relative : LocalScores) : PerfScores :=
  let addSections (sections : Dict String Score) (all : Dict String (Dict Nat Score)) :=
    sections.entries.foldl (fun all e => all.alter e.1 .empty fun ranks => ranks.set rank e.2) all
  let withIndividual :=
    if g.isComputingIndivScores then
      { scores with
        gpuIndividual := scores.gpuIndividual.set rank individual.gpu
        sectionIndividual := addSections individual.sections scores.sectionIndividual }
    else scores
  if g.isComputingRelScores then
    { withIndividual with
      gpuRelative := withIndividual.gpuRelative.set rank relative.gpu
      sectionRelative := addSections relative.sections withIndividual.sectionRelative }
  else withIndividual

/-- One entry of `dict(gathered_rank_node)`. -/
def addNode (nodes : Dict Nat String) : GatheredObject → Dict Nat String
  | .node rank nodeName => nodes.set rank nodeName
  | .names .. => nodes

namespace ReportGenerator

/-- `_maybe_gather_rank_to_node` -/
def maybeGatherRankToNode (worldSize rank : Nat) (g : ReportGenerator) :
    RankProgram ReportGenerator :=
  if g.rankToNode.entries.isEmpty then
    if g.gatherOnRank0 then do
      let gathered ← allGatherObject worldSize (.node rank g.nodeName)
      return { g with rankToNode := gathered.foldl addNode .empty }
    else return { g with rankToNode := g.rankToNode.set rank g.nodeName }
  else return g

/-- `gather_and_assign_ids` where the name mapper is needed. -/
def mapNames (worldSize : Nat) (g : ReportGenerator) (kernels sections : Summaries) :
    RankProgram ReportGenerator :=
  if g.isComputingRelScores || g.gatherOnRank0 then do
    let nameMapper ← g.nameMapper.gatherAndAssignIds worldSize ⟨kernels.keys, sections.keys⟩
    return { g with nameMapper := nameMapper }
  else return g

/-- The individual scores: the references are the best times of this rank, among which all
its names are. -/
def individualScores (g : ReportGenerator) (kernels sections : Summaries) :
    Except Exn (ReportGenerator × LocalScores) :=
  if g.isComputingIndivScores then do
    let g := { g with
      minLocalKernelTimes := updateMinTimes g.minLocalKernelTimes kernels
      minLocalSectionTimes := updateMinTimes g.minLocalSectionTimes sections }
    let scores ← computeScores kernels sections
      (fun name => (g.minLocalKernelTimes.get? name).map some)
      (fun name => (g.minLocalSectionTimes.get? name).map some)
    return (g, scores)
  else return (g, .nan)

/-- The relative scores: the references are the best times of all ranks. -/
def relativeScores (worldSize : Nat) (g : ReportGenerator) (kernels sections : Summaries) :
    RankProgram LocalScores :=
  if g.isComputingRelScores then do
    let minTimes ← allReduceTimes worldSize g.nameMapper kernels sections
    .ofExcept (computeScores kernels sections minTimes.1.get? minTimes.2.get?)
  else return .nan

/-- Add the scores that rank `r` has gathered to those of the report. -/
def addGathered (g : ReportGenerator) (gatherList : List (List Score)) (scores : PerfScores)
    (r : Nat) : Except Exn PerfScores := do
  let both ← getScoresFromTensor g.nameMapper.sections (gatherList.getD r [])
  return scores.add g r both.1 both.2

/-- `_gather_results_on_rank0` -/
def gatherResultsOnRank0 (worldSize rank : Nat) (g : ReportGenerator)
    (individual relative : LocalScores) : RankProgram PerfScores := do
  let scoresTensor ← .ofExcept (getTensorFromScores g.nameMapper.sections individual relative)
  let gatherList ← Straggler.gatherOnRank0 worldSize scoresTensor
  if rank = 0 then
    .ofExcept ((List.range worldSize).foldlM (g.addGathered (gatherList.getD [])) .empty)
  else return .empty

def formatScores (worldSize rank : Nat) (g : ReportGenerator) (individual relative : LocalScores) :
    RankProgram PerfScores :=
  if g.gatherOnRank0 then g.gatherResultsOnRank0 worldSize rank individual relative
  else return PerfScores.empty.add g rank individual relative

/-- `generate_report` -/
def generateReport (worldSize rank : Nat) (g : ReportGenerator) (sections kernels : Summaries) :
    RankProgram (ReportGenerator × Option Report) := do
  let kernels := filterOutNcclKernels kernels
  let located ← g.maybeGatherRankToNode worldSize rank
  let mapped ← located.mapNames worldSize kernels sections
  let scored ← .ofExcept (mapped.individualScores kernels sections)
  let relative ← scored.1.relativeScores worldSize kernels sections
  let scores ← scored.1.formatScores worldSize rank scored.2 relative
  let report : Report :=
    { scores := scores
      rankToNode := scored.1.rankToNode
      localSectionSummaries := sections
      localKernelSummaries := kernels
      gatherOnRank0 := scored.1.gatherOnRank0
      rank := rank }
  return (scored.1, if scored.1.gatherOnRank0 ∧ rank ≠ 0 then none else some report)

end ReportGenerator

end ResiliencyExt.Attribution.Straggler
