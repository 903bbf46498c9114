import Mathlib.Data.List.FinRange
import ResiliencyExt.Checkpointing.AsyncCkpt.WriterRuns
import ResiliencyExt.Foundation.Lockstep

set_option autoImplicit false

/-!
# The end of a save on all ranks

`save_state_dict_async_finalize` gathers what the ranks got from their writers.  The coordinator
writes the metadata when no rank has a wrapped exception, and broadcasts whether one has.  The
collectives are those of `torch.distributed`.
-/

namespace ResiliencyExt.Checkpointing.AsyncCkpt

open Foundation List

variable {Data Stream WriteResult Exc GlobalMetadata : Type} {n : Nat}

/-! ## The collectives of the finalization -/

/-- `_is_wrapped_exception` -/
def Retrieved.isWrappedException : Retrieved WriteResult Exc → Bool
  | .results _ => false
  | .workerFailure _ | .runtimeError _ => true

/-- `_get_failure_dict` -/
def getFailureDict (allResults : Fin n → Retrieved WriteResult Exc) :
    List (Fin n × Retrieved WriteResult Exc) :=
  ((finRange n).map fun r => (r, allResults r)).filter fun e => e.2.isWrappedException

inductive FinalizeOp (WriteResult Exc : Type) where
  | gatherObject (writeResults : Retrieved WriteResult Exc)
  | broadcast (failuresOccurred : Bool)

/-- What all ranks must agree on. -/
inductive FinalizeCollective where
  | gatherObject
  | broadcast
  deriving DecidableEq, Repr

inductive FinalizeReply (n : Nat) (WriteResult Exc : Type) where
  /-- Only the coordinator gets the objects. -/
  | gathered (allResults : Option (Fin n → Retrieved WriteResult Exc))
  | delivered (failuresOccurred : Bool)

namespace FinalizeOp

def collective : FinalizeOp WriteResult Exc → FinalizeCollective
  | .gatherObject _ => .gatherObject
  | .broadcast _ => .broadcast

def writeResults : FinalizeOp WriteResult Exc → Retrieved WriteResult Exc
  | .gatherObject writeResults => writeResults
  | .broadcast _ => .results []

def failuresOccurred : FinalizeOp WriteResult Exc → Bool
  | .gatherObject _ => false
  | .broadcast failuresOccurred => failuresOccurred

end FinalizeOp

namespace FinalizeReply

def allResults : FinalizeReply n WriteResult Exc → Option (Fin n → Retrieved WriteResult Exc)
  | .gathered allResults => allResults
  | .delivered _ => none

/-- The flag that a broadcast leaves in a tensor. -/
def failuresOr (tensor : Bool) : FinalizeReply n WriteResult Exc → Bool
  | .gathered _ => tensor
  | .delivered failuresOccurred => failuresOccurred

end FinalizeReply

/-- The group of a `_DistWrapper`. -/
def finalizeGroup (coordinator : Fin n) :
    CollectiveGroup (FinalizeOp WriteResult Exc) FinalizeCollective
      (FinalizeReply n WriteResult Exc) n where
  signature := FinalizeOp.collective
  reply ops r :=
    match ops r with
    | .gatherObject _ =>
      .gathered (if r = coordinator then some fun q => (ops q).writeResults else none)
    | .broadcast _ => .delivered (ops coordinator).failuresOccurred

/-- What a rank has done when the finalization is over. -/
structure FinalizeOutcome (n : Nat) (WriteResult Exc GlobalMetadata : Type) where
  /-- The arguments of the call of `storage_writer.finish`. -/
  finish : Option (GlobalMetadata × (Fin n → Retrieved WriteResult Exc))
  /-- The `node_failures` of the `CheckpointException` that is raised. -/
  checkpointException : Option (List (Fin n × Retrieved WriteResult Exc))

inductive FinalizeError where
  | assertionError
  | typeError
  deriving DecidableEq, Repr

/-- A program of one rank. -/
abbrev FinalizeProgram (n : Nat) (WriteResult Exc GlobalMetadata : Type) : Type :=
  Spmd (FinalizeOp WriteResult Exc) (FinalizeReply n WriteResult Exc) FinalizeError
    (FinalizeOutcome n WriteResult Exc GlobalMetadata)

/-- The broadcast of the failure status, and what follows it. -/
def broadcastFailures (nodeFailures : List (Fin n × Retrieved WriteResult Exc))
    (finish : Option (GlobalMetadata × (Fin n → Retrieved WriteResult Exc))) :
    FinalizeProgram n WriteResult Exc GlobalMetadata :=
  .call (.broadcast (0 < nodeFailures.length)) fun reply =>
    .done ⟨finish,
      if reply.failuresOr (0 < nodeFailures.length) then some nodeFailures else none⟩

/-- What rank `r` does after the gathering. -/
def afterGather (coordinator r : Fin n) (globalMetadata : Option GlobalMetadata)
    (allResults : Option (Fin n → Retrieved WriteResult Exc)) :
    FinalizeProgram n WriteResult Exc GlobalMetadata :=
  if r = coordinator then
    match allResults with
    | none => .raise .typeError
    | some allResults =>
      let nodeFailures := getFailureDict allResults
      if nodeFailures.length = 0 then
        match globalMetadata with
        | none => .raise .assertionError
        | some globalMetadata =>
          broadcastFailures nodeFailures (some (globalMetadata, allResults))
      else broadcastFailures nodeFailures none
  else broadcastFailures [] none

/-- `save_state_dict_async_finalize` of rank `r`, with what it retrieved. -/
def saveStateDictAsyncFinalize (coordinator r : Fin n) (globalMetadata : Option GlobalMetadata)
    (writeResults : Retrieved WriteResult Exc) :
    FinalizeProgram n WriteResult Exc GlobalMetadata :=
  .call (.gatherObject writeResults) fun reply =>
    afterGather coordinator r globalMetadata reply.allResults

/-! ## What the coordinator decides -/

variable (coordinator : Fin n) (globalMetadata : GlobalMetadata)
    (writeResults : Fin n → Retrieved WriteResult Exc)

theorem getFailureDict_eq_nil_iff {allResults : Fin n → Retrieved WriteResult Exc} :
    getFailureDict allResults = [] ↔ ∀ r, (allResults r).isWrappedException = false := by
  unfold getFailureDict
  rw [filter_eq_nil_iff]
  constructor
  · intro h r
    exact Bool.eq_false_iff.mpr (h _ (mem_map.mpr ⟨r, mem_finRange r, rfl⟩))
  · rintro h e he
    obtain ⟨r, _, rfl⟩ := mem_map.mp he
    exact Bool.eq_false_iff.mp (h r)

/-- What each rank has done: the coordinator alone calls `finish`, and all of them raise or none
does. -/
def finalizeOutcome (coordinator : Fin n) (globalMetadata : GlobalMetadata)
    (writeResults : Fin n → Retrieved WriteResult Exc) (r : Fin n) :
    FinalizeOutcome n WriteResult Exc GlobalMetadata where
  finish :=
    if r = coordinator ∧ getFailureDict writeResults = [] then
      some (globalMetadata, writeResults)
    else none
  checkpointException :=
    if getFailureDict writeResults = [] then none
    else some (if r = coordinator then getFailureDict writeResults else [])

theorem afterGather_eq (r : Fin n) :
    afterGather coordinator r (if r = coordinator then some globalMetadata else none)
        (if r = coordinator then some writeResults else none) =
      broadcastFailures (if r = coordinator then getFailureDict writeResults else [])
        (finalizeOutcome coordinator globalMetadata writeResults r).finish := by
  unfold afterGather finalizeOutcome
  by_cases hr : r = coordinator
  · simp only [hr, if_true, true_and, length_eq_zero_iff]
    split <;> rfl
  · simp only [hr, if_false, false_and]

/-- The ranks finalize the save with the same two collectives. -/
theorem lockstep_saveStateDictAsyncFinalize :
    Lockstep (finalizeGroup coordinator)
      (fun r => saveStateDictAsyncFinalize coordinator r
        (if r = coordinator then some globalMetadata else none) (writeResults r))
      [.gatherObject, .broadcast] (finalizeOutcome coordinator globalMetadata writeResults) := by
  refine .call (fun _ => rfl) (fun _ => rfl) ?_
  change Lockstep _ (fun r => afterGather coordinator r
    (if r = coordinator then some globalMetadata else none)
    (if r = coordinator then some writeResults else none)) _ _
  simp only [afterGather_eq]
  refine .call (fun _ => rfl) (fun _ => rfl) (.done fun r => congrArg Spmd.done ?_)
  change FinalizeOutcome.mk _ (if decide (0 < (if coordinator = coordinator then
    getFailureDict writeResults else []).length) = true then _ else none) = _
  simp only [if_true, decide_eq_true_eq, length_pos_iff, ne_eq, ite_not]
  rfl

/-! ## The saves of the ranks -/

/-- The save of one rank: its buckets are written if it has data. -/
structure RankSave (Data Stream WriteResult Exc : Type) where
  hasDataToWrite : Bool
  tasks : List (WriteTask Data Stream WriteResult Exc)
  data : hasDataToWrite = true ↔ tasks ≠ []

namespace RankSave

variable {str : Exc → String} {rank : RankSave Data Stream WriteResult Exc}
  {resultsQueue : List (WriteResultsOrExc WriteResult (WriteError Exc))}

/-- The results queue of a rank whose save is over.  A rank without data has none. -/
def Written (str : Exc → String) (rank : RankSave Data Stream WriteResult Exc)
    (resultsQueue : List (WriteResultsOrExc WriteResult (WriteError Exc))) : Prop :=
  rank.hasDataToWrite = true → ∃ s,
    (WriteState.system str rank.tasks).Reachable (fun _ _ => True) s ∧ s.main = .done ∧
      s.globalResultsQueue = resultsQueue

/-- What the finalization gets from the rank. -/
def retrieved (rank : RankSave Data Stream WriteResult Exc)
    (resultsQueue : List (WriteResultsOrExc WriteResult (WriteError Exc))) :
    Retrieved WriteResult (WriteError Exc) :=
  (retrieveWriteResults rank.hasDataToWrite resultsQueue).2

end RankSave

/-- The result of every item of every bucket, once. -/
def Gathered (tasks : List (WriteTask Data Stream WriteResult Exc))
    (retrieved : Retrieved WriteResult (WriteError Exc)) : Prop :=
  ∃ writeResults, retrieved = .results writeResults ∧ ∃ results : List (List WriteResult),
    List.Forall₂ (fun task results => task.storage.Wrote task.bucket results) tasks results ∧
      writeResults.Perm results.flatten

/-! ## Results of the buckets -/

variable {tasks : List (WriteTask Data Stream WriteResult Exc)}

/-- A dictionary with all results leaves no task that raises. -/
theorem AllResults.not_raises {entries : List (Nat × List WriteResult)}
    (h : AllResults tasks entries) : ∀ task ∈ tasks, ¬ task.Raises := by
  rintro task hmem ⟨exc, hexc⟩
  obtain ⟨i, hi, rfl⟩ := mem_iff_getElem.mp hmem
  have hout := mem_localOutputs.mpr ⟨_, getElem?_eq_getElem hi, hexc⟩
  obtain ⟨e, _, heq⟩ := mem_map.mp (h.mem_iff.mpr hout)
  cases (Prod.mk.inj heq).2

/-- Buckets that are written have results. -/
theorem exists_wrote (h : ∀ task ∈ tasks, ¬ task.Raises) :
    List.Forall₂ (fun task results => task.storage.Wrote task.bucket results) tasks
      (tasks.filterMap fun task => task.output.toOption) := by
  induction tasks with
  | nil => exact .nil
  | cons task tasks ih =>
    have hrest := ih fun task hmem => h task (mem_cons_of_mem _ hmem)
    cases hout : task.output with
    | error exc => exact absurd ⟨exc, hout⟩ (h task mem_cons_self)
    | ok results =>
      rw [filterMap_cons, hout]
      exact .cons (Storage.wrote_of_ok hout) hrest

/-- The values of the dictionary are the results of the buckets. -/
theorem AllResults.values_perm {entries : List (Nat × List WriteResult)}
    (h : AllResults tasks entries) :
    (entries.map Prod.snd).Perm (tasks.filterMap fun task => task.output.toOption) := by
  have hperm := h.filterMap fun e => e.2.toOption
  have hleft : (oks entries : List (Nat × Except Exc _)).filterMap (fun e => e.2.toOption) =
      entries.map Prod.snd := by
    rw [oks, filterMap_map]
    exact congrFun filterMap_eq_map entries
  have hright : (localOutputs tasks).filterMap (fun e => e.2.toOption) =
      tasks.filterMap fun task => task.output.toOption := by
    have hmap : (localOutputs tasks).map Prod.snd = tasks.map WriteTask.output := by
      refine ext_getElem (by simp [localOutputs]) fun i hi _ => ?_
      simp [localOutputs]
    have hboth := congrArg (filterMap Except.toOption) hmap
    rwa [filterMap_map, filterMap_map] at hboth
  rwa [hleft, hright] at hperm

namespace RankSave

variable {str : Exc → String} {rank : RankSave Data Stream WriteResult Exc}
  {resultsQueue : List (WriteResultsOrExc WriteResult (WriteError Exc))}

/-- A rank has all results when none of its buckets raises, and else a wrapped exception. -/
theorem Written.retrieved_cases (h : Written str rank resultsQueue) :
    (Gathered rank.tasks (rank.retrieved resultsQueue) ∧ ∀ task ∈ rank.tasks, ¬ task.Raises) ∨
      ((rank.retrieved resultsQueue).isWrappedException = true ∧
        ∃ task ∈ rank.tasks, task.Raises) := by
  unfold retrieved retrieveWriteResults
  cases hdata : rank.hasDataToWrite with
  | false =>
    have hnil : rank.tasks = [] := by
      refine Classical.byContradiction fun hne => ?_
      rw [rank.data.mpr hne] at hdata
      cases hdata
    rw [hnil]
    exact .inl ⟨⟨[], rfl, [], .nil, .refl _⟩, nofun⟩
  | true =>
    obtain ⟨s, hs, hdone, rfl⟩ := h hdata
    obtain ⟨_, _, result, hqueue, houtcome⟩ :=
      (WriteState.phase_of_reachable hs).of_done hdone
    rw [hqueue]
    cases result with
    | error exc => exact .inr ⟨rfl, houtcome⟩
    | ok entries =>
      have hresults : AllResults rank.tasks entries := houtcome
      refine .inl ⟨?_, hresults.not_raises⟩
      cases entries with
      | nil =>
        have hlength := List.Perm.length_eq hresults
        rw [oks, length_map, localOutputs, length_mapIdx] at hlength
        exact absurd (eq_nil_of_length_eq_zero hlength.symm) (rank.data.mp hdata)
      | cons entry entries =>
        refine ⟨_, rfl, _, exists_wrote hresults.not_raises, ?_⟩
        rw [flatMap_def]
        exact hresults.values_perm.flatten

theorem Written.isWrappedException_iff (h : Written str rank resultsQueue) :
    (rank.retrieved resultsQueue).isWrappedException = true ↔
      ∃ task ∈ rank.tasks, task.Raises := by
  rcases h.retrieved_cases with ⟨⟨_, hresults, _⟩, hnot⟩ | ⟨hwrapped, hraises⟩
  · rw [hresults]
    refine ⟨nofun, ?_⟩
    rintro ⟨task, hmem, hraises⟩
    exact absurd hraises (hnot task hmem)
  · exact ⟨fun _ => hraises, fun _ => hwrapped⟩

end RankSave

/-! ## The save of all ranks -/

/-- A rank that is not the coordinator calls no `finish`; the coordinator calls it when no bucket
of any rank raises, with all results; and all ranks raise when a bucket does. -/
structure FinalizedFor (ranks : Fin n → RankSave Data Stream WriteResult Exc)
    (coordinator : Fin n)
    (outcomes : Fin n → FinalizeOutcome n WriteResult (WriteError Exc) GlobalMetadata) : Prop where
  coordinator_only : ∀ r, r ≠ coordinator → (outcomes r).finish = none
  finish_iff : (outcomes coordinator).finish.isSome = true ↔
    ∀ r, ∀ task ∈ (ranks r).tasks, ¬ task.Raises
  gathered : ∀ call, (outcomes coordinator).finish = some call →
    ∀ r, Gathered (ranks r).tasks (call.2 r)
  exception_iff : ∀ r, (outcomes r).checkpointException.isSome = true ↔
    ∃ q, ∃ task ∈ (ranks q).tasks, task.Raises

theorem finalizedFor_finalizeOutcome {str : Exc → String}
    {ranks : Fin n → RankSave Data Stream WriteResult Exc}
    {resultsQueues : Fin n → List (WriteResultsOrExc WriteResult (WriteError Exc))}
    (hwritten : ∀ r, (ranks r).Written str (resultsQueues r)) (coordinator : Fin n)
    (globalMetadata : GlobalMetadata) :
    FinalizedFor ranks coordinator (finalizeOutcome coordinator globalMetadata
      fun r => (ranks r).retrieved (resultsQueues r)) := by
  have hnil : getFailureDict (fun r => (ranks r).retrieved (resultsQueues r)) = [] ↔
      ∀ r, ∀ task ∈ (ranks r).tasks, ¬ task.Raises := by
    rw [getFailureDict_eq_nil_iff]
    refine forall_congr' fun r => ?_
    rw [Bool.eq_false_iff, ne_eq, (hwritten r).isWrappedException_iff]
    exact ⟨fun h task hmem hraises => h ⟨task, hmem, hraises⟩,
      fun h ⟨task, hmem, hraises⟩ => h task hmem hraises⟩
  refine ⟨fun r hr => if_neg fun h => hr h.1, ?_, ?_, fun r => ?_⟩
  · rw [← hnil]
    unfold finalizeOutcome
    simp only [true_and]
    split
    · next h => exact ⟨fun _ => h, fun _ => rfl⟩
    · next h => exact ⟨nofun, fun h' => absurd h' h⟩
  · intro call hcall r
    unfold finalizeOutcome at hcall
    simp only [true_and] at hcall
    split at hcall
    · next h =>
      cases hcall
      rcases (hwritten r).retrieved_cases with ⟨hgathered, _⟩ | ⟨_, task, hmem, hraises⟩
      · exact hgathered
      · exact absurd hraises (hnil.mp h r task hmem)
    · cases hcall
  · have hsome : (∃ q, ∃ task ∈ (ranks q).tasks, task.Raises) ↔
        ¬ ∀ q, ∀ task ∈ (ranks q).tasks, ¬ task.Raises := by
      simp only [not_forall, not_not, exists_prop]
    rw [hsome, ← hnil]
    unfold finalizeOutcome
    dsimp only
    split
    · next h => exact ⟨nofun, fun h' => absurd h h'⟩
    · next h => exact ⟨fun _ => h, fun _ => rfl⟩

/-- Every save of a rank ends, with one result on the global queue, in whatever order its threads
take their steps; and the ranks finalize their saves with metadata only when no bucket raised. -/
theorem finalize_of_saves (str : Exc → String) (coordinator : Fin n)
    (globalMetadata : GlobalMetadata) (ranks : Fin n → RankSave Data Stream WriteResult Exc)
    (resultsQueues : Fin n → List (WriteResultsOrExc WriteResult (WriteError Exc)))
    (hwritten : ∀ r, (ranks r).Written str (resultsQueues r)) :
    (∀ r s, (WriteState.system str (ranks r).tasks).Reachable (fun _ _ => True) s →
      (WriteState.system str (ranks r).tasks).Inevitable (fun _ _ => True)
          (fun t => t.main = .done) s ∧
        s.globalResultsQueue.length = if s.main = .done then 1 else 0) ∧
      (∃ outcomes, Lockstep (finalizeGroup coordinator)
        (fun r => saveStateDictAsyncFinalize coordinator r
          (if r = coordinator then some globalMetadata else none)
          ((ranks r).retrieved (resultsQueues r)))
        [.gatherObject, .broadcast] outcomes) ∧
      ∀ trace outcomes, Lockstep (finalizeGroup coordinator)
          (fun r => saveStateDictAsyncFinalize coordinator r
            (if r = coordinator then some globalMetadata else none)
            ((ranks r).retrieved (resultsQueues r))) trace outcomes →
        FinalizedFor ranks coordinator outcomes := by
  have hlockstep := lockstep_saveStateDictAsyncFinalize coordinator globalMetadata
    fun r => (ranks r).retrieved (resultsQueues r)
  refine ⟨fun r s hs => ?_, ⟨_, hlockstep⟩, fun trace outcomes h => ?_⟩
  · have hphase := WriteState.phase_of_reachable hs
    refine ⟨hphase.inevitable.mono fun t ht => ht.1, ?_⟩
    split
    · next hdone =>
      obtain ⟨_, _, result, hqueue, _⟩ := hphase.of_done hdone
      rw [hqueue]
      rfl
    · next hnot =>
      rw [hphase.globalResultsQueue hnot]
      rfl
  · rw [hlockstep.results_unique h]
    exact finalizedFor_finalizeOutcome hwritten coordinator globalMetadata

/-! ## Two ranks -/

/-- A storage on which the write of the number zero raises. -/
def numberStorage : Storage Nat Unit Nat Nat where
  openFile _ := .ok ()
  writeItem data _ _ := if data = 0 then throw 28 else pure data
  isCpu _ := true
  assertionError := 0
  fsync := pure ()
  close _ := .ok ()

def numberTask (data : Nat) : WriteTask Nat Unit Nat Nat where
  storage := numberStorage
  bucket := ⟨[], [], [], [((byteTensor "weight" 1, data), data)]⟩

/-- The save of a rank with a bucket for each number. -/
def numberSave (data : List Nat) : RankSave Nat Unit Nat Nat where
  hasDataToWrite := !data.isEmpty
  tasks := data.map numberTask
  data := by cases data <;> simp

/-- The steps of a save with two buckets, the first of them in a thread. -/
def twoBuckets : List WriterAction :=
  [.main, .thread 0, .main, .thread 0, .thread 0, .thread 0] ++ replicate 6 .main

theorem written_numberSave {data : List Nat} (actions : List WriterAction)
    {resultsQueue : List (WriteResultsOrExc Nat (WriteError Nat))}
    (h : (((WriteState.system toString (numberSave data).tasks).execute (fun _ _ => True)
      (.initial toString (numberSave data).tasks) actions).any fun s =>
        decide (s.main = .done ∧ s.globalResultsQueue = resultsQueue)) = true) :
    (numberSave data).Written toString resultsQueue := by
  obtain ⟨s, hs, htest⟩ := System.exists_reachable_of_execute rfl h
  obtain ⟨hdone, hqueue⟩ := of_decide_eq_true htest
  exact fun _ => ⟨s, hs, hdone, hqueue⟩

/-- The saves of two ranks, the second with a bucket that raises. -/
def twoSaves (r : Fin 2) : RankSave Nat Unit Nat Nat :=
  if r.val = 0 then numberSave [10, 20] else numberSave [0]

/-- The first rank has written both buckets, and it raises with the second one. -/
theorem finalize_of_saves_two_ranks :
    ∃ outcomes : Fin 2 → FinalizeOutcome 2 Nat (WriteError Nat) Unit,
      Lockstep (finalizeGroup 0)
        (fun r => saveStateDictAsyncFinalize 0 r (if r = 0 then some () else none)
          (if r = 0 then .results [20, 10]
            else .workerFailure (.runtimeError
              "An error is caught while starting worker 0, error: 28")))
        [.gatherObject, .broadcast] outcomes ∧
      FinalizedFor twoSaves 0 outcomes ∧
      ∀ r, (outcomes r).checkpointException.isSome = true := by
  let resultsQueues : Fin 2 → List (WriteResultsOrExc Nat (WriteError Nat)) := fun r =>
    if r = 0 then [.ok [(1, [20]), (0, [10])]]
    else [.error (.runtimeError "An error is caught while starting worker 0, error: 28")]
  have hfirst : (twoSaves 0).Written toString (resultsQueues 0) :=
    written_numberSave twoBuckets (by decide +kernel)
  have hsecond : (twoSaves 1).Written toString (resultsQueues 1) :=
    written_numberSave [.main] (by decide +kernel)
  have hwritten : ∀ r, (twoSaves r).Written toString (resultsQueues r) :=
    Fin.forall_fin_two.mpr ⟨hfirst, hsecond⟩
  obtain ⟨_, ⟨outcomes, hlockstep⟩, hfinal⟩ :=
    finalize_of_saves toString 0 () twoSaves resultsQueues hwritten
  have hfinalized := hfinal _ _ hlockstep
  refine ⟨outcomes, ?_, hfinalized, fun r => (hfinalized.exception_iff r).mpr ?_⟩
  · have hretrieved : ∀ r, (twoSaves r).retrieved (resultsQueues r) =
        if r = 0 then .results [20, 10] else .workerFailure (.runtimeError
          "An error is caught while starting worker 0, error: 28") := by decide
    simpa only [hretrieved] using hlockstep
  · exact ⟨1, numberTask 0, mem_singleton.mpr rfl, 28, rfl⟩

end ResiliencyExt.Checkpointing.AsyncCkpt
