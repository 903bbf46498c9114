import Mathlib.Data.List.Nodup
import ResiliencyExt.Checkpointing.AsyncCkpt.QueueInvariant
import ResiliencyExt.Foundation.System

set_option autoImplicit false

/-!
# Write results

All saves of a process put their results on one queue, without a tag, and a save that is
finalized takes the first result there is.  A save therefore gets its own result as long
as the results are put in the order of the active calls, and no result is left behind by
a call that is given up.
-/

namespace ResiliencyExt.Checkpointing.AsyncCkpt

open Foundation List
open QueueState (close conclude mainStep step)

/-! ## Results -/

/-- What a worker puts for a save: the write results of each of its buckets, or an
exception. -/
abbrev WriteResultsOrExc (WriteResult Exc : Type) : Type :=
  Except Exc (List (Nat × List WriteResult))

/-- What `retrieve_write_results` returns. -/
inductive Retrieved (WriteResult Exc : Type) where
  | results (writeResults : List WriteResult)
  /-- A wrapped `RuntimeError(f'Worker failure: {exc}')` -/
  | workerFailure (exc : Exc)
  /-- Any other wrapped `RuntimeError` -/
  | runtimeError (message : String)
  deriving DecidableEq, Repr

variable {WriteResult Exc : Type}

/-- `retrieve_write_results` with the result at hand. -/
def Retrieved.ofResult : WriteResultsOrExc WriteResult Exc → Retrieved WriteResult Exc
  | .error exc => .workerFailure exc
  | .ok [] => .runtimeError ("Worker returned empty results despite having data to write." ++
      " This probably indicates a worker failure.")
  | .ok writeResults => .results (writeResults.flatMap Prod.snd)

/-- `retrieve_write_results` of a writer, and the results that are left; a writer without
data has no results queue. -/
def retrieveWriteResults (hasDataToWrite : Bool)
    (resultsQueue : List (WriteResultsOrExc WriteResult Exc)) :
    List (WriteResultsOrExc WriteResult Exc) × Retrieved WriteResult Exc :=
  if hasDataToWrite then
    match resultsQueue with
    | [] => ([], .runtimeError "results_queue should not be empty")
    | first :: rest => (rest, .ofResult first)
  else (resultsQueue, .results [])

/-! ## The saves of a process -/

/-- A save that was finalized, and what its writer got. -/
structure Retrieval (WriteResult Exc : Type) where
  serial : Nat
  hasDataToWrite : Bool
  retrieved : Retrieved WriteResult Exc
  deriving DecidableEq, Repr

structure ResultsState (WriteResult Exc : Type) where
  rank : RankState
  /-- `_results_queue` -/
  resultsQueue : List (WriteResultsOrExc WriteResult Exc)
  /-- What the worker has put for each save. -/
  outcome : Nat → Option (WriteResultsOrExc WriteResult Exc)
  /-- The saves of queues that are given up whose processes run on. -/
  orphans : List Nat
  retrievals : List (Retrieval WriteResult Exc)

inductive ResultsEvent (WriteResult Exc : Type) where
  /-- An event of the queue of async calls. -/
  | queue (event : QueueEvent)
  /-- The `async_fn` of a save puts what it ends with. -/
  | put (serial : Nat) (result : WriteResultsOrExc WriteResult Exc)
  /-- The process goes on with another queue of async calls. -/
  | newQueue (persistent cpuShmMode : Bool)

namespace AsyncCallsQueue

/-- The active saves, with `has_data_to_write`. -/
def saves (queue : AsyncCallsQueue) : List (Nat × Bool) :=
  queue.asyncCalls.map fun call => (call.serial, call.asyncRequest.hasAsyncFn)

/-- The saves whose `async_fn` is running. -/
def running (queue : AsyncCallsQueue) : List Nat :=
  ((queue.persistentCaller.bind PersistentAsyncCaller.process).getD []).head?.toList.map
      WorkItem.serial ++
    (queue.asyncCalls.filter fun call => call.asyncCaller = .temporal (some .running)).map
      ActiveAsyncRequest.serial

/-- The saves that a process of this queue may still come to. -/
def unwritten (queue : AsyncCallsQueue) : List Nat :=
  ((queue.persistentCaller.bind PersistentAsyncCaller.process).getD []).map WorkItem.serial ++
    (queue.asyncCalls.filter fun call => call.asyncCaller = .temporal (some .running)).map
      ActiveAsyncRequest.serial

/-- The save whose `async_fn` returns in an event. -/
def returning (queue : AsyncCallsQueue) : QueueEvent → Option Nat
  | .finish => ((queue.persistentCaller.bind PersistentAsyncCaller.finish).map Prod.snd).map
      WorkItem.serial
  | .finishWriter i => (queue.exitWriter i).map Prod.snd
  | _ => none

end AsyncCallsQueue

namespace ResultsState

/-- The results after an event of the queue. -/
def record (s : ResultsState WriteResult Exc) (saves : List (Nat × Bool)) (rank : RankState) :
    Output → ResultsState WriteResult Exc
  | .finalized serial =>
    let hasDataToWrite := decide ((serial, true) ∈ saves)
    let answer := retrieveWriteResults hasDataToWrite s.resultsQueue
    { s with
      rank := rank
      resultsQueue := answer.1
      retrievals := s.retrievals ++ [⟨serial, hasDataToWrite, answer.2⟩] }
  | _ => { s with rank := rank }

/-- One step.  An `async_fn` puts its result before it returns. -/
def step (s : ResultsState WriteResult Exc) :
    ResultsEvent WriteResult Exc → Option (ResultsState WriteResult Exc)
  | .queue event =>
    if (s.rank.state.queue.returning event).all fun serial => (s.outcome serial).isSome then
      (s.rank.state.step s.rank.history.scheduled event).map fun (state, output) =>
        s.record s.rank.state.queue.saves ⟨state, s.rank.history.record output⟩ output
    else none
  | .put serial result =>
    if s.outcome serial = none ∧ (serial ∈ s.rank.state.queue.running ∨ serial ∈ s.orphans) then
      some { s with
        resultsQueue := s.resultsQueue ++ [result]
        outcome := fun k => if k = serial then some result else s.outcome k }
    else none
  | .newQueue persistent cpuShmMode =>
    if s.rank.state.control = .idle then
      some { s with
        rank := ⟨⟨.fresh persistent cpuShmMode, .idle⟩, s.rank.history⟩
        orphans := s.orphans ++ s.rank.state.queue.unwritten }
    else none

/-- A process whose first queue of async calls is new. -/
def initial (persistent cpuShmMode : Bool) : ResultsState WriteResult Exc :=
  ⟨.fresh persistent cpuShmMode, [], fun _ => none, [], []⟩

def system (WriteResult Exc : Type) :
    System (ResultsState WriteResult Exc) (ResultsEvent WriteResult Exc) where
  init s := ∃ persistent cpuShmMode, s = initial persistent cpuShmMode
  step := step

end ResultsState

variable {queue : AsyncCallsQueue} {state : QueueState} {output : Output} (serial : Nat)

theorem ResultsState.initial_init (persistent cpuShmMode : Bool) :
    (system WriteResult Exc).init (initial persistent cpuShmMode) :=
  ⟨persistent, cpuShmMode, rfl⟩

/-! ## What an event does to the active saves -/

theorem scheduleAsyncRequest_saves (queue : AsyncCallsQueue) (request : AsyncRequest)
    (serial : Nat) :
    (queue.scheduleAsyncRequest request serial).1.saves =
      queue.saves ++ [(serial, request.hasAsyncFn)] := by
  unfold AsyncCallsQueue.scheduleAsyncRequest AsyncCallsQueue.saves
  split
  · simp [Sound.getAsyncCaller_asyncCalls]
  · simp

theorem isAlive_saves {next : AsyncCallsQueue} {caller : AsyncCaller} {blocking alive : Bool}
    (h : queue.isAlive caller blocking = some (next, alive)) : next.saves = queue.saves := by
  unfold AsyncCallsQueue.isAlive at h
  split at h
  · cases h
    rfl
  · obtain ⟨⟨polled, found⟩, -, hresult⟩ := Option.map_eq_some_iff.mp h
    cases hresult
    rfl
  · cases h
    rfl

theorem exitWriter_saves {next : AsyncCallsQueue} {i serial : Nat}
    (h : queue.exitWriter i = some (next, serial)) : next.saves = queue.saves := by
  obtain ⟨before, idx, request, after, hcalls, rfl⟩ := Sound.exitWriter_cases h
  unfold AsyncCallsQueue.saves
  simp [hcalls]

theorem reset_saves (queue : AsyncCallsQueue) : queue.reset.saves = queue.saves := by
  unfold AsyncCallsQueue.reset AsyncCallsQueue.saves
  simp [Function.comp_def]

/-- The saves after a step that ends in `output`. -/
def Output.Leaves (serial : Nat) (before after : List (Nat × Bool)) : Output → Prop
  | .scheduled _ hasAsyncFn => after = before ++ [(serial, hasAsyncFn)]
  | .finalized done => ∃ hasAsyncFn, before = (done, hasAsyncFn) :: after
  | _ => after = before

theorem conclude_saves {caller : AsyncCaller} {call : FinalizeCall} {isDone : Bool}
    (h : conclude queue caller call isDone = (state, output)) :
    output.Leaves serial queue.saves state.queue.saves := by
  unfold conclude QueueState.ret at h
  split at h <;> split at h <;> cases h <;> rfl

theorem mainStep_saves {input : SyncInput} {control : Control}
    (h : mainStep queue input control = some (state, output)) :
    output.Leaves serial queue.saves state.queue.saves := by
  unfold mainStep at h
  split at h
  · cases h
  · split at h
    · cases h
      rfl
    · obtain ⟨⟨next, alive⟩, hcheck, hresult⟩ := Option.map_eq_some_iff.mp h
      rw [← isAlive_saves hcheck]
      simp only at hresult
      split at hresult
      · exact conclude_saves serial hresult
      · cases hresult
        rfl
  · obtain ⟨head, -, hresult⟩ := Option.map_eq_some_iff.mp h
    exact conclude_saves serial hresult
  · split at h
    · rename_i hcalls
      split at h
      · cases h
      · cases h
        simp [Output.Leaves, AsyncCallsQueue.saves, hcalls]
    · cases h
  · unfold QueueState.finalizeHead at h
    split at h
    · cases h
    · rename_i head rest hcalls
      cases h
      exact ⟨head.asyncRequest.hasAsyncFn, by simp [AsyncCallsQueue.saves, hcalls]⟩
  · split at h
    · cases h
      rfl
    · cases h
      rfl
  · split at h
    · cases h
    · cases h
      exact reset_saves queue

theorem close_saves (queue : AsyncCallsQueue) (abort : Bool) :
    (close queue abort).2.Leaves serial queue.saves
      (close queue abort).1.queue.saves := by
  unfold close
  split
  · exact reset_saves _
  · split
    · rfl
    · exact reset_saves _

/-- A save is added when it is scheduled, and the first one goes when it is finalized. -/
theorem step_saves {serial : Nat} {next : QueueState} {event : QueueEvent}
    (h : state.step serial event = some (next, output)) :
    output.Leaves serial state.queue.saves next.queue.saves := by
  cases event with
  | schedule request =>
    simp only [step] at h
    split at h
    · cases h
      exact scheduleAsyncRequest_saves _ _ _
    · cases h
  | main input => exact mainStep_saves serial h
  | close abort =>
    simp only [step] at h
    split at h
    · have hsaves := close_saves serial state.queue abort
      rwa [Option.some.inj h] at hsaves
    · cases h
  | finish =>
    obtain ⟨⟨caller, item⟩, -, hresult⟩ := Option.map_eq_some_iff.mp h
    cases hresult
    rfl
  | finishWriter i | dieWriter i =>
    obtain ⟨⟨queue, done⟩, hexit, hresult⟩ := Option.map_eq_some_iff.mp h
    cases hresult
    exact exitWriter_saves hexit
  | maybeFinalize blocking noDist =>
    simp only [step] at h
    split at h
    · cases h
      rfl
    · cases h
  | prepareWriteData =>
    simp only [step] at h
    split at h
    · split at h
      · cases h
        rfl
      · cases h
        rfl
    · cases h
  | warmup =>
    simp only [step] at h
    split at h
    · cases h
      rfl
    · cases h

/-! ## Results in the order of the saves -/

/-- A writer without data gets nothing; any other gets what was put for its save, or an
error. -/
def Retrieval.Own (outcome : Nat → Option (WriteResultsOrExc WriteResult Exc))
    (r : Retrieval WriteResult Exc) : Prop :=
  (r.hasDataToWrite = false ∧ r.retrieved = .results []) ∨
    (∃ result, outcome r.serial = some result ∧ r.retrieved = .ofResult result) ∨
    ∃ message, r.retrieved = .runtimeError message

namespace ResultsState

variable {s t : ResultsState WriteResult Exc}

def saves (s : ResultsState WriteResult Exc) : List (Nat × Bool) :=
  s.rank.state.queue.saves

/-- A result is put for an active save once all active saves with data before it have theirs,
and a queue of async calls is given up when no result is left. -/
def InTurn (s : ResultsState WriteResult Exc) : ResultsEvent WriteResult Exc → Prop
  | .queue _ => True
  | .put serial _ => (serial, true) ∈ s.saves ∧
      ∀ earlier ∈ s.saves.takeWhile fun save => save.1 ≠ serial,
        earlier.2 = true → (s.outcome earlier.1).isSome
  | .newQueue _ _ => s.resultsQueue = []

instance (s : ResultsState WriteResult Exc) (event : ResultsEvent WriteResult Exc) :
    Decidable (s.InTurn event) :=
  match event with
  | .queue _ => .isTrue trivial
  | .put _ _ => inferInstanceAs (Decidable (_ ∧ ∀ earlier ∈ takeWhile _ _, _ → _))
  | .newQueue _ _ => decidable_of_iff _ List.isEmpty_iff

/-- The results queue has the results of the active saves, in their order. -/
structure Matched (s : ResultsState WriteResult Exc) : Prop where
  results : s.resultsQueue = s.saves.filterMap fun save => s.outcome save.1
  order : s.saves.Pairwise fun earlier later =>
    (s.outcome later.1).isSome → earlier.2 = true → (s.outcome earlier.1).isSome
  nodup : (s.saves.map Prod.fst).Nodup
  bounded : ∀ save ∈ s.saves, save.1 < s.rank.history.scheduled
  known : ∀ serial, (s.outcome serial).isSome → serial < s.rank.history.scheduled
  data : ∀ save ∈ s.saves, save.2 = false → s.outcome save.1 = none
  retrievals : ∀ r ∈ s.retrievals, r.Own s.outcome

namespace Matched

variable {serial : Nat} {rank : RankState}

variable {outcome : Nat → Option (WriteResultsOrExc WriteResult Exc)} {hasAsyncFn : Bool}

/-- After a save without a result there is none. -/
theorem filterMap_eq_nil {after : List (Nat × Bool)} (hnone : outcome serial = none)
    (horder : ∀ later ∈ after, (outcome later.1).isSome → (outcome serial).isSome) :
    after.filterMap (fun save => outcome save.1) = [] := by
  refine filterMap_eq_nil_iff.mpr fun later hlater => ?_
  refine Option.not_isSome_iff_eq_none.mp fun hsome => ?_
  have hserial := horder later hlater hsome
  rw [hnone] at hserial
  cases hserial

theorem schedule (h : s.Matched)
    (hsaves : rank.state.queue.saves = s.saves ++ [(s.rank.history.scheduled, hasAsyncFn)])
    (hscheduled : rank.history.scheduled = s.rank.history.scheduled + 1) :
    Matched { s with rank := rank } := by
  have hfresh : s.outcome s.rank.history.scheduled = none :=
    Option.not_isSome_iff_eq_none.mp fun hsome => Nat.lt_irrefl _ (h.known _ hsome)
  have hsaves' : saves { s with rank := rank } =
      s.saves ++ [(s.rank.history.scheduled, hasAsyncFn)] := hsaves
  refine ⟨?_, ?_, ?_, ?_, ?_, ?_, h.retrievals⟩
  · rw [hsaves']
    simpa [filterMap_cons, hfresh] using h.results
  · rw [hsaves']
    refine pairwise_append.mpr ⟨h.order, pairwise_singleton _ _, ?_⟩
    intro earlier _ later hlater hsome
    cases mem_singleton.mp hlater
    rw [hfresh] at hsome
    cases hsome
  · rw [hsaves', map_append]
    refine nodup_append.mpr ⟨h.nodup, nodup_singleton _, ?_⟩
    intro serial hserial last hlast
    obtain ⟨save, hsave, rfl⟩ := mem_map.mp hserial
    have hbound := h.bounded save hsave
    rw [map_singleton, mem_singleton] at hlast
    omega
  · intro save hsave
    rw [hsaves'] at hsave
    change save.1 < rank.history.scheduled
    rcases mem_append.mp hsave with hold | hnew
    · have hbound := h.bounded save hold
      omega
    · cases mem_singleton.mp hnew
      omega
  · intro serial hsome
    have hbound := h.known serial hsome
    change serial < rank.history.scheduled
    omega
  · intro save hsave hdata
    rw [hsaves'] at hsave
    rcases mem_append.mp hsave with hold | hnew
    · exact h.data save hold hdata
    · cases mem_singleton.mp hnew
      exact hfresh

/-- What concerns neither the saves nor their number. -/
theorem same (h : s.Matched) (hsaves : rank.state.queue.saves = s.saves)
    (hscheduled : rank.history.scheduled = s.rank.history.scheduled) :
    Matched { s with rank := rank } := by
  have hsaves' : saves { s with rank := rank } = s.saves := hsaves
  refine ⟨hsaves' ▸ h.results, hsaves' ▸ h.order, hsaves' ▸ h.nodup, fun save hsave => ?_,
    fun serial hsome => ?_, hsaves' ▸ h.data, h.retrievals⟩
  · exact hscheduled ▸ h.bounded save (hsaves' ▸ hsave)
  · exact hscheduled ▸ h.known serial hsome

/-- The first save takes the first result, or there is none. -/
theorem retrieve_first {hasData : Bool} {rest : List (Nat × Bool)}
    {resultsQueue : List (WriteResultsOrExc WriteResult Exc)}
    (hresults : resultsQueue = ((serial, hasData) :: rest).filterMap fun save => outcome save.1)
    (hdata : hasData = false → outcome serial = none)
    (horder : ∀ later ∈ rest, (outcome later.1).isSome → hasData = true → (outcome serial).isSome) :
    (retrieveWriteResults hasData resultsQueue).1 =
        rest.filterMap (fun save => outcome save.1) ∧
      Retrieval.Own outcome
        ⟨serial, hasData, (retrieveWriteResults hasData resultsQueue).2⟩ := by
  rw [filterMap_cons] at hresults
  unfold retrieveWriteResults
  cases hhas : hasData with
  | false =>
    rw [hdata hhas] at hresults
    exact ⟨hresults, .inl ⟨rfl, rfl⟩⟩
  | true =>
    cases houtcome : outcome serial with
    | none =>
      have hnil := filterMap_eq_nil houtcome fun later hlater hsome =>
        horder later hlater hsome hhas
      rw [houtcome, hnil] at hresults
      subst hresults
      exact ⟨hnil.symm, .inr (.inr ⟨_, rfl⟩)⟩
    | some result =>
      rw [houtcome] at hresults
      subst hresults
      exact ⟨rfl, .inr (.inl ⟨result, houtcome, rfl⟩)⟩

theorem finalize (h : s.Matched)
    (hsaves : s.saves = (serial, hasAsyncFn) :: rank.state.queue.saves)
    (hscheduled : rank.history.scheduled = s.rank.history.scheduled) :
    (s.record s.saves rank (.finalized serial)).Matched := by
  obtain ⟨hresults, horder, hnodup, hbounded, hknown, hdata, hretrievals⟩ := h
  rw [hsaves] at hresults horder hnodup hbounded hdata
  obtain ⟨hfirst, hrest⟩ := pairwise_cons.mp horder
  obtain ⟨hnotin, hnodup⟩ := nodup_cons.mp hnodup
  have hhas : decide ((serial, true) ∈ s.saves) = hasAsyncFn := by
    have hmem : (serial, true) ∉ rank.state.queue.saves :=
      fun hmem => hnotin (mem_map.mpr ⟨_, hmem, rfl⟩)
    cases hasAsyncFn <;> simp [hsaves, hmem]
  obtain ⟨hleft, hown⟩ := retrieve_first hresults
    (fun hfalse => hdata _ mem_cons_self hfalse) hfirst
  unfold record
  simp only [hhas]
  refine ⟨hleft, hrest, hnodup, fun save hsave => ?_, fun serial hsome => ?_,
    fun save hsave => hdata save (mem_cons_of_mem _ hsave), fun r hr => ?_⟩
  · exact hscheduled ▸ hbounded save (mem_cons_of_mem _ hsave)
  · exact hscheduled ▸ hknown serial hsome
  · rcases mem_append.mp hr with hold | hnew
    · exact hretrievals r hold
    · cases mem_singleton.mp hnew
      exact hown

/-- A result that is put in its turn is put behind those of the saves before it. -/
theorem put (h : s.Matched) {result : WriteResultsOrExc WriteResult Exc}
    (hturn : s.InTurn (.put serial result)) (hnone : s.outcome serial = none) :
    Matched { s with
      resultsQueue := s.resultsQueue ++ [result]
      outcome := fun k => if k = serial then some result else s.outcome k } := by
  obtain ⟨hmem, hearlier⟩ := hturn
  obtain ⟨before, after, hsaves⟩ := append_of_mem hmem
  have hnodup := h.nodup
  have horder := h.order
  rw [hsaves] at hnodup horder
  rw [map_append, map_cons] at hnodup
  obtain ⟨_, htail, hdisjoint⟩ := nodup_append.mp hnodup
  have hbefore : ∀ save ∈ before, save.1 ≠ serial := fun save hsave =>
    hdisjoint _ (mem_map_of_mem hsave) _ mem_cons_self
  have hafter : ∀ save ∈ after, save.1 ≠ serial := fun save hsave heq =>
    (nodup_cons.mp htail).1 (mem_map.mpr ⟨save, hsave, heq⟩)
  have htake : s.saves.takeWhile (fun save => save.1 ≠ serial) = before := by
    rw [hsaves, takeWhile_append_of_pos fun save hsave => by simpa using hbefore save hsave]
    simp
  rw [htake] at hearlier
  have hbeforeResults : (before.filterMap fun save =>
      if save.1 = serial then some result else s.outcome save.1) =
        before.filterMap fun save => s.outcome save.1 :=
    filterMap_congr fun save hsave => if_neg (hbefore save hsave)
  have hafterResults : (after.filterMap fun save =>
      if save.1 = serial then some result else s.outcome save.1) =
        after.filterMap fun save => s.outcome save.1 :=
    filterMap_congr fun save hsave => if_neg (hafter save hsave)
  have hnoneAfter : after.filterMap (fun save => s.outcome save.1) = [] := by
    obtain ⟨hfirst, _⟩ := pairwise_cons.mp (pairwise_append.mp horder).2.1
    exact filterMap_eq_nil hnone fun later hlater hsome => hfirst later hlater hsome rfl
  have hknown : serial < s.rank.history.scheduled := h.bounded _ hmem
  refine ⟨?_, ?_, h.nodup, h.bounded, fun k hsome => ?_, fun save hsave hfalse => ?_,
    fun r hr => ?_⟩
  · change _ = s.saves.filterMap _
    rw [h.results, hsaves]
    simp only [filterMap_append, filterMap_cons, if_true, hnone, hbeforeResults,
      hafterResults, hnoneAfter, append_nil]
  · change s.saves.Pairwise _
    rw [hsaves]
    obtain ⟨hpairs, hrest, hcross⟩ := pairwise_append.mp horder
    obtain ⟨hfirst, hpairsAfter⟩ := pairwise_cons.mp hrest
    refine pairwise_append.mpr ⟨?_, pairwise_cons.mpr ⟨?_, ?_⟩, ?_⟩
    · refine hpairs.imp_of_mem fun he hl himp => ?_
      simpa only [if_neg (hbefore _ he), if_neg (hbefore _ hl)] using himp
    · intro later hlater hsome _
      simp
    · refine hpairsAfter.imp_of_mem fun he hl himp => ?_
      simpa only [if_neg (hafter _ he), if_neg (hafter _ hl)] using himp
    · intro earlier he later hl hsome hdata
      simpa only [if_neg (hbefore _ he)] using hearlier earlier he hdata
  · by_cases hk : k = serial
    · exact hk ▸ hknown
    · exact h.known k (by simpa [hk] using hsome)
  · have hne : save.1 ≠ serial := by
      replace hsave : save ∈ before ++ (serial, true) :: after := hsaves ▸ hsave
      rcases mem_append.mp hsave with hin | hin
      · exact hbefore save hin
      · rcases mem_cons.mp hin with rfl | hin
        · cases hfalse
        · exact hafter save hin
    simpa [hne] using h.data save hsave hfalse
  · rcases h.retrievals r hr with hno | ⟨found, hfound, hretrieved⟩ | herror
    · exact .inl hno
    · have hne : r.serial ≠ serial := by
        rintro heq
        rw [heq, hnone] at hfound
        cases hfound
      exact .inr (.inl ⟨found, by simpa [hne] using hfound, hretrieved⟩)
    · exact .inr (.inr herror)

theorem newQueue (h : s.Matched) (hempty : s.resultsQueue = []) {orphans : List Nat}
    (persistent cpuShmMode : Bool) :
    Matched { s with
      rank := ⟨⟨.fresh persistent cpuShmMode, .idle⟩, s.rank.history⟩
      orphans := orphans } where
  results := hempty
  order := .nil
  nodup := .nil
  bounded := nofun
  known := h.known
  data := nofun
  retrievals := h.retrievals

theorem step (h : s.Matched) {event : ResultsEvent WriteResult Exc} (hturn : s.InTurn event)
    (hstep : s.step event = some t) : t.Matched := by
  cases event with
  | put serial result =>
    simp only [ResultsState.step] at hstep
    split at hstep
    · rename_i hcan
      cases hstep
      exact h.put hturn hcan.1
    · cases hstep
  | newQueue persistent cpuShmMode =>
    simp only [ResultsState.step] at hstep
    split at hstep
    · cases hstep
      exact h.newQueue hturn persistent cpuShmMode
    · cases hstep
  | queue event =>
    simp only [ResultsState.step] at hstep
    split at hstep
    · obtain ⟨⟨state, output⟩, hqueue, hrecord⟩ := Option.map_eq_some_iff.mp hstep
      cases hrecord
      have hsaves := step_saves hqueue
      cases output with
      | scheduled idx hasAsyncFn => exact h.schedule hsaves rfl
      | finalized done =>
        obtain ⟨hasAsyncFn, hcons⟩ := hsaves
        exact h.finalize hcons rfl
      | silent => exact h.same hsaves rfl
      | completed done => exact h.same hsaves rfl
      | returned callIdxFinalized => exact h.same hsaves rfl
      | closed => exact h.same hsaves rfl
    · cases hstep

end Matched

/-- While results are put in turn, a save that is finalized gets its own or an error. -/
theorem own_write_results (hs : (system WriteResult Exc).Reachable InTurn s) :
    ∀ r ∈ s.retrievals, r.Own s.outcome := by
  have hmatched : s.Matched := by
    refine System.Reachable.invariant (P := Matched) ?_ (fun s event t h => h.step) hs
    rintro s ⟨persistent, cpuShmMode, rfl⟩
    exact ⟨rfl, .nil, .nil, nofun, nofun, nofun, nofun⟩
  exact hmatched.retrievals

end ResultsState

/-- A save with data. -/
def withData : AsyncRequest := ⟨true, 0, false⟩

/-- The events that finalize one save of a worker that is done with it. -/
def finalizeOne : List (ResultsEvent Nat Nat) :=
  [.queue (.maybeFinalize true true), .queue (.main ⟨0, 0⟩), .queue (.main ⟨0, 0⟩)]

/-- A save that failed and the next one, each with its own. -/
theorem own_write_results_of_two_saves :
    ∃ s, (ResultsState.system Nat Nat).Reachable ResultsState.InTurn s ∧
      s.retrievals = [⟨0, true, .workerFailure 7⟩, ⟨1, true, .results [20]⟩] ∧
      ∀ r ∈ s.retrievals, r.Own s.outcome := by
  have hrun : ((ResultsState.system Nat Nat).execute ResultsState.InTurn
      (.initial true false)
      ([.queue (.schedule withData), .put 0 (.error 7), .queue .finish,
        .queue (.schedule withData), .put 1 (.ok [(0, [20])]), .queue .finish] ++
        finalizeOne ++ [.queue (.main ⟨0, 0⟩), .queue (.main ⟨0, 0⟩)])).any
        (fun s => decide (s.retrievals =
          [⟨0, true, .workerFailure 7⟩, ⟨1, true, .results [20]⟩])) = true := by
    decide +kernel
  obtain ⟨s, hs, htest⟩ := System.exists_reachable_of_execute
    (ResultsState.initial_init true false) hrun
  exact ⟨s, hs, of_decide_eq_true htest, ResultsState.own_write_results hs⟩

/-- The save after an abort gets the result of the aborted one. -/
theorem result_of_aborted_save :
    ∃ s, (ResultsState.system Nat Nat).Reachable (fun _ _ => True) s ∧
      ∃ r ∈ s.retrievals, ¬ r.Own s.outcome := by
  have hrun : ((ResultsState.system Nat Nat).execute
      (fun _ _ => True) (.initial true false)
      ([.queue (.schedule withData), .put 0 (.ok [(0, [10])]), .queue (.close true),
        .newQueue true false, .queue (.schedule withData), .put 1 (.ok [(0, [20])]),
        .queue .finish] ++ finalizeOne)).any
        (fun s => decide (s.retrievals = [⟨1, true, .results [10]⟩]) &&
          decide ((s.outcome 1).map Retrieved.ofResult = some (.results [20]))) = true := by
    decide +kernel
  obtain ⟨s, hs, htest⟩ := System.exists_reachable_of_execute
    (ResultsState.initial_init true false) hrun
  obtain ⟨hretrievals, houtcome⟩ := (Bool.and_eq_true _ _).mp htest
  refine ⟨s, hs, ⟨1, true, .results [10]⟩, by simp [of_decide_eq_true hretrievals], ?_⟩
  rintro (⟨hdata, _⟩ | ⟨result, hresult, hown⟩ | ⟨message, herror⟩)
  · cases hdata
  · have hput := of_decide_eq_true houtcome
    rw [hresult, Option.map_some, ← hown] at hput
    cases hput
  · cases herror

end ResiliencyExt.Checkpointing.AsyncCkpt
