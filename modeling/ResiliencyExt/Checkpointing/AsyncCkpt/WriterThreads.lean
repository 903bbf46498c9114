import Mathlib.Algebra.BigOperators.Group.List.Basic
import ResiliencyExt.Checkpointing.AsyncCkpt.WriteBucket
import ResiliencyExt.Checkpointing.AsyncCkpt.WriteResults

set_option autoImplicit false

/-!
# The writer threads

`write_preloaded_data_multithread` makes a thread for each bucket but the last, which it
writes itself before it starts them.  A thread puts what it ends with on a local queue and
then takes an entry off the count queue; once the count queue is done with, the main thread
collects the local outputs.
-/

namespace ResiliencyExt.Checkpointing.AsyncCkpt

open Foundation List

variable {Data Stream WriteResult Exc : Type}

/-- A bucket, and what the storage does while it is written. -/
structure WriteTask (Data Stream WriteResult Exc : Type) where
  storage : Storage Data Stream WriteResult Exc
  bucket : FileBucket Data

/-- What the write of the bucket ends with. -/
def WriteTask.output (task : WriteTask Data Stream WriteResult Exc) :
    Except Exc (List WriteResult) :=
  task.storage.writeBucketToStorage task.bucket

/-- The write of the bucket raises. -/
def WriteTask.Raises (task : WriteTask Data Stream WriteResult Exc) : Prop :=
  ∃ exc, task.output = .error exc

/-- An exception of a save. -/
inductive WriteError (Exc : Type) where
  /-- The exception of a worker. -/
  | raised (exc : Exc)
  | runtimeError (message : String)
  deriving DecidableEq, Repr

/-- What a thread does next in `write_preloaded_data`. -/
inductive WriterThread (WriteResult Exc : Type) where
  | created
  | writing
  /-- `results_queue.put(local_output)` -/
  | reporting (localOutput : Except Exc (List WriteResult))
  /-- `count_queue.get()` -/
  | counting
  /-- `count_queue.task_done()` -/
  | marking
  | done

/-- What the main thread does next, after the loop over the buckets. -/
inductive MainThread where
  | starting (k : Nat)
  /-- `count_queue.join()` -/
  | joiningCount
  /-- `local_results_queue.get()`, after `k` of them -/
  | collecting (k : Nat)
  | joiningThreads (k : Nat)
  | finishing
  | done
  deriving DecidableEq, Repr

structure WriteState (WriteResult Exc : Type) where
  main : MainThread
  writeResultsOrExc : Except (WriteError Exc) (Dict Nat (List WriteResult))
  localResultsQueue : List (Nat × Except Exc (List WriteResult))
  countQueue : List Nat
  /-- `count_queue.unfinished_tasks` -/
  unfinishedTasks : Nat
  threadList : List (WriterThread WriteResult Exc)
  globalResultsQueue : List (WriteResultsOrExc WriteResult (WriteError Exc))

inductive WriterAction where
  | main
  | thread (i : Nat)
  deriving DecidableEq, Repr

namespace WriteState

variable (str : Exc → String)

def empty : WriteState WriteResult Exc :=
  ⟨.finishing, .ok .empty, [], [], 0, [], []⟩

/-- The loop over `enumerate(write_buckets)` from index `i`; there are `n` buckets in all. -/
def startWorkers (n : Nat) : Nat → List (WriteTask Data Stream WriteResult Exc) →
    WriteState WriteResult Exc → WriteState WriteResult Exc
  | _, [], s => s
  | i, task :: tasks, s =>
    startWorkers n (i + 1) tasks <|
      if i + 1 < n then
        { s with
          countQueue := s.countQueue ++ [i]
          unfinishedTasks := s.unfinishedTasks + 1
          threadList := s.threadList ++ [.created] }
      else
        match task.output with
        | .ok localResults =>
          { s with writeResultsOrExc := s.writeResultsOrExc.map fun d => d.set i localResults }
        | .error exc =>
          { s with writeResultsOrExc := .error (.runtimeError
              ("An error is caught while starting worker " ++ toString i ++ ", error: " ++
                str exc)) }

/-- The state after the loop over the buckets. -/
def initial (tasks : List (WriteTask Data Stream WriteResult Exc)) :
    WriteState WriteResult Exc :=
  let s := startWorkers str tasks.length 0 tasks empty
  match s.writeResultsOrExc with
  | .error _ => s
  | .ok _ => if s.threadList.length > 0 then { s with main := .starting 0 } else s

/-- What is put on the global queue, after the check that all results are there. -/
def checkComplete (n : Nat) :
    Except (WriteError Exc) (Dict Nat (List WriteResult)) →
      WriteResultsOrExc WriteResult (WriteError Exc)
  | .error exc => .error exc
  | .ok d =>
    if d.entries.length ≠ n then
      .error (.runtimeError ("Incomplete write results: expected " ++ toString n ++
        " buckets, got " ++ toString d.entries.length))
    else .ok d.entries

/-- One step of the main thread; `n` is the number of buckets. -/
def mainStep (n : Nat) (s : WriteState WriteResult Exc) : Option (WriteState WriteResult Exc) :=
  match s.main with
  | .starting k =>
    if k < s.threadList.length then
      some { s with threadList := s.threadList.set k .writing, main := .starting (k + 1) }
    else some { s with main := .joiningCount }
  | .joiningCount => if s.unfinishedTasks = 0 then some { s with main := .collecting 0 } else none
  | .collecting k =>
    if k + 1 < n then
      match s.localResultsQueue with
      | [] => none
      | (_, .error exc) :: rest =>
        some { s with
          localResultsQueue := rest
          writeResultsOrExc := .error (.raised exc)
          main := .joiningThreads 0 }
      | (i, .ok localResults) :: rest =>
        some { s with
          localResultsQueue := rest
          writeResultsOrExc := s.writeResultsOrExc.map fun d => d.set i localResults
          main := .collecting (k + 1) }
    else some { s with main := .joiningThreads 0 }
  | .joiningThreads k =>
    match s.threadList[k]? with
    | none => some { s with main := .finishing }
    | some .done => some { s with main := .joiningThreads (k + 1) }
    | some _ => none
  | .finishing =>
    some { s with
      globalResultsQueue := s.globalResultsQueue ++ [checkComplete n s.writeResultsOrExc]
      main := .done }
  | .done => none

/-- One step of the thread with index `i`. -/
def threadStep (tasks : List (WriteTask Data Stream WriteResult Exc))
    (s : WriteState WriteResult Exc) (i : Nat) : Option (WriteState WriteResult Exc) :=
  match s.threadList[i]? with
  | some .writing =>
    tasks[i]?.map fun task =>
      { s with threadList := s.threadList.set i (.reporting task.output) }
  | some (.reporting localOutput) =>
    some { s with
      localResultsQueue := s.localResultsQueue ++ [(i, localOutput)]
      threadList := s.threadList.set i .counting }
  | some .counting =>
    match s.countQueue with
    | [] => none
    | _ :: rest =>
      some { s with countQueue := rest, threadList := s.threadList.set i .marking }
  | some .marking =>
    -- a `task_done` too many raises, and ends the thread as well
    some { s with
      unfinishedTasks := s.unfinishedTasks - 1
      threadList := s.threadList.set i .done }
  | some .created | some .done | none => none

/-- One call of `write_preloaded_data_multithread`, with its threads. -/
def system (tasks : List (WriteTask Data Stream WriteResult Exc)) :
    System (WriteState WriteResult Exc) WriterAction where
  init s := s = initial str tasks
  step s
    | .main => s.mainStep tasks.length
    | .thread i => s.threadStep tasks i

end WriteState

/-! ## Counting threads -/

theorem cons_set_perm {α : Type} {l : List α} {i : Nat} {old : α} (new : α)
    (h : l[i]? = some old) : (old :: l.set i new).Perm (new :: l) := by
  obtain ⟨hi, rfl⟩ := List.getElem?_eq_some_iff.mp h
  have hset : (l[i] :: l.set i new).Perm (l[i] :: new :: l.eraseIdx i) :=
    (set_perm_cons_eraseIdx hi new).cons _
  have hget : (new :: l[i] :: l.eraseIdx i).Perm (new :: l) :=
    (getElem_cons_eraseIdx_perm hi).cons _
  exact hset.trans ((List.Perm.swap new l[i] _).trans hget)

namespace WriterThread

/-- Its entry is on the count queue. -/
def isQueued : WriterThread WriteResult Exc → Bool
  | .created | .writing | .reporting _ | .counting => true
  | .marking | .done => false

/-- Its task is not marked as done. -/
def isUnfinished : WriterThread WriteResult Exc → Bool
  | .done => false
  | _ => true

/-- Its output is on the local queue. -/
def isReported : WriterThread WriteResult Exc → Bool
  | .created | .writing | .reporting _ => false
  | .counting | .marking | .done => true

/-- The steps it has before it. -/
def remaining : WriterThread WriteResult Exc → Nat
  | .created => 5
  | .writing => 4
  | .reporting _ => 3
  | .counting => 2
  | .marking => 1
  | .done => 0

end WriterThread

/-! ## Outcomes -/

/-- The outputs of the tasks, with their indices. -/
def localOutputs (tasks : List (WriteTask Data Stream WriteResult Exc)) :
    List (Nat × Except Exc (List WriteResult)) :=
  tasks.mapIdx fun i task => (i, task.output)

theorem mem_localOutputs {tasks : List (WriteTask Data Stream WriteResult Exc)} {i : Nat}
    {localOutput : Except Exc (List WriteResult)} :
    (i, localOutput) ∈ localOutputs tasks ↔
      ∃ task, tasks[i]? = some task ∧ task.output = localOutput := by
  unfold localOutputs
  rw [mem_mapIdx]
  constructor
  · rintro ⟨j, hj, heq⟩
    obtain ⟨rfl, hout⟩ := Prod.mk.inj heq
    exact ⟨tasks[j], getElem?_eq_getElem hj, hout⟩
  · rintro ⟨task, hget, rfl⟩
    obtain ⟨hi, rfl⟩ := List.getElem?_eq_some_iff.mp hget
    exact ⟨i, hi, rfl⟩

/-- The outputs of workers that have these results. -/
def oks (entries : List (Nat × List WriteResult)) :
    List (Nat × Except Exc (List WriteResult)) :=
  entries.map fun e => (e.1, .ok e.2)

/-- All results of the tasks, each once. -/
def AllResults (tasks : List (WriteTask Data Stream WriteResult Exc))
    (entries : List (Nat × List WriteResult)) : Prop :=
  (oks entries).Perm (localOutputs tasks)

/-- A save ends with all results, or with an exception when a task raises. -/
def Outcome (tasks : List (WriteTask Data Stream WriteResult Exc)) :
    WriteResultsOrExc WriteResult (WriteError Exc) → Prop
  | .ok entries => AllResults tasks entries
  | .error _ => ∃ task ∈ tasks, task.Raises

namespace WriteState

variable {str : Exc → String} {tasks before : List (WriteTask Data Stream WriteResult Exc)}
  {last : WriteTask Data Stream WriteResult Exc} {s t : WriteState WriteResult Exc}

/-- The threads of the tasks `before` the last one, of which the first `k` are started. -/
structure Threads (before : List (WriteTask Data Stream WriteResult Exc)) (k : Nat)
    (s : WriteState WriteResult Exc) : Prop where
  length : s.threadList.length = before.length
  created : ∀ i w, s.threadList[i]? = some w → (w = .created ↔ k ≤ i)
  queued : s.countQueue.length = s.threadList.countP WriterThread.isQueued
  unfinished : s.unfinishedTasks = s.threadList.countP WriterThread.isUnfinished
  reporting : ∀ i localOutput, s.threadList[i]? = some (.reporting localOutput) →
    (i, localOutput) ∈ localOutputs before
  outputs : s.localResultsQueue ⊆ localOutputs before
  nodup : (s.localResultsQueue.map Prod.fst).Nodup
  reported : s.localResultsQueue.length = s.threadList.countP WriterThread.isReported
  own : ∀ i ∈ s.localResultsQueue.map Prod.fst, ∃ w, s.threadList[i]? = some w ∧
    w.isReported = true

/-! ## Steps of a thread -/

namespace Threads

variable {k : Nat}

variable {i : Nat} {w w' : WriterThread WriteResult Exc}

/-- How a count changes with one thread. -/
theorem countP_set (p : WriterThread WriteResult Exc → Bool)
    {threads : List (WriterThread WriteResult Exc)} (w' : WriterThread WriteResult Exc)
    (h : threads[i]? = some w) :
    (threads.set i w').countP p + (if p w then 1 else 0) =
      threads.countP p + (if p w' then 1 else 0) := by
  have hperm := (cons_set_perm w' h).countP_eq p
  rwa [countP_cons, countP_cons] at hperm

/-- A started thread goes on. -/
theorem created_set (h : s.Threads before k) (hget : s.threadList[i]? = some w)
    (hw : w ≠ .created) (hw' : w' ≠ .created) :
    ∀ j v, (s.threadList.set i w')[j]? = some v → (v = .created ↔ k ≤ j) := by
  intro j v hj
  rw [getElem?_set] at hj
  split at hj
  · next heq =>
    subst heq
    split at hj
    · cases hj
      exact ⟨fun hc => absurd hc hw', fun hk => absurd ((h.created i w hget).mpr hk) hw⟩
    · cases hj
  · exact h.created j v hj

theorem reporting_set (h : s.Threads before k)
    (hw' : ∀ localOutput, w' = .reporting localOutput → (i, localOutput) ∈ localOutputs before) :
    ∀ j localOutput, (s.threadList.set i w')[j]? = some (.reporting localOutput) →
      (j, localOutput) ∈ localOutputs before := by
  intro j localOutput hj
  rw [getElem?_set] at hj
  split at hj
  · next heq =>
    subst heq
    split at hj
    · exact hw' _ (Option.some.inj hj)
    · cases hj
  · exact h.reporting j localOutput hj

theorem own_set (h : s.Threads before k) (hget : s.threadList[i]? = some w)
    (hw : w.isReported = true → w'.isReported = true) :
    ∀ j ∈ s.localResultsQueue.map Prod.fst, ∃ v, (s.threadList.set i w')[j]? = some v ∧
      v.isReported = true := by
  intro j hj
  obtain ⟨v, hv, hreported⟩ := h.own j hj
  by_cases heq : i = j
  · subst heq
    obtain ⟨hi, _⟩ := List.getElem?_eq_some_iff.mp hv
    obtain rfl : v = w := Option.some.inj (hv.symm.trans hget)
    exact ⟨w', by rw [getElem?_set_self hi], hw hreported⟩
  · exact ⟨v, by rwa [getElem?_set_ne heq], hreported⟩

/-- The main thread starts the next one. -/
theorem start (h : s.Threads before k) (hk : k < before.length) :
    Threads before (k + 1) { s with
      threadList := s.threadList.set k .writing, main := .starting (k + 1) } := by
  have hlt : k < s.threadList.length := h.length ▸ hk
  have hget : s.threadList[k]? = some .created := by
    rw [getElem?_eq_getElem hlt]
    have hcreated := h.created k _ (getElem?_eq_getElem hlt)
    exact congrArg some (hcreated.mpr (Nat.le_refl k))
  refine ⟨(length_set ..).trans h.length, ?_, ?_, ?_, h.reporting_set nofun, h.outputs,
    h.nodup, ?_, h.own_set hget nofun⟩
  · intro j v hj
    change (s.threadList.set k .writing)[j]? = some v at hj
    rw [getElem?_set] at hj
    split at hj
    · next heq =>
      subst heq
      cases hj
      exact ⟨nofun, fun hle => absurd hle (Nat.not_succ_le_self k)⟩
    · next hne =>
      rw [h.created j v hj]
      omega
  · have hcount := countP_set WriterThread.isQueued .writing hget
    have hqueued := h.queued
    simp only [WriterThread.isQueued, if_true] at hcount ⊢
    omega
  · have hcount := countP_set WriterThread.isUnfinished .writing hget
    have hunfinished := h.unfinished
    simp only [WriterThread.isUnfinished, if_true] at hcount ⊢
    omega
  · have hcount := countP_set WriterThread.isReported .writing hget
    have hreported := h.reported
    simp only [WriterThread.isReported] at hcount ⊢
    simp only [Bool.false_eq_true, if_false] at hcount
    omega

/-- A thread goes on without an output. -/
theorem advance (h : s.Threads before k) (w' : WriterThread WriteResult Exc)
    (hget : s.threadList[i]? = some w) (hw : w ≠ .created) (hw' : w' ≠ .created)
    (hreporting : ∀ localOutput, w' = .reporting localOutput →
      (i, localOutput) ∈ localOutputs before)
    {countQueue : List Nat} {unfinishedTasks : Nat}
    (hqueued : countQueue.length + (if w.isQueued then 1 else 0) = s.countQueue.length +
      (if w'.isQueued then 1 else 0))
    (hunfinished : unfinishedTasks + (if w.isUnfinished then 1 else 0) = s.unfinishedTasks +
      (if w'.isUnfinished then 1 else 0))
    (hreported : w.isReported = w'.isReported) :
    Threads before k { s with
      countQueue := countQueue
      unfinishedTasks := unfinishedTasks
      threadList := s.threadList.set i w' } := by
  refine ⟨(length_set ..).trans h.length, h.created_set hget hw hw', ?_, ?_,
    h.reporting_set hreporting, h.outputs, h.nodup, ?_,
    h.own_set hget fun hr => hreported.symm.trans hr⟩
  · have hcount := countP_set WriterThread.isQueued w' hget
    have hbefore := h.queued
    change countQueue.length = (s.threadList.set i w').countP _
    omega
  · have hcount := countP_set WriterThread.isUnfinished w' hget
    have hbefore := h.unfinished
    change unfinishedTasks = (s.threadList.set i w').countP _
    omega
  · have hcount := countP_set WriterThread.isReported w' hget
    have hbefore := h.reported
    rw [hreported] at hcount
    change s.localResultsQueue.length = (s.threadList.set i w').countP _
    omega

/-- A thread puts its output. -/
theorem report (h : s.Threads before k) {localOutput : Except Exc (List WriteResult)}
    (hget : s.threadList[i]? = some (.reporting localOutput)) :
    Threads before k { s with
      localResultsQueue := s.localResultsQueue ++ [(i, localOutput)]
      threadList := s.threadList.set i .counting } := by
  obtain ⟨hi, _⟩ := List.getElem?_eq_some_iff.mp hget
  have hnew : i ∉ s.localResultsQueue.map Prod.fst := by
    intro hmem
    obtain ⟨w, hw, hreported⟩ := h.own i hmem
    obtain rfl : w = .reporting localOutput := Option.some.inj (hw.symm.trans hget)
    cases hreported
  refine ⟨(length_set ..).trans h.length, h.created_set hget nofun nofun, ?_, ?_,
    h.reporting_set nofun, ?_, ?_, ?_, ?_⟩
  · have hcount := countP_set WriterThread.isQueued .counting hget
    have hbefore := h.queued
    change s.countQueue.length = (s.threadList.set i .counting).countP _
    simp only [WriterThread.isQueued] at hcount
    omega
  · have hcount := countP_set WriterThread.isUnfinished .counting hget
    have hbefore := h.unfinished
    change s.unfinishedTasks = (s.threadList.set i .counting).countP _
    simp only [WriterThread.isUnfinished] at hcount
    omega
  · refine append_subset.mpr ⟨h.outputs, fun e he => ?_⟩
    cases mem_singleton.mp he
    exact h.reporting i localOutput hget
  · change ((s.localResultsQueue ++ [(i, localOutput)]).map Prod.fst).Nodup
    rw [map_append, map_singleton]
    exact nodup_append_comm.mp (nodup_cons.mpr ⟨hnew, h.nodup⟩)
  · have hcount := countP_set WriterThread.isReported .counting hget
    have hbefore := h.reported
    change (s.localResultsQueue ++ [(i, localOutput)]).length =
      (s.threadList.set i .counting).countP _
    rw [length_append, length_singleton]
    simp only [WriterThread.isReported, Bool.false_eq_true, if_false, if_true] at hcount
    omega
  · intro j hj
    change j ∈ (s.localResultsQueue ++ [(i, localOutput)]).map Prod.fst at hj
    rw [map_append, mem_append] at hj
    rcases hj with hold | hlast
    · exact h.own_set hget nofun j hold
    · cases mem_singleton.mp hlast
      exact ⟨.counting, by rw [getElem?_set_self hi], rfl⟩

end Threads

/-- What a step of a thread leaves alone. -/
structure SameMain (s t : WriteState WriteResult Exc) : Prop where
  main : t.main = s.main
  writeResultsOrExc : t.writeResultsOrExc = s.writeResultsOrExc
  globalResultsQueue : t.globalResultsQueue = s.globalResultsQueue

/-- A step of a thread keeps what holds of the threads, and has the thread go on. -/
theorem Threads.step {k i : Nat} (h : s.Threads before k) (htasks : tasks = before ++ [last])
    (hstep : s.threadStep tasks i = some t) : t.Threads before k ∧ SameMain s t := by
  unfold threadStep at hstep
  split at hstep
  · next hget =>
    obtain ⟨task, htask, heq⟩ := Option.map_eq_some_iff.mp hstep
    cases heq
    obtain ⟨hi, _⟩ := List.getElem?_eq_some_iff.mp hget
    rw [h.length] at hi
    rw [htasks, getElem?_append_left hi] at htask
    refine ⟨h.advance (.reporting task.output) hget nofun nofun ?_ rfl rfl rfl, rfl, rfl, rfl⟩
    intro localOutput hout
    cases hout
    exact mem_localOutputs.mpr ⟨task, htask, rfl⟩
  · next localOutput hget =>
    cases hstep
    exact ⟨h.report hget, rfl, rfl, rfl⟩
  · next hget =>
    split at hstep
    · cases hstep
    · next i' rest hqueue =>
      cases hstep
      refine ⟨h.advance .marking hget nofun nofun nofun ?_ rfl rfl, rfl, rfl, rfl⟩
      rw [hqueue]
      rfl
  · next hget =>
    cases hstep
    have hpos : 0 < s.threadList.countP WriterThread.isUnfinished :=
      countP_pos_iff.mpr ⟨.marking, mem_of_getElem? hget, rfl⟩
    have hunfinished := h.unfinished
    refine ⟨h.advance .done hget nofun nofun nofun rfl ?_ rfl, rfl, rfl, rfl⟩
    change s.unfinishedTasks - 1 + 1 = s.unfinishedTasks + 0
    omega
  all_goals cases hstep

end WriteState

end ResiliencyExt.Checkpointing.AsyncCkpt
