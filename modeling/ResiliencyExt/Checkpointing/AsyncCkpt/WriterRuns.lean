import Mathlib.Data.List.Perm.Subperm
import ResiliencyExt.Checkpointing.AsyncCkpt.WriterThreads

set_option autoImplicit false

/-!
# Every save ends, with one result

The main thread waits for the threads twice and for a local output once for each of them, and
none of these waits is for ever: a thread always comes to its end, and it puts its output
before it takes its entry off the count queue.  Whatever the order of the steps, one result is
put on the global queue, and it is an exception when a bucket raised.
-/

namespace ResiliencyExt.Checkpointing.AsyncCkpt

open Foundation List

variable {Data Stream WriteResult Exc : Type}

/-! ## Outputs with their indices -/

theorem map_fst_localOutputs (tasks : List (WriteTask Data Stream WriteResult Exc)) :
    (localOutputs tasks).map Prod.fst = List.range tasks.length := by
  refine ext_getElem (by simp [localOutputs]) fun i hi _ => ?_
  simp [localOutputs]

theorem localOutputs_concat (before : List (WriteTask Data Stream WriteResult Exc))
    (last : WriteTask Data Stream WriteResult Exc) :
    localOutputs (before ++ [last]) =
      localOutputs before ++ [(before.length, last.output)] :=
  mapIdx_concat

theorem raises_of_mem_localOutputs {tasks : List (WriteTask Data Stream WriteResult Exc)}
    {i : Nat} {exc : Exc} (h : (i, .error exc) ∈ localOutputs tasks) :
    ∃ task ∈ tasks, task.Raises := by
  obtain ⟨task, hget, hout⟩ := mem_localOutputs.mp h
  exact ⟨task, mem_of_getElem? hget, exc, hout⟩

namespace WriteState

variable {str : Exc → String} {tasks before : List (WriteTask Data Stream WriteResult Exc)}
  {last : WriteTask Data Stream WriteResult Exc} {s t : WriteState WriteResult Exc}

/-- The phases of a save. -/
inductive Phase (tasks : List (WriteTask Data Stream WriteResult Exc))
    (s : WriteState WriteResult Exc) : Prop
  | working {k : Nat} {before : List (WriteTask Data Stream WriteResult Exc)}
      {last : WriteTask Data Stream WriteResult Exc} {results : List WriteResult}
      (hmain : s.main = .starting k ∧ k ≤ before.length ∨
        s.main = .joiningCount ∧ k = before.length)
      (htasks : tasks = before ++ [last]) (hlast : last.output = .ok results)
      (hthreads : s.Threads before k)
      (hresult : s.writeResultsOrExc = .ok (Dict.empty.set before.length results))
      (hglobal : s.globalResultsQueue = [])
  | collecting {before : List (WriteTask Data Stream WriteResult Exc)}
      {last : WriteTask Data Stream WriteResult Exc} {results : List WriteResult}
      {received : List (Nat × List WriteResult)} {d : Dict Nat (List WriteResult)}
      (hmain : s.main = .collecting received.length)
      (htasks : tasks = before ++ [last]) (hlast : last.output = .ok results)
      (hdone : ∀ w ∈ s.threadList, w = .done)
      (hresult : s.writeResultsOrExc = .ok d)
      (hentries : d.entries = (before.length, results) :: received)
      (hperm : (oks received ++ s.localResultsQueue).Perm (localOutputs before))
      (hglobal : s.globalResultsQueue = [])
  | joining {k : Nat} (hmain : s.main = .joiningThreads k)
      (hdone : ∀ w ∈ s.threadList, w = .done)
      (hsettled : Outcome tasks (s.writeResultsOrExc.map Dict.entries))
      (hglobal : s.globalResultsQueue = [])
  | finishing (hmain : s.main = .finishing)
      (hidle : ∀ w ∈ s.threadList, w = .created ∨ w = .done)
      (hsettled : Outcome tasks (s.writeResultsOrExc.map Dict.entries))
      (hglobal : s.globalResultsQueue = [])
  | done {result : WriteResultsOrExc WriteResult (WriteError Exc)} (hmain : s.main = .done)
      (hidle : ∀ w ∈ s.threadList, w = .created ∨ w = .done)
      (hglobal : s.globalResultsQueue = [result]) (houtcome : Outcome tasks result)

/-! ## The loop over the buckets -/

/-- All buckets but the last get a thread. -/
theorem startWorkers_concat {n i : Nat} (s : WriteState WriteResult Exc)
    (h : i + before.length + 1 = n) :
    startWorkers str n i (before ++ [last]) s =
      startWorkers str n (i + before.length) [last] { s with
        countQueue := s.countQueue ++ range' i before.length
        unfinishedTasks := s.unfinishedTasks + before.length
        threadList := s.threadList ++ replicate before.length .created } := by
  induction before generalizing i s with
  | nil => simp
  | cons task before ih =>
    rw [length_cons] at h
    have hlt : i + 1 < n := by omega
    rw [cons_append, startWorkers, if_pos hlt, ih _ (by omega)]
    have hindex : i + 1 + before.length = i + (before.length + 1) := by omega
    have hcount : s.unfinishedTasks + 1 + before.length =
        s.unfinishedTasks + (before.length + 1) := by omega
    simp only [length_cons, hindex, hcount, range'_succ, replicate_succ,
      append_assoc, singleton_append]

/-- The threads before the first of them is started. -/
theorem threads_created (before : List (WriteTask Data Stream WriteResult Exc))
    (main : MainThread)
    (writeResultsOrExc : Except (WriteError Exc) (Dict Nat (List WriteResult))) :
    Threads before 0 ⟨main, writeResultsOrExc, [], range' 0 before.length, before.length,
      replicate before.length .created, []⟩ where
  length := length_replicate
  created i w hw := by
    have hmem := eq_of_mem_replicate (mem_of_getElem? hw)
    exact ⟨fun _ => Nat.zero_le i, fun _ => hmem⟩
  queued := by simp [countP_replicate, WriterThread.isQueued]
  unfinished := by simp [countP_replicate, WriterThread.isUnfinished]
  reporting i localOutput hw := by
    cases eq_of_mem_replicate (mem_of_getElem? hw)
  outputs := nofun
  nodup := .nil
  reported := by simp [countP_replicate, WriterThread.isReported]
  own := nofun

theorem initial_phase (str : Exc → String)
    (tasks : List (WriteTask Data Stream WriteResult Exc)) : Phase tasks (initial str tasks) := by
  rcases eq_nil_or_concat' tasks with rfl | ⟨before, last, rfl⟩
  · exact .finishing rfl nofun (.refl _) rfl
  · have hstart : startWorkers str (before ++ [last]).length 0 (before ++ [last]) empty =
        startWorkers str (before ++ [last]).length before.length [last]
          ⟨.finishing, .ok .empty, [], range' 0 before.length, before.length,
            replicate before.length .created, []⟩ := by
      rw [startWorkers_concat _ (by simp)]
      simp [empty]
    have hlength : ¬ before.length + 1 < (before ++ [last]).length := by simp
    unfold initial
    rw [hstart, startWorkers, startWorkers, if_neg hlength]
    cases hlast : last.output with
    | error exc =>
      refine .finishing rfl (fun w hw => .inl (eq_of_mem_replicate hw)) ?_ rfl
      exact ⟨last, by simp, exc, hlast⟩
    | ok results =>
      dsimp only [Except.map]
      split
      · exact .working (.inl ⟨rfl, Nat.zero_le _⟩) rfl hlast (threads_created before _ _) rfl rfl
      · next hnone =>
        rw [length_replicate, Nat.not_lt, Nat.le_zero] at hnone
        obtain rfl := eq_nil_of_length_eq_zero hnone
        refine .finishing rfl nofun ?_ rfl
        change (oks [(0, results)]).Perm [(0, last.output)]
        rw [hlast]
        exact .refl _

/-! ## Steps of the main thread -/

/-- When all tasks of the count queue are marked, every thread is done and its output is on the
local queue. -/
theorem Threads.joined {k : Nat} (h : s.Threads before k) (hzero : s.unfinishedTasks = 0) :
    (∀ w ∈ s.threadList, w = .done) ∧ s.localResultsQueue.Perm (localOutputs before) := by
  have hcount := h.unfinished.symm.trans hzero
  have hdone : ∀ w ∈ s.threadList, w = .done := by
    intro w hw
    have hfinished := countP_eq_zero.mp hcount w hw
    cases w <;> first | rfl | exact absurd rfl hfinished
  refine ⟨hdone, ?_⟩
  have hreported : s.threadList.countP WriterThread.isReported = s.threadList.length := by
    refine countP_eq_length.mpr fun w hw => ?_
    rw [hdone w hw]
    rfl
  have hlength : (localOutputs before).length ≤ s.localResultsQueue.length := by
    rw [h.reported, hreported, h.length]
    exact Nat.le_of_eq length_mapIdx
  exact (subperm_of_subset (List.Nodup.of_map _ h.nodup) h.outputs).perm_of_length_le hlength

section Collecting

variable {results localResults : List WriteResult} {received : List (Nat × List WriteResult)}
  {rest : List (Nat × Except Exc (List WriteResult))} {d : Dict Nat (List WriteResult)} {i : Nat}

/-- The next local output is of a task that the dictionary does not have. -/
theorem not_mem_keys_of_received (hentries : d.entries = (before.length, results) :: received)
    (hperm : (oks received ++ (i, Except.ok localResults) :: rest).Perm (localOutputs before)) :
    i ∉ d.keys := by
  have hkeys : (received.map Prod.fst ++ i :: rest.map Prod.fst).Perm
      (List.range before.length) := by
    have hmap := hperm.map Prod.fst
    rwa [map_fst_localOutputs, map_append, map_cons, oks, map_map] at hmap
  have hnodup := hkeys.nodup_iff.mpr nodup_range
  have hi : i < before.length :=
    mem_range.mp (hkeys.mem_iff.mp (mem_append_right _ mem_cons_self))
  intro hmem
  rw [Dict.keys, hentries, map_cons] at hmem
  rcases mem_cons.mp hmem with heq | hin
  · exact absurd heq (Nat.ne_of_lt hi)
  · obtain ⟨_, _, hdisjoint⟩ := nodup_append.mp hnodup
    exact hdisjoint i hin i mem_cons_self rfl

/-- Once all local outputs are collected, the dictionary has all results. -/
theorem allResults_of_received (hlast : last.output = .ok results)
    (hentries : d.entries = (before.length, results) :: received)
    (hperm : (oks received ++ rest).Perm (localOutputs before))
    (hall : before.length ≤ received.length) : AllResults (before ++ [last]) d.entries := by
  have hlength := hperm.length_eq
  rw [length_append, oks, length_map, localOutputs, length_mapIdx] at hlength
  have hrest : rest = [] := eq_nil_of_length_eq_zero (by omega)
  rw [hrest, append_nil] at hperm
  unfold AllResults
  rw [hentries, localOutputs_concat, hlast]
  exact (hperm.cons _).trans (perm_append_singleton _ _).symm

end Collecting

variable {w : WriterThread WriteResult Exc} {n : Nat} (w' : WriterThread WriteResult Exc)

/-- The check of the length finds nothing. -/
theorem outcome_checkComplete
    {writeResultsOrExc : Except (WriteError Exc) (Dict Nat (List WriteResult))}
    (h : Outcome tasks (writeResultsOrExc.map Dict.entries)) :
    Outcome tasks (checkComplete tasks.length writeResultsOrExc) := by
  cases writeResultsOrExc with
  | error exc => exact h
  | ok d =>
    have hlength : d.entries.length = tasks.length := by
      have hperm := List.Perm.length_eq h
      rwa [oks, length_map, localOutputs, length_mapIdx] at hperm
    rw [checkComplete, if_neg (fun hne => hne hlength)]
    exact h

theorem Phase.mainStep (h : Phase tasks s) (hstep : s.mainStep tasks.length = some t) :
    Phase tasks t := by
  unfold WriteState.mainStep at hstep
  cases h with
  | @working k before last results hmain htasks hlast hthreads hresult hglobal =>
    rcases hmain with ⟨hmain, hk⟩ | ⟨hmain, rfl⟩
    · rw [hmain] at hstep
      dsimp only at hstep
      split at hstep
      · next hlt =>
        cases hstep
        rw [hthreads.length] at hlt
        exact .working (.inl ⟨rfl, hlt⟩) htasks hlast (hthreads.start hlt) hresult hglobal
      · next hnot =>
        cases hstep
        rw [hthreads.length] at hnot
        obtain rfl : k = before.length := by omega
        obtain ⟨hlength, hcreated, hqueued, hunfinished, hreporting, houtputs, hnodup,
          hreported, hown⟩ := hthreads
        exact .working (.inr ⟨rfl, rfl⟩) htasks hlast ⟨hlength, hcreated, hqueued, hunfinished,
          hreporting, houtputs, hnodup, hreported, hown⟩ hresult hglobal
    · rw [hmain] at hstep
      dsimp only at hstep
      split at hstep
      · next hzero =>
        cases hstep
        obtain ⟨hdone, hperm⟩ := hthreads.joined hzero
        have hnone : MainThread.collecting 0 =
            .collecting ([] : List (Nat × List WriteResult)).length := rfl
        exact .collecting hnone htasks hlast hdone hresult rfl hperm hglobal
      · cases hstep
  | @collecting before last results received d hmain htasks hlast hdone hresult hentries hperm
      hglobal =>
      rw [hmain] at hstep
      dsimp only at hstep
      subst htasks
      split at hstep
      · split at hstep
        · cases hstep
        · next i exc rest hqueue =>
          cases hstep
          rw [hqueue] at hperm
          obtain ⟨task, hmem, hraises⟩ := raises_of_mem_localOutputs
            (hperm.mem_iff.mp (mem_append_right _ mem_cons_self))
          exact .joining rfl hdone ⟨task, mem_append_left _ hmem, hraises⟩ hglobal
        · next i localResults rest hqueue =>
          cases hstep
          rw [hqueue] at hperm
          have hnew := not_mem_keys_of_received hentries hperm
          have hcount : MainThread.collecting (received.length + 1) =
              .collecting (received ++ [(i, localResults)]).length := by
            rw [length_append, length_singleton]
          refine .collecting hcount rfl hlast hdone (by rw [hresult]; rfl) ?_ ?_ hglobal
          · refine (Dict.entries_alter_of_not_mem localResults (fun _ => localResults) hnew).trans ?_
            rw [hentries]
            rfl
          · rwa [oks, map_append, append_assoc]
      · next hlt =>
        cases hstep
        have hall : before.length ≤ received.length := by
          rw [length_append, length_singleton] at hlt
          omega
        refine .joining rfl hdone ?_ hglobal
        rw [hresult]
        exact allResults_of_received hlast hentries hperm hall
  | @joining k hmain hdone hsettled hglobal =>
    rw [hmain] at hstep
    dsimp only at hstep
    split at hstep
    · cases hstep
      exact .finishing rfl (fun w hw => .inr (hdone w hw)) hsettled hglobal
    · cases hstep
      exact .joining rfl hdone hsettled hglobal
    · cases hstep
  | finishing hmain hidle hsettled hglobal =>
    rw [hmain] at hstep
    cases hstep
    refine .done rfl hidle ?_ (outcome_checkComplete hsettled)
    rw [hglobal]
    rfl
  | done hmain hidle hglobal houtcome =>
    rw [hmain] at hstep
    cases hstep

/-! ## All steps -/

/-- A thread that is not started or that is done has no step. -/
theorem threadStep_of_idle (hidle : ∀ w ∈ s.threadList, w = .created ∨ w = .done) (i : Nat) :
    s.threadStep tasks i = none := by
  unfold threadStep
  cases hget : s.threadList[i]? with
  | none => rfl
  | some w =>
    rcases hidle w (mem_of_getElem? hget) with rfl | rfl
    · rfl
    · rfl

theorem Phase.step (h : Phase tasks s) {a : WriterAction}
    (hstep : (system str tasks).step s a = some t) : Phase tasks t := by
  cases a with
  | main => exact h.mainStep hstep
  | thread i =>
    change s.threadStep tasks i = some t at hstep
    cases h with
    | working hmain htasks hlast hthreads hresult hglobal =>
      obtain ⟨hthreads, hsame⟩ := hthreads.step htasks hstep
      refine .working ?_ htasks hlast hthreads (hsame.writeResultsOrExc.trans hresult)
        (hsame.globalResultsQueue.trans hglobal)
      rwa [hsame.main]
    | collecting hmain htasks hlast hdone hresult hentries hperm hglobal =>
      rw [threadStep_of_idle fun w hw => .inr (hdone w hw)] at hstep
      cases hstep
    | joining hmain hdone hsettled hglobal =>
      rw [threadStep_of_idle fun w hw => .inr (hdone w hw)] at hstep
      cases hstep
    | finishing hmain hidle hsettled hglobal =>
      rw [threadStep_of_idle hidle] at hstep
      cases hstep
    | done hmain hidle hglobal houtcome =>
      rw [threadStep_of_idle hidle] at hstep
      cases hstep

/-! ## Every save ends -/

/-- The steps that the main thread has before it. -/
def MainThread.remaining (n threads : Nat) : MainThread → Nat
  | .starting k => (threads - k) + n + threads + 5
  | .joiningCount => n + threads + 4
  | .collecting k => (n - k) + threads + 3
  | .joiningThreads k => (threads - k) + 2
  | .finishing => 1
  | .done => 0

/-- The steps of all threads, and of the main thread. -/
def remaining (n : Nat) (s : WriteState WriteResult Exc) : Nat :=
  MainThread.remaining n s.threadList.length s.main +
    (s.threadList.map WriterThread.remaining).sum

theorem sum_remaining_set {i : Nat} {threads : List (WriterThread WriteResult Exc)}
    (h : threads[i]? = some w) (hless : w'.remaining < w.remaining) :
    ((threads.set i w').map WriterThread.remaining).sum <
      (threads.map WriterThread.remaining).sum := by
  have hsum := ((cons_set_perm w' h).map WriterThread.remaining).sum_eq
  simp only [map_cons, sum_cons] at hsum
  omega

/-- A thread comes nearer to its end. -/
theorem remaining_thread {i : Nat} (hget : s.threadList[i]? = some w)
    (hless : w'.remaining < w.remaining) (hmain : t.main = s.main)
    (hthreads : t.threadList = s.threadList.set i w') : t.remaining n < s.remaining n := by
  have hsum := sum_remaining_set w' hget hless
  unfold remaining
  rw [hmain, hthreads, length_set]
  omega

theorem remaining_threadStep {i : Nat} (hstep : s.threadStep tasks i = some t) :
    t.remaining n < s.remaining n := by
  unfold threadStep at hstep
  split at hstep
  · next hget =>
    obtain ⟨task, _, heq⟩ := Option.map_eq_some_iff.mp hstep
    cases heq
    exact remaining_thread (.reporting task.output) hget (Nat.lt_succ_self 3) rfl rfl
  · next localOutput hget =>
    cases hstep
    exact remaining_thread .counting hget (Nat.lt_succ_self 2) rfl rfl
  · next hget =>
    split at hstep
    · cases hstep
    · cases hstep
      exact remaining_thread .marking hget (Nat.lt_succ_self 1) rfl rfl
  · next hget =>
    cases hstep
    exact remaining_thread .done hget (Nat.lt_succ_self 0) rfl rfl
  all_goals cases hstep

/-- The next thread to start is there, and was not started. -/
theorem Threads.next {k : Nat} (h : s.Threads before k) (hk : k < s.threadList.length) :
    s.threadList[k]? = some .created := by
  rw [getElem?_eq_getElem hk]
  exact congrArg some ((h.created k _ (getElem?_eq_getElem hk)).mpr (Nat.le_refl k))

/-- The main thread comes nearer to its end, and makes no thread go back. -/
theorem remaining_mainStep (hphase : Phase tasks s) (hstep : s.mainStep n = some t) :
    t.remaining n < s.remaining n := by
  unfold WriteState.mainStep at hstep
  split at hstep
  · next k hmain =>
    split at hstep
    · next hk =>
      cases hstep
      have hget : s.threadList[k]? = some .created := by
        cases hphase with
        | working hworking _ _ hthreads =>
          rcases hworking with ⟨hsame, _⟩ | ⟨hsame, _⟩
          · obtain rfl := MainThread.starting.inj (hmain.symm.trans hsame)
            exact hthreads.next hk
          · cases hmain.symm.trans hsame
        | collecting hother => cases hmain.symm.trans hother
        | joining hother => cases hmain.symm.trans hother
        | finishing hother => cases hmain.symm.trans hother
        | done hother => cases hmain.symm.trans hother
      have hsum := sum_remaining_set .writing hget (Nat.lt_succ_self 4)
      unfold remaining
      rw [hmain]
      simp only [length_set, MainThread.remaining]
      omega
    · cases hstep
      unfold remaining
      rw [hmain]
      simp only [MainThread.remaining]
      omega
  · next hmain =>
    split at hstep
    · cases hstep
      unfold remaining
      rw [hmain]
      simp only [MainThread.remaining]
      omega
    · cases hstep
  · next k hmain =>
    split at hstep
    · next hk =>
      split at hstep
      · cases hstep
      all_goals
        cases hstep
        unfold remaining
        rw [hmain]
        simp only [MainThread.remaining]
        omega
    · cases hstep
      unfold remaining
      rw [hmain]
      simp only [MainThread.remaining]
      omega
  · next k hmain =>
    split at hstep
    · cases hstep
      unfold remaining
      rw [hmain]
      simp only [MainThread.remaining]
      omega
    · next hget =>
      cases hstep
      obtain ⟨hk, _⟩ := List.getElem?_eq_some_iff.mp hget
      unfold remaining
      rw [hmain]
      simp only [MainThread.remaining]
      omega
    · cases hstep
  · next hmain =>
    cases hstep
    unfold remaining
    rw [hmain]
    simp only [MainThread.remaining]
    omega
  · cases hstep

/-! ## No step is waited for in vain -/

/-- While the main thread waits for the count queue, a thread can go on. -/
theorem Threads.exists_step (h : s.Threads before before.length) (htasks : tasks = before ++ [last])
    (hpos : s.unfinishedTasks ≠ 0) : ∃ i t, s.threadStep tasks i = some t := by
  have hcount : 0 < s.threadList.countP WriterThread.isUnfinished := by
    have hunfinished := h.unfinished
    omega
  obtain ⟨w, hmem, hunfinished⟩ := countP_pos_iff.mp hcount
  obtain ⟨i, hi, rfl⟩ := mem_iff_getElem.mp hmem
  have hget := getElem?_eq_getElem hi
  refine ⟨i, ?_⟩
  unfold threadStep
  rw [hget]
  cases hw : s.threadList[i] with
  | created =>
    have hle := (h.created i _ hget).mp hw
    rw [h.length] at hi
    omega
  | writing =>
    have hlt : i < tasks.length := by
      rw [h.length] at hi
      rw [htasks, length_append]
      omega
    rw [getElem?_eq_getElem hlt]
    exact ⟨_, rfl⟩
  | reporting localOutput => exact ⟨_, rfl⟩
  | counting =>
    have hqueued : 0 < s.countQueue.length := by
      rw [h.queued]
      exact countP_pos_iff.mpr ⟨_, hmem, by rw [hw]; rfl⟩
    obtain ⟨first, rest, hqueue⟩ := exists_cons_of_length_pos hqueued
    rw [hqueue]
    exact ⟨_, rfl⟩
  | marking => exact ⟨_, rfl⟩
  | done =>
    rw [hw] at hunfinished
    cases hunfinished

theorem Phase.exists_step (h : Phase tasks s) (hnot : s.main ≠ .done) :
    ∃ a t, (system str tasks).step s a = some t := by
  cases h with
  | @working k before last results hmain htasks hlast hthreads hresult hglobal =>
    rcases hmain with ⟨hmain, _⟩ | ⟨hmain, rfl⟩
    · refine ⟨.main, ?_⟩
      change ∃ t, s.mainStep _ = some t
      unfold WriteState.mainStep
      rw [hmain]
      dsimp only
      split
      · exact ⟨_, rfl⟩
      · exact ⟨_, rfl⟩
    · by_cases hzero : s.unfinishedTasks = 0
      · refine ⟨.main, { s with main := .collecting 0 }, ?_⟩
        change s.mainStep _ = _
        unfold WriteState.mainStep
        rw [hmain]
        exact if_pos hzero
      · obtain ⟨i, t, hstep⟩ := hthreads.exists_step htasks hzero
        exact ⟨.thread i, t, hstep⟩
  | @collecting before last results received d hmain htasks hlast hdone hresult hentries hperm
      hglobal =>
      refine ⟨.main, ?_⟩
      change ∃ t, s.mainStep _ = some t
      unfold WriteState.mainStep
      rw [hmain]
      dsimp only
      split
      · next hk =>
        split
        · next hnil =>
          have hlength := hperm.length_eq
          rw [hnil, append_nil, oks, length_map, localOutputs,
            length_mapIdx] at hlength
          rw [htasks, length_append, length_singleton] at hk
          omega
        · exact ⟨_, rfl⟩
        · exact ⟨_, rfl⟩
      · exact ⟨_, rfl⟩
  | @joining k hmain hdone hsettled hglobal =>
    refine ⟨.main, ?_⟩
    change ∃ t, s.mainStep _ = some t
    unfold WriteState.mainStep
    rw [hmain]
    dsimp only
    split
    · exact ⟨_, rfl⟩
    · exact ⟨_, rfl⟩
    · next w hbusy hget => exact absurd (hdone w (mem_of_getElem? hget)) hbusy
  | finishing hmain hidle hsettled hglobal =>
    refine ⟨.main, ?_⟩
    change ∃ t, s.mainStep _ = some t
    unfold WriteState.mainStep
    rw [hmain]
    exact ⟨_, rfl⟩
  | done hmain => exact absurd hmain hnot

/-! ## The result of a save -/

theorem phase_of_reachable (hs : (system str tasks).Reachable (fun _ _ => True) s) :
    Phase tasks s := by
  refine System.Reachable.invariant (P := Phase tasks) ?_ (fun s a t h _ => h.step) hs
  rintro s rfl
  exact initial_phase str tasks

/-- The one result that is put on the global queue when the save is done. -/
def Finished (tasks : List (WriteTask Data Stream WriteResult Exc))
    (s : WriteState WriteResult Exc) : Prop :=
  s.main = .done ∧ ∃ result, s.globalResultsQueue = [result] ∧ Outcome tasks result

/-- When the main thread is done no thread is running. -/
theorem Phase.of_done (h : Phase tasks s) (hdone : s.main = .done) :
    (∀ w ∈ s.threadList, w = .created ∨ w = .done) ∧ Finished tasks s := by
  cases h with
  | working hmain =>
    rcases hmain with ⟨hmain, _⟩ | ⟨hmain, _⟩
    · cases hdone.symm.trans hmain
    · cases hdone.symm.trans hmain
  | collecting hmain => cases hdone.symm.trans hmain
  | joining hmain => cases hdone.symm.trans hmain
  | finishing hmain => cases hdone.symm.trans hmain
  | done _ hidle hglobal houtcome => exact ⟨hidle, hdone, _, hglobal, houtcome⟩

/-- Before a save is done its result is not on the global queue. -/
theorem Phase.globalResultsQueue (h : Phase tasks s) (hnot : s.main ≠ .done) :
    s.globalResultsQueue = [] := by
  cases h with
  | working _ _ _ _ _ hglobal => exact hglobal
  | collecting _ _ _ _ _ _ _ hglobal => exact hglobal
  | joining _ _ _ hglobal => exact hglobal
  | finishing _ _ _ hglobal => exact hglobal
  | done hmain => exact absurd hmain hnot

/-- Whatever the order of the steps, every save comes to its end, with one result. -/
theorem Phase.inevitable (h : Phase tasks s) :
    (system str tasks).Inevitable (fun _ _ => True) (Finished tasks) s := by
  by_cases hdone : s.main = .done
  · exact .now (h.of_done hdone).2
  · refine System.Inevitable.of_measure (I := fun s => Phase tasks s ∧ s.main ≠ .done)
      (remaining tasks.length) ?_ ?_ ⟨h, hdone⟩
    · rintro s ⟨hphase, hnot⟩
      obtain ⟨a, t, hstep⟩ : ∃ a t, (system str tasks).step s a = some t :=
        hphase.exists_step hnot
      exact ⟨a, t, trivial, hstep⟩
    · rintro s a t ⟨hphase, _⟩ _ hstep
      have hnext := hphase.step hstep
      by_cases hend : t.main = .done
      · exact .inl (hnext.of_done hend).2
      · refine .inr ⟨⟨hnext, hend⟩, ?_⟩
        cases a with
        | main => exact remaining_mainStep hphase hstep
        | thread i => exact remaining_threadStep hstep

end WriteState

end ResiliencyExt.Checkpointing.AsyncCkpt
