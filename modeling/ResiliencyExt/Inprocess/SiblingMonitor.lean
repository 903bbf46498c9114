import Mathlib.Data.List.Perm.Subperm
import ResiliencyExt.Inprocess.Store

set_option autoImplicit false

/-!
# Inprocess: the sibling monitor

A sibling monitor that finds other ranks unresponsive announces them at two
reentrant barriers: by rank at the iteration barrier, and by initial rank at the
termination barrier of the base store.  It reads the initial ranks from the
store, which returns byte strings, and hands them on as they came.

`str` of a byte string is its literal, so the entry that reaches the termination
barrier is not a list of integers.  `terminate_unresponsive_ranks_reads_back_iff`
says exactly when the announcement can be read back: when there is nothing to
announce.
-/

namespace ResiliencyExt.Inprocess

open Foundation List

/-- The fields of `SiblingMonitor` that its checks read.  Its store is the
`PrefixStore` of `iteration`; times are in microseconds, as in `timedelta`. -/
structure SiblingMonitor where
  iteration : Nat
  worldSize : Nat
  initialWorldSize : Nat
  siblingRank : Nat
  timeout : Int
  seenUnresponsiveRanks : List Nat

namespace SiblingMonitor

/-- `terminate_unresponsive_ranks` -/
def terminateUnresponsiveRanks (monitor : SiblingMonitor) (store : Store)
    (unresponsiveRanks : List Nat) : Store × Except StoreError Unit :=
  let scope := StoreScope.iteration monitor.iteration
  let store := recordInterrupted store scope
    (unresponsiveRanks.map fun rank => ⟨rank, .unresponsive⟩)
  let store := recordTerminatedRanks store scope (unresponsiveRanks.map .int)
  match reentrantBarrier store scope (unresponsiveRanks.map .int) .iterationBarrier
      monitor.worldSize with
  | (store, .error error) => (store, .error error)
  | (store, .ok ()) =>
    match getInitialRanks store scope unresponsiveRanks with
    | .error error => (store, .error error)
    | .ok unresponsiveInitialRanks =>
      reentrantBarrier store .base unresponsiveInitialRanks .terminationBarrier
        monitor.initialWorldSize

/-! ## The stores a monitor meets -/

/-- What earlier calls left in the store: arrivals at both barriers that were
announced as integers, and the initial rank of each rank in question as
`set_initial_rank` writes it. -/
structure MeetsStore (monitor : SiblingMonitor) (store : Store)
    (iterationArrivals terminationArrivals : List (List Nat)) (initialRank : Nat → Nat)
    (ranks : List Nat) : Prop where
  iterationText : store.text (.iteration monitor.iteration) (.arrived .iterationBarrier) =
    Text.entries iterationArrivals
  iterationWorld : ∀ rank ∈ iterationArrivals.flatten, rank < monitor.worldSize
  terminationText : store.text .base (.arrived .terminationBarrier) =
    Text.entries terminationArrivals
  stored : ∀ rank ∈ ranks, store (.iteration monitor.iteration) (.initialRank rank) =
    some (Text.decimal (initialRank rank))
  world : ∀ rank ∈ ranks, rank < monitor.worldSize

/-- The announcement of `ranks` can be read back: the values it renders parse to
the initial ranks, the call does not fail to parse, and however many processes
arrive later, the barrier's list reads as the distinct initial ranks that
arrived. -/
def ReadsBack (monitor : SiblingMonitor) (store : Store)
    (terminationArrivals : List (List Nat)) (initialRank : Nat → Nat) (ranks : List Nat) :
    Prop :=
  let call := monitor.terminateUnresponsiveRanks store ranks
  ((getInitialRanks store (.iteration monitor.iteration) ranks).map fun values =>
    values.map fun value => Text.parseInt value.str) =
      .ok (ranks.map fun rank => some (initialRank rank : Int)) ∧
  call.2 ≠ .error .valueError ∧
  ∀ later : List (List Nat),
    arrivedRanks (later.foldl (fun store ranks =>
        arrive store .base (ranks.map .int) .terminationBarrier) call.1)
      .base .terminationBarrier =
    .ok (((terminationArrivals ++ [ranks.map initialRank] ++ later).flatten.map
      fun rank : Nat => (rank : Int)).dedup)

/-! ## The two announcements -/

/-- The store after the records, before the iteration barrier. -/
def recorded (monitor : SiblingMonitor) (store : Store) (ranks : List Nat) : Store :=
  let scope := StoreScope.iteration monitor.iteration
  recordTerminatedRanks
    (recordInterrupted store scope (ranks.map fun rank => ⟨rank, .unresponsive⟩))
    scope (ranks.map .int)

variable {monitor : SiblingMonitor} {store : Store} {ranks : List Nat} {scope : StoreScope}
    {iterationArrivals terminationArrivals : List (List Nat)} {initialRank : Nat → Nat}

/-- The records leave barrier lists and initial ranks alone. -/
theorem recorded_of_ne (monitor : SiblingMonitor) (store : Store) (ranks : List Nat)
    {key : StoreKey} (h : (∃ group, key = .arrived group) ∨ ∃ rank, key = .initialRank rank) :
    monitor.recorded store ranks scope key = store scope key := by
  have hkey : key ≠ .terminatedRanks ∧ key ≠ .interruptionRecords ∧
      key ≠ .interruptionRecordsLock ∧ key ≠ .anyRankInterrupted := by
    rcases h with ⟨group, rfl⟩ | ⟨rank, rfl⟩ <;> simp
  rw [recorded, recordTerminatedRanks_of_ne _ _ _ hkey.1, recordInterrupted_of_ne _ _ _ hkey.2]

/-- Integers below the world size never overflow the iteration barrier. -/
theorem iteration_barrier_ok
    (h : monitor.MeetsStore store iterationArrivals terminationArrivals initialRank ranks) :
    (reentrantBarrier (monitor.recorded store ranks) (.iteration monitor.iteration)
      (ranks.map .int) .iterationBarrier monitor.worldSize).2 = .ok () := by
  have hstart : (monitor.recorded store ranks).text (.iteration monitor.iteration)
      (.arrived .iterationBarrier) = Text.entries iterationArrivals := by
    rw [Store.text, recorded_of_ne _ _ _ (Or.inl ⟨_, rfl⟩)]
    exact h.iterationText
  have harrived := arrivedRanks_entries (text_arrive_int hstart ranks)
  have hcount : ((iterationArrivals ++ [ranks]).flatten.map
      fun rank : Nat => (rank : Int)).dedup.length ≤ monitor.worldSize := by
    have hsub : ((iterationArrivals ++ [ranks]).flatten.map
          fun rank : Nat => (rank : Int)).dedup ⊆
        map (fun rank : Nat => (rank : Int)) (List.range monitor.worldSize) := by
      intro value hvalue
      obtain ⟨rank, hrank, rfl⟩ := mem_map.mp (mem_dedup.mp hvalue)
      refine mem_map.mpr ⟨rank, mem_range.mpr ?_, rfl⟩
      simp only [flatten_append, mem_append] at hrank
      rcases hrank with hrank | hrank
      · exact h.iterationWorld rank hrank
      · exact h.world rank (by simpa using hrank)
    have hlength := (subperm_of_subset (nodup_dedup _) hsub).length_le
    rwa [length_map, length_range] at hlength
  rw [reentrantBarrier, checkArrived, harrived]
  simp only [gt_iff_lt]
  rw [if_neg (Nat.not_lt.mpr hcount)]
  split <;> rfl

/-- The store at the termination barrier: its list and the initial ranks are as
they were before the call. -/
def afterIterationBarrier (monitor : SiblingMonitor) (store : Store) (ranks : List Nat) :
    Store :=
  (reentrantBarrier (monitor.recorded store ranks) (.iteration monitor.iteration)
    (ranks.map .int) .iterationBarrier monitor.worldSize).1

theorem afterIterationBarrier_of_ne (monitor : SiblingMonitor) (store : Store) (ranks : List Nat)
    {key : StoreKey} (h : key = .arrived .terminationBarrier ∨ ∃ rank, key = .initialRank rank) :
    monitor.afterIterationBarrier store ranks scope key = store scope key := by
  have hlast : key ≠ .lastWorkerArrived .iterationBarrier := by
    rcases h with rfl | ⟨rank, rfl⟩ <;> simp
  have harrived : key ≠ .arrived .iterationBarrier := by
    rcases h with rfl | ⟨rank, rfl⟩ <;> simp
  have hkey : (∃ group, key = .arrived group) ∨ ∃ rank, key = .initialRank rank :=
    h.imp (fun heq => ⟨_, heq⟩) id
  rw [afterIterationBarrier, reentrantBarrier, text_checkArrived _ _ _ _ _ _ hlast, arrive,
    Store.append_of_ne _ _ (Or.inl harrived), recorded_of_ne _ _ _ hkey]

/-- Stored initial ranks come back as the bytes of their decimal text. -/
theorem getInitialRanks_eq
    (h : ∀ rank ∈ ranks, store scope (.initialRank rank) = some (Text.decimal (initialRank rank))) :
    getInitialRanks store scope ranks =
      .ok ((ranks.map fun rank => Text.decimal (initialRank rank)).map .bytes) := by
  unfold getInitialRanks Store.multiGet
  induction ranks with
  | nil => rfl
  | cons rank rest ih =>
    rw [map_cons, mapM_cons, h rank mem_cons_self,
      ih fun r hr => h r (mem_cons_of_mem rank hr)]
    rfl

/-- The call reaches the termination barrier with those bytes. -/
theorem terminateUnresponsiveRanks_eq
    (h : monitor.MeetsStore store iterationArrivals terminationArrivals initialRank ranks) :
    monitor.terminateUnresponsiveRanks store ranks =
      reentrantBarrier (monitor.afterIterationBarrier store ranks) .base
        ((ranks.map fun rank => Text.decimal (initialRank rank)).map .bytes)
        .terminationBarrier monitor.initialWorldSize := by
  have hbytes : getInitialRanks (monitor.afterIterationBarrier store ranks)
      (.iteration monitor.iteration) ranks =
      .ok ((ranks.map fun rank => Text.decimal (initialRank rank)).map .bytes) := by
    refine getInitialRanks_eq fun rank hrank => ?_
    rw [afterIterationBarrier_of_ne _ _ _ (Or.inr ⟨rank, rfl⟩)]
    exact h.stored rank hrank
  have hbarrier := iteration_barrier_ok h
  have hsplit : reentrantBarrier (monitor.recorded store ranks)
      (.iteration monitor.iteration) (ranks.map .int) .iterationBarrier monitor.worldSize =
      (monitor.afterIterationBarrier store ranks, .ok ()) := Prod.ext rfl hbarrier
  simp only [recorded] at hsplit
  simp only [terminateUnresponsiveRanks, hsplit, hbytes]

/-- The termination barrier's list when the call gets there. -/
theorem MeetsStore.text_afterIterationBarrier
    (h : monitor.MeetsStore store iterationArrivals terminationArrivals initialRank ranks) :
    (monitor.afterIterationBarrier store ranks).text .base (.arrived .terminationBarrier) =
      Text.entries terminationArrivals := by
  rw [Store.text, afterIterationBarrier_of_ne _ _ _ (Or.inl rfl)]
  exact h.terminationText

/-- Announcing anyone fails to parse, and leaves the entry behind. -/
theorem terminateUnresponsiveRanks_of_ne_nil
    (h : monitor.MeetsStore store iterationArrivals terminationArrivals initialRank ranks)
    (hne : ranks ≠ []) :
    (monitor.terminateUnresponsiveRanks store ranks).2 = .error .valueError := by
  have hcomma : ∀ text ∈ ranks.map fun rank => Text.decimal (initialRank rank),
      ',' ∉ Text.bytesLiteral text := by
    intro text htext
    obtain ⟨rank, _, rfl⟩ := mem_map.mp htext
    exact Text.comma_not_mem_bytesLiteral_decimal (initialRank rank)
  have hpoisoned :=
    arrivedRanks_arrive_bytes h.text_afterIterationBarrier (by simpa using hne) hcomma
  rw [terminateUnresponsiveRanks_eq h, reentrantBarrier, checkArrived, hpoisoned]

/-- Announcing nobody appends an entry without words. -/
theorem text_terminateUnresponsiveRanks_nil
    (h : monitor.MeetsStore store iterationArrivals terminationArrivals initialRank []) :
    (monitor.terminateUnresponsiveRanks store []).1.text .base
      (.arrived .terminationBarrier) = Text.entries (terminationArrivals ++ [[]]) := by
  rw [terminateUnresponsiveRanks_eq h, reentrantBarrier, Store.text,
    text_checkArrived _ _ _ _ _ _ (by simp)]
  exact text_arrive_int h.text_afterIterationBarrier []

theorem terminateUnresponsiveRanks_nil_ne_valueError
    (h : monitor.MeetsStore store iterationArrivals terminationArrivals initialRank []) :
    (monitor.terminateUnresponsiveRanks store []).2 ≠ .error .valueError := by
  have harrived := arrivedRanks_entries (text_arrive_int h.text_afterIterationBarrier [])
  rw [terminateUnresponsiveRanks_eq h, reentrantBarrier, checkArrived, map_nil,
    map_nil]
  rw [map_nil] at harrived
  rw [harrived]
  dsimp only
  split
  · simp
  · split <;> simp

/-! ## When the announcement can be read back -/

/-- The announcement of unresponsive ranks reads back exactly when there are
none; `check_heartbeats` calls it only when there are some. -/
theorem terminate_unresponsive_ranks_reads_back_iff {monitor : SiblingMonitor}
    {store : Store} {iterationArrivals terminationArrivals : List (List Nat)}
    {initialRank : Nat → Nat} {ranks : List Nat}
    (h : monitor.MeetsStore store iterationArrivals terminationArrivals initialRank ranks) :
    monitor.ReadsBack store terminationArrivals initialRank ranks ↔ ranks = [] := by
  constructor
  · rintro ⟨_, hparsed, _⟩
    by_cases hne : ranks = []
    · exact hne
    · exact absurd (terminateUnresponsiveRanks_of_ne_nil h hne) hparsed
  · rintro rfl
    refine ⟨rfl, terminateUnresponsiveRanks_nil_ne_valueError h, fun later => ?_⟩
    have hlater := text_foldl_arrive later (text_terminateUnresponsiveRanks_nil h)
    exact arrivedRanks_entries hlater

/-! ## Two ranks, one of them unresponsive -/

/-- Rank 0 watches rank 1 in the first iteration. -/
def pairMonitor : SiblingMonitor where
  iteration := 0
  worldSize := 2
  initialWorldSize := 2
  siblingRank := 1
  timeout := 60
  seenUnresponsiveRanks := []

/-- The store after both ranks have set their initial ranks. -/
def pairStore : Store :=
  setInitialRank (setInitialRank (fun _ _ => none) (.iteration 0) 0 0) (.iteration 0) 1 1

theorem pairMonitor_meetsStore : pairMonitor.MeetsStore pairStore [] [] id [1] where
  iterationText := rfl
  iterationWorld := by simp
  terminationText := rfl
  stored := by
    intro rank hrank
    obtain rfl := mem_singleton.mp hrank
    rfl
  world := by simp [pairMonitor]

theorem terminate_unresponsive_ranks_reads_back_iff_pair :
    pairMonitor.ReadsBack pairStore [] id [1] ↔ ([1] : List Nat) = [] :=
  terminate_unresponsive_ranks_reads_back_iff pairMonitor_meetsStore

/-- Rank 1 stops sending heartbeats: rank 0's announcement raises `ValueError`. -/
theorem unresponsive_sibling_poisons_barrier :
    pairMonitor.MeetsStore pairStore [] [] id [1] ∧
      (pairMonitor.terminateUnresponsiveRanks pairStore [1]).1.text .base
        (.arrived .terminationBarrier) = "b'1',".toList ∧
      ¬ pairMonitor.ReadsBack pairStore [] id [1] := by
  refine ⟨pairMonitor_meetsStore, by decide, fun hread => hread.2.1 ?_⟩
  decide

end SiblingMonitor

end ResiliencyExt.Inprocess
