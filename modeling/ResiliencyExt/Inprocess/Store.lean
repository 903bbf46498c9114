import Mathlib.Data.List.Dedup
import ResiliencyExt.Foundation.Text

set_option autoImplicit false

/-!
# Inprocess: the store and its mixin

A store keeps a byte string under each key.  `PrefixStore` gives every restart
iteration keys of its own in the same base store.  The mixin's operations are
functions from the store before to the store after; those that can raise
return the exception beside the store, because what they appended before they
failed stays there.

Byte strings hold ASCII text only, and stand for the text they decode to.  The
difference matters where a value that came out of the store is rendered by
`str` again, so values that reach such places are `PyValue`s.
-/

namespace ResiliencyExt.Inprocess

open Foundation List

/-! ## Keys and primitive operations -/

/-- The groups that `functools.partialmethod` makes of the two barriers. -/
inductive BarrierGroup where
  | initialBarrier
  | completionBarrier
  | iterationBarrier
  | terminationBarrier
  deriving DecidableEq, Repr

/-- The keys of `StoreMixin`. -/
inductive StoreKey where
  | anyRankInterrupted
  | interruptionRecords
  | interruptionRecordsLock
  | terminatedRanks
  | initialRank (rank : Nat)
  | arrived (group : BarrierGroup)
  | lastWorkerArrived (group : BarrierGroup)
  deriving DecidableEq, Repr

/-- The base store itself, or the `PrefixStore` of an iteration. -/
inductive StoreScope where
  | base
  | iteration (iteration : Nat)
  deriving DecidableEq, Repr

/-- What each key holds; `none` before the key is first written. -/
abbrev Store := StoreScope → StoreKey → Option (List Char)

inductive StoreError where
  /-- `ValueError` of `int` on an entry that is no integer literal. -/
  | valueError
  /-- `BarrierOverflow` -/
  | barrierOverflow
  /-- A read of a key that is never set gives up after the store's timeout. -/
  | storeTimeout
  deriving DecidableEq, Repr

/-- Elements of the `ranks` arguments: integers, or values read from the store. -/
inductive PyValue where
  | int (value : Nat)
  | bytes (text : List Char)
  deriving DecidableEq, Repr

/-- `str(value)` -/
def PyValue.str : PyValue → List Char
  | .int value => Text.decimal value
  | .bytes text => Text.bytesLiteral text

namespace Store

def set (store : Store) (scope : StoreScope) (key : StoreKey) (value : List Char) : Store :=
  fun scope' key' => if scope' = scope ∧ key' = key then some value else store scope' key'

/-- The text under a key, empty when the key is absent. -/
def text (store : Store) (scope : StoreScope) (key : StoreKey) : List Char :=
  (store scope key).getD []

/-- `append` creates an absent key. -/
def append (store : Store) (scope : StoreScope) (key : StoreKey) (value : List Char) : Store :=
  store.set scope key (store.text scope key ++ value)

/-- `add` counts up from zero and returns the new count. -/
def add (store : Store) (scope : StoreScope) (key : StoreKey) (amount : Nat) : Store × Nat :=
  let count := ((Text.parseInt (store.text scope key)).getD 0).toNat + amount
  (store.set scope key (Text.decimal count), count)

/-- `multi_get` waits for all of its keys. -/
def multiGet (store : Store) (scope : StoreScope) (keys : List StoreKey) :
    Except StoreError (List PyValue) :=
  keys.mapM fun key =>
    match store scope key with
    | some value => .ok (.bytes value)
    | none => .error .storeTimeout

theorem set_of_ne (store : Store) {scope scope' : StoreScope} {key key' : StoreKey}
    (value : List Char) (h : key' ≠ key ∨ scope' ≠ scope) :
    store.set scope key value scope' key' = store scope' key' := by
  have hne : ¬ (scope' = scope ∧ key' = key) := by
    rintro ⟨hscope, hkey⟩
    rcases h with h | h
    · exact h hkey
    · exact h hscope
  rw [set, if_neg hne]

theorem append_of_ne (store : Store) {scope scope' : StoreScope} {key key' : StoreKey}
    (value : List Char) (h : key' ≠ key ∨ scope' ≠ scope) :
    store.append scope key value scope' key' = store scope' key' :=
  store.set_of_ne _ h

@[simp] theorem text_append_self (store : Store) (scope : StoreScope) (key : StoreKey)
    (value : List Char) :
    (store.append scope key value).text scope key = store.text scope key ++ value := by
  simp [append, text, set]

end Store

/-! ## Interruption records -/

/-- `Interruption`, in declaration order from 1. -/
inductive Interruption where
  | exception
  | baseException
  | softTimeout
  | hardTimeout
  | terminated
  | unresponsive
  | monitorProcessException
  deriving DecidableEq, Repr

/-- The `repr` of a member of `Interruption`. -/
def Interruption.repr : Interruption → String
  | .exception => "<Interruption.EXCEPTION: 1>"
  | .baseException => "<Interruption.BASE_EXCEPTION: 2>"
  | .softTimeout => "<Interruption.SOFT_TIMEOUT: 3>"
  | .hardTimeout => "<Interruption.HARD_TIMEOUT: 4>"
  | .terminated => "<Interruption.TERMINATED: 5>"
  | .unresponsive => "<Interruption.UNRESPONSIVE: 6>"
  | .monitorProcessException => "<Interruption.MONITOR_PROCESS_EXCEPTION: 7>"

structure InterruptionRecord where
  rank : Nat
  interruption : Interruption
  deriving DecidableEq, Repr

/-- `str(record)` of the dataclass. -/
def InterruptionRecord.str (record : InterruptionRecord) : List Char :=
  "InterruptionRecord(rank=".toList ++ Text.decimal record.rank ++
    ", interruption=".toList ++ record.interruption.repr.toList ++ [')']

/-- `record_interrupted(records)` -/
def recordInterrupted (store : Store) (scope : StoreScope)
    (records : List InterruptionRecord) : Store :=
  let store := store.append scope .interruptionRecords []
  let lock := store.add scope .interruptionRecordsLock 0
  let recordsAreLocked := lock.2 ≠ 0
  let store :=
    if recordsAreLocked then lock.1
    else lock.1.append scope .interruptionRecords
      (Text.join ';' (records.map InterruptionRecord.str) ++ [';'])
  store.set scope .anyRankInterrupted []

variable {store : Store} {scope : StoreScope} {group : BarrierGroup} {arrivals : List (List Nat)}

variable {records : List (List Nat)} {scope' : StoreScope} {key : StoreKey}

/-- Recording an interruption touches three keys of its own scope only. -/
theorem recordInterrupted_of_ne (store : Store) (scope : StoreScope)
    (records : List InterruptionRecord)
    (h : key ≠ .interruptionRecords ∧ key ≠ .interruptionRecordsLock ∧ key ≠ .anyRankInterrupted) :
    recordInterrupted store scope records scope' key = store scope' key := by
  obtain ⟨hrecords, hlock, hany⟩ := h
  unfold recordInterrupted
  rw [Store.set_of_ne _ _ (Or.inl hany)]
  split
  · simp only [Store.add]
    rw [Store.set_of_ne _ _ (Or.inl hlock), Store.append_of_ne _ _ (Or.inl hrecords)]
  · simp only [Store.add]
    rw [Store.append_of_ne _ _ (Or.inl hrecords), Store.set_of_ne _ _ (Or.inl hlock),
      Store.append_of_ne _ _ (Or.inl hrecords)]

/-! ## Ranks in the store -/

/-- `set_initial_rank` -/
def setInitialRank (store : Store) (scope : StoreScope) (rank initialRank : Nat) : Store :=
  store.set scope (.initialRank rank) (Text.decimal initialRank)

/-- `get_initial_ranks`: the values as the store returns them. -/
def getInitialRanks (store : Store) (scope : StoreScope) (ranks : List Nat) :
    Except StoreError (List PyValue) :=
  store.multiGet scope (ranks.map .initialRank)

/-- `record_terminated_ranks` -/
def recordTerminatedRanks (store : Store) (scope : StoreScope) (ranks : List PyValue) : Store :=
  let ranksStr := Text.join ',' (ranks.map PyValue.str)
  if ranksStr = [] then store
  else store.append scope .terminatedRanks (ranksStr ++ [','])

/-- `get_terminated_ranks`; the list stands for the set of its elements. -/
def getTerminatedRanks (store : Store) (scope : StoreScope) : Except StoreError (List Int) :=
  match Text.parseInts ',' (store.text scope .terminatedRanks) with
  | some ranks => .ok ranks
  | none => .error .valueError

theorem recordTerminatedRanks_of_ne (store : Store) (scope : StoreScope) (ranks : List PyValue)
    (h : key ≠ .terminatedRanks) :
    recordTerminatedRanks store scope ranks scope' key = store scope' key := by
  unfold recordTerminatedRanks
  split
  · rfl
  · exact Store.append_of_ne _ _ (Or.inl h)

/-- Recording ranks extends the log of records by one entry. -/
theorem text_recordTerminatedRanks_int
    (h : store.text scope .terminatedRanks = Text.entries records) {ranks : List Nat}
    (hne : ranks ≠ []) :
    (recordTerminatedRanks store scope (ranks.map .int)).text scope .terminatedRanks =
      Text.entries (records ++ [ranks]) := by
  have hstr : (ranks.map PyValue.int).map PyValue.str = ranks.map Text.decimal := by
    simp [PyValue.str]
  have hjoin : Text.join ',' (ranks.map Text.decimal) ≠ [] := by
    intro hnil
    have hwords := Text.words_decimal_entry ranks
    rw [Text.entry, hnil] at hwords
    have hlength := congrArg List.length hwords
    rw [show Text.words ',' ([] ++ [',']) = [] from rfl] at hlength
    simp only [length_nil, length_map] at hlength
    exact hne (length_eq_zero_iff.mp hlength.symm)
  rw [recordTerminatedRanks, hstr, if_neg hjoin, Store.text_append_self, h]
  simp [Text.entries, Text.entry]

/-- A log of records reads back as the ranks that were recorded. -/
theorem getTerminatedRanks_entries (h : store.text scope .terminatedRanks = Text.entries records) :
    getTerminatedRanks store scope =
      .ok (records.flatten.map fun rank : Nat => (rank : Int)) := by
  rw [getTerminatedRanks, h, Text.parseInts_entries]

/-! ## The reentrant barrier -/

/-- `set([int(r) for r in self.get_packed(arrived_key, ',') if r.strip()])`; the
list has no duplicates, so its length is the size of the set. -/
def arrivedRanks (store : Store) (scope : StoreScope) (group : BarrierGroup) :
    Except StoreError (List Int) :=
  match Text.parseInts ',' (store.text scope (.arrived group)) with
  | some ranks => .ok ranks.dedup
  | none => .error .valueError

/-- `is_rank_at_reentrant_barrier` -/
def isRankAtReentrantBarrier (store : Store) (scope : StoreScope) (rank : Nat)
    (group : BarrierGroup) : Store × Except StoreError Bool :=
  let store := store.append scope (.arrived group) []
  (store, (arrivedRanks store scope group).map fun arrived => decide ((rank : Int) ∈ arrived))

/-- The append with which `reentrant_barrier` announces `ranks`. -/
def arrive (store : Store) (scope : StoreScope) (ranks : List PyValue)
    (group : BarrierGroup) : Store :=
  store.append scope (.arrived group) (Text.entry ',' (ranks.map PyValue.str))

/-- What `reentrant_barrier` does after its append, up to the wait for the last
worker: a call with a zero timeout does not wait and ends here. -/
def checkArrived (store : Store) (scope : StoreScope) (group : BarrierGroup)
    (rendezvousCount : Nat) : Store × Except StoreError Unit :=
  match arrivedRanks store scope group with
  | .error error => (store, .error error)
  | .ok arrived =>
    if arrived.length > rendezvousCount then (store, .error .barrierOverflow)
    else if arrived.length = rendezvousCount then
      (store.set scope (.lastWorkerArrived group) ['1'], .ok ())
    else (store, .ok ())

/-- `reentrant_barrier` with a zero timeout. -/
def reentrantBarrier (store : Store) (scope : StoreScope) (ranks : List PyValue)
    (group : BarrierGroup) (rendezvousCount : Nat) : Store × Except StoreError Unit :=
  checkArrived (arrive store scope ranks group) scope group rendezvousCount

/-! ## What the barrier's entries read back as -/

@[simp] theorem text_arrive (store : Store) (scope : StoreScope) (ranks : List PyValue)
    (group : BarrierGroup) :
    (arrive store scope ranks group).text scope (.arrived group) =
      store.text scope (.arrived group) ++ Text.entry ',' (ranks.map PyValue.str) := by
  simp [arrive]

/-- The check after the append changes no arrived list. -/
theorem text_checkArrived (store : Store) (scope : StoreScope)
    (group : BarrierGroup) (rendezvousCount : Nat) (scope' : StoreScope) (key : StoreKey)
    (h : key ≠ .lastWorkerArrived group) :
    (checkArrived store scope group rendezvousCount).1 scope' key = store scope' key := by
  unfold checkArrived
  split
  · rfl
  · split
    · rfl
    · split
      · exact Store.set_of_ne _ _ (Or.inl h)
      · rfl

/-- Integer ranks extend the log of arrivals by one entry. -/
theorem text_arrive_int (h : store.text scope (.arrived group) = Text.entries arrivals)
    (ranks : List Nat) :
    (arrive store scope (ranks.map .int) group).text scope (.arrived group) =
      Text.entries (arrivals ++ [ranks]) := by
  have hstr : (ranks.map PyValue.int).map PyValue.str = ranks.map Text.decimal := by
    simp [PyValue.str]
  rw [text_arrive, h, hstr]
  simp [Text.entries]

/-- Later integer arrivals extend the log one by one. -/
theorem text_foldl_arrive (later : List (List Nat)) :
    ∀ {store : Store} {arrivals : List (List Nat)},
      store.text scope (.arrived group) = Text.entries arrivals →
      (later.foldl (fun store ranks => arrive store scope (ranks.map .int) group)
        store).text scope (.arrived group) = Text.entries (arrivals ++ later) := by
  induction later with
  | nil =>
    intro store arrivals h
    simpa using h
  | cons ranks later ih =>
    intro store arrivals h
    have hstep := ih (text_arrive_int h ranks)
    simpa using hstep

/-- A log of integer arrivals reads back as the distinct ranks that arrived. -/
theorem arrivedRanks_entries (h : store.text scope (.arrived group) = Text.entries arrivals) :
    arrivedRanks store scope group =
      .ok (arrivals.flatten.map fun rank : Nat => (rank : Int)).dedup := by
  rw [arrivedRanks, h, Text.parseInts_entries]

/-- A value rendered from bytes makes the arrived list unreadable. -/
theorem arrivedRanks_arrive_bytes (h : store.text scope (.arrived group) = Text.entries arrivals)
    {texts : List (List Char)} (hne : texts ≠ [])
    (hcomma : ∀ text ∈ texts, ',' ∉ Text.bytesLiteral text) :
    arrivedRanks (arrive store scope (texts.map .bytes) group) scope group =
      .error .valueError := by
  obtain ⟨text, hmem⟩ := exists_mem_of_ne_nil texts hne
  have hwords : Text.words ',' (Text.entry ',' ((texts.map PyValue.bytes).map PyValue.str)) =
      (texts.map PyValue.bytes).map PyValue.str := by
    refine Text.words_entry ?_ ?_
    · intro w hw
      simp only [map_map, mem_map, Function.comp_apply] at hw
      obtain ⟨t, ht, rfl⟩ := hw
      exact hcomma t ht
    · intro w hw
      simp only [map_map, mem_map, Function.comp_apply] at hw
      obtain ⟨t, _, rfl⟩ := hw
      exact Text.strip_bytesLiteral_ne_nil t
  have hliteral : Text.bytesLiteral text ∈
      Text.words ',' ((arrive store scope (texts.map .bytes) group).text scope
        (.arrived group)) := by
    rw [text_arrive, h, Text.words_append (Text.closed_entries arrivals), hwords]
    simp only [map_map, mem_append, mem_map, Function.comp_apply]
    exact Or.inr ⟨text, hmem, rfl⟩
  rw [arrivedRanks, Text.parseInts_eq_none hliteral (Text.parseInt_bytesLiteral text)]

end ResiliencyExt.Inprocess
