import Mathlib.Data.List.Sort
import Mathlib.Data.List.MinMax
import ResiliencyExt.Foundation.Dict

set_option autoImplicit false

/-!
# Restart agent: attempt records and their bounded store

`InMemoryAttemptRecordStore` of `attempt_records.py`.  A record is kept under its
job and cycle id; a key that is new gets the next insertion number.  After every
write the store drops the smallest cycle ids of the job that wrote while it holds
more than `max_attempts_per_job` of it, and then the oldest insertions of any job
while it holds more than `max_total_records`.

What a trace shows and no decision reads (lines, ranks, nodes and GPUs, the other
progress counters) is left out of the records.
-/

namespace ResiliencyExt.Attribution.RestartAgent

open Foundation List

/-! ## Records -/

inductive FaultOutcome where
  | terminal
  | recovered
  | progressedAfter
  | unresolved
deriving DecidableEq, Repr

inductive AffectedEntityKind where
  | dataPosition
  | artifact
deriving DecidableEq, Repr

/-- The object involved in a failure. -/
structure AffectedEntity where
  kind : AffectedEntityKind
  fingerprint : String
deriving DecidableEq, Repr

/-- `"unknown"`, `"observed"` and `"not_observed"`. -/
inductive ObservationStatus where
  | unknown
  | observed
  | notObserved
deriving DecidableEq, Repr

structure AttemptProgressSummary where
  trainingProgress : ObservationStatus := .unknown
  lastCompletedStep : Option Int := none
  checkpointProgress : ObservationStatus := .unknown
  lastCheckpointStep : Option Int := none
deriving DecidableEq, Repr

structure AttemptFailureFacts where
  rootFingerprint : Option String
  rootFingerprintSource : Option String
  faultOutcome : Option FaultOutcome
  failureIteration : Option Int := none
  affectedEntity : Option AffectedEntity := none
deriving DecidableEq, Repr

/-- One block of facts, from the model route it is named after. -/
structure EnrichedAttemptFacts where
  routeId : String
  facts : AttemptFailureFacts
deriving DecidableEq, Repr

structure AttemptRecord where
  jobId : String
  cycleId : Int
  progress : AttemptProgressSummary
  deterministic : AttemptFailureFacts
  enriched : List EnrichedAttemptFacts := []
deriving DecidableEq, Repr

/-- `(job_id, cycle_id)` -/
abbrev RecordKey := String × Int

def AttemptRecord.key (record : AttemptRecord) : RecordKey :=
  (record.jobId, record.cycleId)

/-- The earlier records that one invocation compares itself with. -/
structure PriorAttemptView where
  records : List AttemptRecord := []
  available : Bool := false
  availabilityReason : String := "history_disabled"
deriving DecidableEq, Repr

/-- `with_enriched`: the block replaces the one of its route. -/
def AttemptRecord.withEnriched (record : AttemptRecord) (routeId : String)
    (facts : AttemptFailureFacts) : AttemptRecord :=
  let entries : List EnrichedAttemptFacts :=
    (record.enriched.filter fun entry => entry.routeId ≠ routeId) ++ [⟨routeId, facts⟩]
  { record with enriched := entries.insertionSort fun a b => a.routeId ≤ b.routeId }

/-- A text that is there and not empty. -/
def truthy (text : Option String) : Bool :=
  match text with
  | none => false
  | some text => text ≠ ""

/-- `_validate_storable_record`; cycle ids are integers by type. -/
def validateStorableRecord (record : AttemptRecord) : Except String Unit :=
  if record.jobId = "" then .error "AttemptRecord job_id is required"
  else if !truthy record.deterministic.rootFingerprint then
    .error "AttemptRecord deterministic root_fingerprint is required"
  else if !truthy record.deterministic.rootFingerprintSource then
    .error "AttemptRecord deterministic root_fingerprint_source is required"
  else if record.deterministic.faultOutcome = none then
    .error "AttemptRecord deterministic fault_outcome is required"
  else
    match record.enriched.find? fun entry => entry.facts.faultOutcome = none with
    | some entry =>
      .error ("AttemptRecord enriched[" ++ entry.routeId ++ "] fault_outcome is required")
    | none => .ok ()

/-! ## The store -/

structure AttemptRecordStore where
  maxAttemptsPerJob : Nat
  maxTotalRecords : Nat
  records : Dict RecordKey AttemptRecord := Dict.empty
  insertionSequence : Dict RecordKey Nat := Dict.empty
  nextSequence : Nat := 0
  evictionCount : Nat := 0

namespace AttemptRecordStore

variable (store : AttemptRecordStore)

/-- `_remove_locked` -/
def remove (key : RecordKey) : AttemptRecordStore :=
  if key ∈ store.records.keys then
    { store with
      records := store.records.erase key
      insertionSequence := store.insertionSequence.erase key
      evictionCount := store.evictionCount + 1 }
  else store

/-- The keys of a job, by cycle id. -/
def jobKeys (jobId : String) : List RecordKey :=
  (store.records.keys.filter fun key => key.1 = jobId).insertionSort fun a b => a.2 ≤ b.2

/-- The loop of `_evict_per_job` over the job's sorted keys. -/
def evictKeys (store : AttemptRecordStore) : List RecordKey → AttemptRecordStore
  | [] => store
  | key :: keys =>
    if store.maxAttemptsPerJob < (key :: keys).length then evictKeys (store.remove key) keys
    else store

/-- `_evict_per_job` -/
def evictPerJob (jobId : String) : AttemptRecordStore :=
  store.evictKeys (store.jobKeys jobId)

/-- `min(self._insertion_sequence, key=self._insertion_sequence.__getitem__)` -/
def oldest : Option RecordKey :=
  (store.insertionSequence.entries.argmin Prod.snd).map Prod.fst

/-- The loop of `_evict_total`; every round drops one record, so that as many rounds as there
are records are enough. -/
def evictRounds : Nat → AttemptRecordStore → AttemptRecordStore
  | 0, store => store
  | rounds + 1, store =>
    if store.maxTotalRecords < store.records.keys.length then
      match store.oldest with
      | some key => evictRounds rounds (store.remove key)
      | none => store
    else store

/-- `_evict_total` -/
def evictTotal : AttemptRecordStore :=
  evictRounds store.records.keys.length store

/-- Write a record under its key, which takes an insertion number if it is new. -/
def insert (record : AttemptRecord) : AttemptRecordStore :=
  if record.key ∈ store.records.keys then
    { store with records := store.records.set record.key record }
  else
    { store with
      records := store.records.set record.key record
      insertionSequence := store.insertionSequence.set record.key store.nextSequence
      nextSequence := store.nextSequence + 1 }

/-- `upsert_attempt` -/
def upsertAttempt (record : AttemptRecord) : Except String AttemptRecordStore :=
  match validateStorableRecord record with
  | .error message => .error message
  | .ok () => .ok ((store.insert record).evictPerJob record.jobId).evictTotal

/-- `get_prior_attempts` -/
def getPriorAttempts (jobId : String) (beforeCycleId : Int) : PriorAttemptView :=
  let records := ((store.records.entries.filter fun e =>
    e.1.1 = jobId ∧ e.1.2 < beforeCycleId).map Prod.snd).insertionSort fun a b =>
      a.cycleId ≤ b.cycleId
  { records := records.drop (records.length - store.maxAttemptsPerJob)
    available := true
    availabilityReason := "ready" }

/-! ## What the store holds -/

variable {store}

/-- A record under the key, with its insertion number. -/
def Holds (store : AttemptRecordStore) (key : RecordKey) (number : Nat) : Prop :=
  key ∈ store.records.keys ∧ store.insertionSequence.get? key = some number

/-- Every record has an insertion number, and no two have the same. -/
structure Consistent (store : AttemptRecordStore) : Prop where
  numbered : ∀ key ∈ store.records.keys, ∃ number, store.Holds key number
  below : ∀ key number, store.insertionSequence.get? key = some number →
    number < store.nextSequence
  distinct : ∀ key key' number, store.insertionSequence.get? key = some number →
    store.insertionSequence.get? key' = some number → key = key'

/-- A store that was trimmed: its limits and counters stay, and what it still holds is as it
was. -/
structure Trimmed (store trimmed : AttemptRecordStore) : Prop where
  maxAttemptsPerJob : trimmed.maxAttemptsPerJob = store.maxAttemptsPerJob
  maxTotalRecords : trimmed.maxTotalRecords = store.maxTotalRecords
  nextSequence : trimmed.nextSequence = store.nextSequence
  record : ∀ key record, trimmed.records.get? key = some record →
    store.records.get? key = some record

variable {key : RecordKey} {number : Nat}

theorem Trimmed.refl (store : AttemptRecordStore) : Trimmed store store :=
  ⟨rfl, rfl, rfl, fun _ _ h => h⟩

theorem Trimmed.trans {first second third : AttemptRecordStore} (h : Trimmed first second)
    (h' : Trimmed second third) : Trimmed first third where
  maxAttemptsPerJob := h'.maxAttemptsPerJob.trans h.maxAttemptsPerJob
  maxTotalRecords := h'.maxTotalRecords.trans h.maxTotalRecords
  nextSequence := h'.nextSequence.trans h.nextSequence
  record := fun key record hget => h.record key record (h'.record key record hget)

/-! ### One removal -/

theorem trimmed_remove (store : AttemptRecordStore) (key : RecordKey) :
    Trimmed store (store.remove key) := by
  unfold remove
  split
  · exact ⟨rfl, rfl, rfl, fun _ _ => Dict.get?_of_get?_erase⟩
  · exact .refl store

theorem Holds.remove {key' : RecordKey} (h : store.Holds key number) (hne : key ≠ key') :
    (store.remove key').Holds key number := by
  unfold AttemptRecordStore.remove
  split
  · refine ⟨Dict.mem_keys_erase.mpr ⟨h.1, hne⟩, ?_⟩
    rw [Dict.get?_erase_of_ne _ hne]
    exact h.2
  · exact h

theorem Consistent.remove (h : store.Consistent) (key : RecordKey) :
    (store.remove key).Consistent := by
  refine ⟨fun key' hmem => ?_, fun key' number hget => ?_, fun key' key'' number hget hget' => ?_⟩
  · by_cases hkey : key ∈ store.records.keys
    · rw [AttemptRecordStore.remove, if_pos hkey] at hmem
      obtain ⟨hold, hne⟩ := Dict.mem_keys_erase.mp hmem
      obtain ⟨number, hholds⟩ := h.numbered key' hold
      exact ⟨number, hholds.remove hne⟩
    · rw [AttemptRecordStore.remove, if_neg hkey] at hmem ⊢
      exact h.numbered key' hmem
  · have hsame := (trimmed_remove store key).nextSequence
    rw [hsame]
    unfold AttemptRecordStore.remove at hget
    split at hget
    · exact h.below key' number (Dict.get?_of_get?_erase hget)
    · exact h.below key' number hget
  · unfold AttemptRecordStore.remove at hget hget'
    split at hget
    · rw [if_pos ‹_›] at hget'
      exact h.distinct key' key'' number (Dict.get?_of_get?_erase hget)
        (Dict.get?_of_get?_erase hget')
    · rw [if_neg ‹_›] at hget'
      exact h.distinct key' key'' number hget hget'

/-! ### The two evictions -/

/-- What every removal preserves the per-job eviction preserves. -/
theorem evictKeys_of_remove {P : AttemptRecordStore → Prop}
    (hremove : ∀ store key, P store → P (store.remove key)) (keys : List RecordKey) :
    ∀ store : AttemptRecordStore, P store → P (store.evictKeys keys) := by
  induction keys with
  | nil => exact fun _ h => h
  | cons key keys ih =>
    intro store h
    unfold evictKeys
    split
    · exact ih _ (hremove store key h)
    · exact h

/-- What every removal preserves the total eviction preserves. -/
theorem evictRounds_of_remove {P : AttemptRecordStore → Prop}
    (hremove : ∀ store key, P store → P (store.remove key)) (rounds : Nat) :
    ∀ store : AttemptRecordStore, P store → P (evictRounds rounds store) := by
  induction rounds with
  | zero => exact fun _ h => h
  | succ rounds ih =>
    intro store h
    unfold evictRounds
    split
    · split
      · exact ih _ (hremove store _ h)
      · exact h
    · exact h

/-- A key is left alone by the per-job eviction when at most `max_attempts_per_job` of the
job's keys, itself among them, have its cycle id or a later one. -/
theorem Holds.evictKeys {keys : List RecordKey} (hsorted : keys.Pairwise fun a b => a.2 ≤ b.2) :
    ∀ {store : AttemptRecordStore}, store.Holds key number →
      (key ∈ keys → (keys.filter fun k => key.2 ≤ k.2).length ≤ store.maxAttemptsPerJob) →
        (store.evictKeys keys).Holds key number := by
  induction keys with
  | nil => exact fun h _ => h
  | cons first rest ih =>
    intro store h hfew
    obtain ⟨hfirst, hrest⟩ := pairwise_cons.mp hsorted
    unfold AttemptRecordStore.evictKeys
    split
    · rename_i hmany
      have hne : key ≠ first := by
        rintro rfl
        have hall : ((key :: rest).filter fun k => key.2 ≤ k.2) = key :: rest := by
          refine filter_eq_self.mpr fun k hk => decide_eq_true ?_
          rcases mem_cons.mp hk with rfl | hk
          · exact Int.le_refl _
          · exact hfirst k hk
        have := hfew mem_cons_self
        rw [hall] at this
        omega
      refine ih hrest (h.remove hne) fun hmem => ?_
      rw [(trimmed_remove store first).maxAttemptsPerJob]
      refine Nat.le_trans ?_ (hfew (mem_cons_of_mem _ hmem))
      exact ((sublist_cons_self first rest).filter _).length_le
    · exact h

/-- The oldest insertion is not one of the last `max_total_records` when the store holds more
records than that. -/
theorem Consistent.oldest_ne (hstore : store.Consistent) {oldest : RecordKey}
    (h : store.Holds key number) (hrecent : store.nextSequence ≤ number + store.maxTotalRecords)
    (hmany : store.maxTotalRecords < store.records.keys.length)
    (holdest : store.oldest = some oldest) : key ≠ oldest := by
  rintro rfl
  obtain ⟨e, hmin, hkey⟩ := Option.map_eq_some_iff.mp holdest
  have hmem : e ∈ store.insertionSequence.entries := argmin_mem hmin
  have hnumber : e.2 = number := by
    have := Dict.get?_eq_some_of_mem hmem
    rw [hkey, h.2] at this
    exact (Option.some.inj this).symm
  -- every record is numbered from `number` on, with different numbers
  let numberOf : RecordKey → Nat := fun k => (store.insertionSequence.get? k).getD 0
  have hnumberOf : ∀ k ∈ store.records.keys,
      store.insertionSequence.get? k = some (numberOf k) := by
    intro k hk
    obtain ⟨n, hn⟩ := hstore.numbered k hk
    simp only [numberOf, hn.2, Option.getD_some]
  have hnodup : (store.records.keys.map numberOf).Nodup := by
    refine List.Nodup.map_on (fun k hk k' hk' heq => ?_) store.records.nodup_keys
    exact hstore.distinct k k' _ (hnumberOf k hk) (heq ▸ hnumberOf k' hk')
  have hsubset : store.records.keys.map numberOf ⊆
      range' number (store.nextSequence - number) := by
    intro n hn
    obtain ⟨k, hk, rfl⟩ := mem_map.mp hn
    have hget := hnumberOf k hk
    have hlow : number ≤ numberOf k := by
      have := le_of_mem_argmin (Dict.mem_of_get?_eq_some hget) hmin
      rwa [hnumber] at this
    have hhigh := hstore.below k _ hget
    exact mem_range'_1.mpr ⟨hlow, by omega⟩
  have hlength := (subperm_of_subset hnodup hsubset).length_le
  rw [length_map, length_range'] at hlength
  omega

/-- The total eviction leaves alone what is among the last `max_total_records` insertions. -/
theorem Holds.evictRounds (rounds : Nat) :
    ∀ {store : AttemptRecordStore}, store.Consistent → store.Holds key number →
      store.nextSequence ≤ number + store.maxTotalRecords →
        (evictRounds rounds store).Holds key number := by
  induction rounds with
  | zero => exact fun _ h _ => h
  | succ rounds ih =>
    intro store hstore h hrecent
    unfold AttemptRecordStore.evictRounds
    split
    · rename_i hmany
      split
      · rename_i oldest holdest
        have htrimmed := trimmed_remove store oldest
        refine ih (hstore.remove oldest)
          (h.remove (hstore.oldest_ne h hrecent hmany holdest)) ?_
        rw [htrimmed.nextSequence, htrimmed.maxTotalRecords]
        exact hrecent
      · exact h
    · exact h

/-! ### A write -/

variable {record : AttemptRecord}

variable {key : RecordKey} {stored : AttemptRecordStore}

theorem insert_limits (store : AttemptRecordStore) (record : AttemptRecord) :
    (store.insert record).maxAttemptsPerJob = store.maxAttemptsPerJob ∧
      (store.insert record).maxTotalRecords = store.maxTotalRecords := by
  unfold insert
  split
  · exact ⟨rfl, rfl⟩
  · exact ⟨rfl, rfl⟩

theorem get?_insert (store : AttemptRecordStore) (record : AttemptRecord) (key : RecordKey) :
    (store.insert record).records.get? key =
      if key = record.key then some record else store.records.get? key := by
  unfold insert
  split
  · exact Dict.get?_set _ _ _ _
  · exact Dict.get?_set _ _ _ _

theorem mem_keys_insert :
    key ∈ (store.insert record).records.keys ↔ key = record.key ∨ key ∈ store.records.keys := by
  unfold insert
  split
  · exact Dict.mem_keys_set
  · exact Dict.mem_keys_set

theorem nextSequence_le_insert (store : AttemptRecordStore) (record : AttemptRecord) :
    store.nextSequence ≤ (store.insert record).nextSequence := by
  unfold insert
  split
  · exact Nat.le_refl _
  · exact Nat.le_succ _

theorem Holds.insert {number : Nat} (h : store.Holds key number) :
    (store.insert record).Holds key number := by
  refine ⟨mem_keys_insert.mpr (.inr h.1), ?_⟩
  unfold AttemptRecordStore.insert
  split
  · exact h.2
  · rename_i hnew
    have hne : key ≠ record.key := fun heq => hnew (heq ▸ h.1)
    exact (Dict.get?_set_of_ne _ _ hne).trans h.2

/-- What was written is held, under its old number or under a new one. -/
theorem Consistent.insert_holds_key (hstore : store.Consistent) (record : AttemptRecord) :
    ∃ number, (store.insert record).Holds record.key number ∧
      (number = store.nextSequence ∨ store.Holds record.key number) := by
  by_cases hkey : record.key ∈ store.records.keys
  · obtain ⟨number, h⟩ := hstore.numbered _ hkey
    exact ⟨number, h.insert, .inr h⟩
  · refine ⟨store.nextSequence, ⟨mem_keys_insert.mpr (.inl rfl), ?_⟩, .inl rfl⟩
    rw [AttemptRecordStore.insert, if_neg hkey]
    exact Dict.get?_set_self _ _ _

theorem Consistent.insert (hstore : store.Consistent) (record : AttemptRecord) :
    (store.insert record).Consistent := by
  by_cases hkey : record.key ∈ store.records.keys
  · have hsame : (store.insert record).insertionSequence = store.insertionSequence ∧
        (store.insert record).nextSequence = store.nextSequence := by
      rw [AttemptRecordStore.insert, if_pos hkey]
      exact ⟨rfl, rfl⟩
    refine ⟨fun key hmem => ?_, ?_, ?_⟩
    · rcases mem_keys_insert.mp hmem with rfl | hold
      · obtain ⟨number, h, -⟩ := hstore.insert_holds_key record
        exact ⟨number, h⟩
      · obtain ⟨number, h⟩ := hstore.numbered key hold
        exact ⟨number, h.insert⟩
    · rw [hsame.1, hsame.2]
      exact hstore.below
    · rw [hsame.1]
      exact hstore.distinct
  · have hnew : (store.insert record).insertionSequence =
          store.insertionSequence.set record.key store.nextSequence ∧
        (store.insert record).nextSequence = store.nextSequence + 1 := by
      rw [AttemptRecordStore.insert, if_neg hkey]
      exact ⟨rfl, rfl⟩
    refine ⟨fun key hmem => ?_, fun key number hget => ?_, fun key key' number hget hget' => ?_⟩
    · rcases mem_keys_insert.mp hmem with rfl | hold
      · obtain ⟨number, h, -⟩ := hstore.insert_holds_key record
        exact ⟨number, h⟩
      · obtain ⟨number, h⟩ := hstore.numbered key hold
        exact ⟨number, h.insert⟩
    · rw [hnew.1, Dict.get?_set] at hget
      rw [hnew.2]
      split at hget
      · have := Option.some.inj hget
        omega
      · exact Nat.lt_succ_of_lt (hstore.below key number hget)
    · rw [hnew.1, Dict.get?_set] at hget hget'
      split at hget
      · split at hget'
        · rename_i heq heq'
          exact heq.trans heq'.symm
        · have := hstore.below key' number hget'
          have := Option.some.inj hget
          omega
      · split at hget'
        · have := hstore.below key number hget
          have := Option.some.inj hget'
          omega
        · exact hstore.distinct key key' number hget hget'

theorem upsertAttempt_eq (h : store.upsertAttempt record = .ok stored) :
    stored = ((store.insert record).evictPerJob record.jobId).evictTotal := by
  unfold upsertAttempt at h
  split at h
  · cases h
  · exact (Except.ok.inj h).symm

theorem trimmed_evictions (store : AttemptRecordStore) (jobId : String) :
    Trimmed store (store.evictPerJob jobId) ∧
      Trimmed store (store.evictPerJob jobId).evictTotal := by
  have hremove : ∀ s key, Trimmed store s → Trimmed store (s.remove key) := fun s key h =>
    h.trans (trimmed_remove s key)
  have hjob := evictKeys_of_remove hremove (store.jobKeys jobId) store (.refl store)
  exact ⟨hjob, evictRounds_of_remove hremove _ _ hjob⟩

theorem trimmed_upsertAttempt (h : store.upsertAttempt record = .ok stored) :
    Trimmed (store.insert record) stored := by
  rw [upsertAttempt_eq h]
  exact (trimmed_evictions _ _).2

theorem Consistent.evictPerJob (hstore : store.Consistent) (jobId : String) :
    (store.evictPerJob jobId).Consistent :=
  evictKeys_of_remove (fun _ key h => h.remove key) _ store hstore

theorem Consistent.upsertAttempt (hstore : store.Consistent)
    (h : store.upsertAttempt record = .ok stored) : stored.Consistent := by
  rw [upsertAttempt_eq h]
  exact evictRounds_of_remove (fun _ key h => h.remove key) _ _
    ((hstore.insert record).evictPerJob record.jobId)

/-- A write leaves a key alone when the job that wrote has at most `max_attempts_per_job` keys
with its cycle id or a later one, and it is among the last `max_total_records` insertions. -/
theorem Consistent.holds_upsertAttempt (hstore : store.Consistent) {number : Nat}
    (h : store.upsertAttempt record = .ok stored)
    (hholds : (store.insert record).Holds key number)
    (hfew : key.1 = record.jobId →
      ((store.insert record).records.keys.filter fun k =>
        k.1 = record.jobId ∧ key.2 ≤ k.2).length ≤ store.maxAttemptsPerJob)
    (hrecent : stored.nextSequence ≤ number + store.maxTotalRecords) :
    stored.Holds key number := by
  obtain ⟨hlimit, htotal⟩ := insert_limits store record
  have hnext := (trimmed_upsertAttempt h).nextSequence
  rw [hnext] at hrecent
  rw [upsertAttempt_eq h]
  have hjob : ((store.insert record).evictPerJob record.jobId).Holds key number := by
    refine hholds.evictKeys (pairwise_insertionSort _ _) fun hmem => ?_
    rw [hlimit]
    have hperm := perm_insertionSort (fun a b : RecordKey => a.2 ≤ b.2)
      ((store.insert record).records.keys.filter fun k => k.1 = record.jobId)
    have hkey : key.1 = record.jobId := by
      simpa using (mem_filter.mp (hperm.mem_iff.mp hmem)).2
    refine Nat.le_trans (Nat.le_of_eq ?_) (hfew hkey)
    rw [(hperm.filter _).length_eq, filter_filter]
    congr 1
    refine filter_congr fun k _ => ?_
    rw [Bool.decide_and, Bool.and_comm]
  have htrimmed := (trimmed_evictions (store.insert record) record.jobId).1
  refine hjob.evictRounds _ ((hstore.insert record).evictPerJob record.jobId) ?_
  rw [htrimmed.nextSequence, htrimmed.maxTotalRecords, htotal]
  exact hrecent

/-! ### A prior view -/

/-- The keys of the job's records before a cycle id. -/
def priorKeys (store : AttemptRecordStore) (jobId : String) (beforeCycleId : Int) :
    List RecordKey :=
  store.records.keys.filter fun key => key.1 = jobId ∧ key.2 < beforeCycleId

theorem mem_getPriorAttempts {jobId : String} {beforeCycleId : Int} {prior : AttemptRecord}
    (h : prior ∈ (store.getPriorAttempts jobId beforeCycleId).records) :
    ∃ key, store.records.get? key = some prior ∧ key.1 = jobId := by
  have hsorted := mem_of_mem_drop h
  obtain ⟨e, he, rfl⟩ := mem_map.mp ((perm_insertionSort _ _).mem_iff.mp hsorted)
  obtain ⟨hmem, hjob⟩ := mem_filter.mp he
  exact ⟨e.1, Dict.get?_eq_some_of_mem hmem, (of_decide_eq_true hjob).1⟩

theorem length_getPriorAttempts (store : AttemptRecordStore) (jobId : String)
    (beforeCycleId : Int) : (store.getPriorAttempts jobId beforeCycleId).records.length =
      min (store.priorKeys jobId beforeCycleId).length store.maxAttemptsPerJob := by
  have hkeys : (store.priorKeys jobId beforeCycleId).length =
      (store.records.entries.filter fun e => e.1.1 = jobId ∧ e.1.2 < beforeCycleId).length := by
    rw [priorKeys, Dict.keys, filter_map, length_map]
    rfl
  simp only [getPriorAttempts, length_drop, (perm_insertionSort _ _).length_eq,
    length_map, hkeys]
  omega

end AttemptRecordStore

end ResiliencyExt.Attribution.RestartAgent
