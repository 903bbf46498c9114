import ResiliencyExt.Foundation.Fallible
import ResiliencyExt.Attribution.RestartAgent.AttemptRecords

set_option autoImplicit false

/-!
# Restart agent: the attempt store over its calls

The calls that write to an `InMemoryAttemptRecordStore`: `upsert_attempt`, `replace`,
which clears both dictionaries and starts the insertion numbers again, and `clear`,
which without a job leaves the numbers where they are.  A call that raises leaves the
store as it was.

`normalize_attempt_records` is embedded over what `_attempt_record` makes of one item,
a parameter: the results hold for every reading of the items.

The two `while` loops of the evictions are also given as relations, which hold only of a
loop that ends.
-/

namespace ResiliencyExt.Attribution.RestartAgent

open Foundation List

/-! ## Records from outside -/

/-- `(record.job_id, record.cycle_id)` in ascending order. -/
def keyLE (a b : AttemptRecord) : Prop :=
  a.jobId < b.jobId ∨ a.jobId = b.jobId ∧ a.cycleId ≤ b.cycleId

instance : DecidableRel keyLE := fun _ _ =>
  inferInstanceAs (Decidable (_ ∨ _ ∧ _))

section Normalize

variable {Item : Type} (attemptRecord : Item → Nat → Except String AttemptRecord)

/-- The loop of `normalize_attempt_records` from the item at `index` on, `records` being the
ones before it. -/
def collectRecords : Nat → List AttemptRecord → List Item → Except String (List AttemptRecord)
  | _, records, [] => .ok records
  | index, records, item :: items => do
    let record ← attemptRecord item index
    if record.key ∈ records.map AttemptRecord.key then
      .error ("attempt records contain duplicate job_id/cycle_id record: "
        ++ record.jobId ++ "/" ++ toString record.cycleId)
    else
      collectRecords (index + 1) (records ++ [record]) items

/-- `normalize_attempt_records` -/
def normalizeAttemptRecords (items : List Item) : Except String (List AttemptRecord) := do
  let records ← collectRecords attemptRecord 0 [] items
  return records.insertionSort keyLE

end Normalize

namespace AttemptRecordStore

/-! ## The calls -/

/-- The constructor, with its two checks. -/
def new (maxAttemptsPerJob maxTotalRecords : Int) : Except String AttemptRecordStore :=
  if maxAttemptsPerJob < 1 then .error "max_attempts_per_job must be greater than zero"
  else if maxTotalRecords < 1 then .error "max_total_records must be greater than zero"
  else .ok
    { maxAttemptsPerJob := maxAttemptsPerJob.toNat, maxTotalRecords := maxTotalRecords.toNat }

/-- `_upsert_locked` -/
def upsertLocked (store : AttemptRecordStore) (record : AttemptRecord) : AttemptRecordStore :=
  ((store.insert record).evictPerJob record.jobId).evictTotal

/-- The store as `replace` starts to fill it. -/
def emptied (store : AttemptRecordStore) : AttemptRecordStore :=
  { store with records := Dict.empty, insertionSequence := Dict.empty, nextSequence := 0 }

/-- `clear` -/
def clear (store : AttemptRecordStore) : Option String → AttemptRecordStore
  | none => { store with records := Dict.empty, insertionSequence := Dict.empty }
  | some jobId => (store.records.keys.filter fun key => key.1 = jobId).foldl remove store

section Calls

variable {Item : Type} (attemptRecord : Item → Nat → Except String AttemptRecord)

/-- `replace` -/
def replace (store : AttemptRecordStore) (items : List Item) :
    Except String AttemptRecordStore := do
  let normalized ← normalizeAttemptRecords attemptRecord items
  normalized.forM validateStorableRecord
  return normalized.foldl upsertLocked store.emptied

/-- A call that writes to the store. -/
inductive Call (Item : Type) where
  | upsertAttempt (record : AttemptRecord)
  | replace (items : List Item)
  | clear (jobId : Option String)

def call (store : AttemptRecordStore) : Call Item → Except String AttemptRecordStore
  | .upsertAttempt record => store.upsertAttempt record
  | .replace items => store.replace attemptRecord items
  | .clear jobId => .ok (store.clear jobId)

/-- The store after one call, which may raise. -/
def after (store : AttemptRecordStore) (c : Call Item) : AttemptRecordStore :=
  match store.call attemptRecord c with
  | .ok store' => store'
  | .error _ => store

/-- The store after one call after the other. -/
def run (store : AttemptRecordStore) (calls : List (Call Item)) : AttemptRecordStore :=
  calls.foldl (after attemptRecord) store

end Calls

/-! ## The loops -/

/-- `while len(job_keys) > self._max_attempts_per_job`, from its first test to its last. -/
inductive PerJobLoop : AttemptRecordStore → List RecordKey → AttemptRecordStore → Prop where
  | ends {store : AttemptRecordStore} {jobKeys : List RecordKey}
      (h : jobKeys.length ≤ store.maxAttemptsPerJob) : PerJobLoop store jobKeys store
  | round {store store' : AttemptRecordStore} {key : RecordKey} {jobKeys : List RecordKey}
      (h : store.maxAttemptsPerJob < (key :: jobKeys).length)
      (next : PerJobLoop (store.remove key) jobKeys store') :
      PerJobLoop store (key :: jobKeys) store'

/-- `while len(self._records) > self._max_total_records`, from its first test to its last. -/
inductive TotalLoop : AttemptRecordStore → AttemptRecordStore → Prop where
  | ends {store : AttemptRecordStore}
      (h : store.records.keys.length ≤ store.maxTotalRecords) : TotalLoop store store
  | round {store store' : AttemptRecordStore} {key : RecordKey}
      (h : store.maxTotalRecords < store.records.keys.length) (oldest : store.oldest = some key)
      (next : TotalLoop (store.remove key) store') : TotalLoop store store'

/-- The evictions after `record` is written into `store` end. -/
structure EvictionsEnd (store : AttemptRecordStore) (record : AttemptRecord) : Prop where
  perJob : PerJobLoop (store.insert record) ((store.insert record).jobKeys record.jobId)
    ((store.insert record).evictPerJob record.jobId)
  total : TotalLoop ((store.insert record).evictPerJob record.jobId) (store.upsertLocked record)

/-- Every eviction loop of a call ends. -/
def LoopsEnd {Item : Type} (attemptRecord : Item → Nat → Except String AttemptRecord)
    (store : AttemptRecordStore) : Call Item → Prop
  | .upsertAttempt record => store.EvictionsEnd record
  | .replace items =>
    ∀ normalized, normalizeAttemptRecords attemptRecord items = .ok normalized →
      ∀ written record rest, normalized = written ++ record :: rest →
        (written.foldl upsertLocked store.emptied).EvictionsEnd record
  | .clear _ => True

/-! ## The invariant -/

variable {store : AttemptRecordStore}

/-- The two dictionaries have the same keys, and a record stands under its own key. -/
structure Indexed (store : AttemptRecordStore) : Prop where
  consistent : store.Consistent
  sameKeys : ∀ key, key ∈ store.records.keys ↔ key ∈ store.insertionSequence.keys
  keyed : ∀ key record, store.records.get? key = some record → record.key = key

/-- The store is within its two limits. -/
structure Bounded (store : AttemptRecordStore) : Prop where
  indexed : store.Indexed
  perJob : ∀ jobId, (store.records.keys.filter fun key => key.1 = jobId).length ≤
    store.maxAttemptsPerJob
  total : store.records.keys.length ≤ store.maxTotalRecords

variable {record : AttemptRecord}

variable {stored : AttemptRecordStore} (keys : List RecordKey) (rounds : Nat)

/-- A store with nothing in it, whatever its next insertion number. -/
theorem bounded_of_empty (hrecords : store.records = Dict.empty)
    (hnumbers : store.insertionSequence = Dict.empty) : store.Bounded where
  indexed :=
    { consistent :=
        { numbered := fun key h => by
            rw [hrecords] at h
            cases h
          below := fun key number h => by
            have := Dict.mem_keys_of_get? h
            rw [hnumbers] at this
            cases this
          distinct := fun key key' number h _ => by
            have := Dict.mem_keys_of_get? h
            rw [hnumbers] at this
            cases this }
      sameKeys := fun key => by rw [hrecords, hnumbers]; exact Iff.rfl
      keyed := fun key record h => by
        have := Dict.mem_keys_of_get? h
        rw [hrecords] at this
        cases this }
  perJob := fun jobId => by
    rw [hrecords]
    exact Nat.zero_le _
  total := by
    rw [hrecords]
    exact Nat.zero_le _

/-! ### One removal -/

theorem keys_remove (store : AttemptRecordStore) (key : RecordKey) :
    (store.remove key).records.keys = store.records.keys.filter fun k => k ≠ key := by
  unfold remove
  split
  · exact Dict.keys_erase store.records key
  · exact (Dict.filter_ne_eq_self ‹_›).symm

theorem Indexed.remove (h : store.Indexed) (key : RecordKey) : (store.remove key).Indexed where
  consistent := h.consistent.remove key
  sameKeys := fun k => by
    unfold AttemptRecordStore.remove
    split
    · rw [Dict.mem_keys_erase, Dict.mem_keys_erase, h.sameKeys k]
    · exact h.sameKeys k
  keyed := fun k record hget => h.keyed k record ((trimmed_remove store key).record k record hget)

theorem Indexed.insert (h : store.Indexed) (record : AttemptRecord) :
    (store.insert record).Indexed where
  consistent := h.consistent.insert record
  sameKeys := fun k => by
    rw [mem_keys_insert]
    unfold AttemptRecordStore.insert
    split
    · rename_i hmem
      rw [← h.sameKeys k]
      exact ⟨fun hk => hk.elim (fun heq => heq ▸ hmem) id, .inr⟩
    · rw [Dict.mem_keys_set, ← h.sameKeys k]
  keyed := fun k written hget => by
    rw [get?_insert] at hget
    split at hget
    · rename_i hkey
      rw [← Option.some.inj hget, hkey]
    · exact h.keyed k written hget

/-! ### The per-job eviction -/

theorem perJobLoop_evictKeys :
    ∀ store : AttemptRecordStore, PerJobLoop store keys (store.evictKeys keys) := by
  induction keys with
  | nil => exact fun store => .ends (Nat.zero_le _)
  | cons key keys ih =>
    intro store
    unfold evictKeys
    split
    · exact .round ‹_› (ih (store.remove key))
    · exact .ends (Nat.le_of_not_lt ‹_›)

/-- The per-job eviction drops the first keys of the list, until the rest is within the
limit. -/
theorem keys_evictKeys :
    ∀ store : AttemptRecordStore, (store.evictKeys keys).records.keys =
      store.records.keys.filter fun k =>
        k ∉ keys.take (keys.length - store.maxAttemptsPerJob) := by
  induction keys with
  | nil =>
    intro store
    refine (filter_eq_self.mpr fun k _ => decide_eq_true ?_).symm
    rw [take_nil]
    exact not_mem_nil
  | cons key keys ih =>
    intro store
    unfold evictKeys
    split
    · rename_i hmany
      have htake : (key :: keys).length - store.maxAttemptsPerJob =
          (keys.length - store.maxAttemptsPerJob) + 1 := by
        rw [length_cons] at hmany ⊢
        omega
      rw [ih, (trimmed_remove store key).maxAttemptsPerJob, keys_remove, filter_filter,
        htake, take_succ_cons]
      refine filter_congr fun k _ => ?_
      simp only [mem_cons, not_or, Bool.decide_and, Bool.and_comm]
    · rename_i hfew
      have htake : (key :: keys).length - store.maxAttemptsPerJob = 0 := by omega
      rw [htake]
      exact (filter_eq_self.mpr fun k _ => decide_eq_true not_mem_nil).symm

theorem jobKeys_perm (store : AttemptRecordStore) (jobId : String) :
    (store.jobKeys jobId).Perm (store.records.keys.filter fun key => key.1 = jobId) :=
  perm_insertionSort _ _

/-- After its eviction a job is within its limit. -/
theorem length_evictPerJob (store : AttemptRecordStore) (jobId : String) :
    ((store.evictPerJob jobId).records.keys.filter fun key => key.1 = jobId).length ≤
      store.maxAttemptsPerJob := by
  have hnodup : (store.jobKeys jobId).Nodup :=
    (jobKeys_perm store jobId).nodup_iff.mpr (store.records.nodup_keys.filter _)
  have hdrop : ((store.evictPerJob jobId).records.keys.filter fun key => key.1 = jobId) ⊆
      (store.jobKeys jobId).drop
        ((store.jobKeys jobId).length - store.maxAttemptsPerJob) := by
    intro key hkey
    obtain ⟨hkept, hjob⟩ := mem_filter.mp hkey
    rw [evictPerJob, keys_evictKeys] at hkept
    obtain ⟨hold, hnot⟩ := mem_filter.mp hkept
    have hmem := (jobKeys_perm store jobId).mem_iff.mpr (mem_filter.mpr ⟨hold, hjob⟩)
    rw [← take_append_drop ((store.jobKeys jobId).length - store.maxAttemptsPerJob)
      (store.jobKeys jobId)] at hmem
    exact (mem_append.mp hmem).resolve_left (of_decide_eq_true hnot)
  have hlength := (subperm_of_subset
    ((store.evictPerJob jobId).records.nodup_keys.filter _) hdrop).length_le
  rw [length_drop] at hlength
  omega

/-- A job that is within its limit loses nothing. -/
theorem evictPerJob_of_le (store : AttemptRecordStore) (jobId : String)
    (h : (store.records.keys.filter fun key => key.1 = jobId).length ≤ store.maxAttemptsPerJob) :
    store.evictPerJob jobId = store := by
  rw [← (jobKeys_perm store jobId).length_eq] at h
  unfold evictPerJob
  cases hkeys : store.jobKeys jobId with
  | nil => rfl
  | cons key keys =>
    rw [hkeys] at h
    exact if_neg (Nat.not_lt.mpr h)

/-- What the eviction of a job keeps of the keys of any job is among what was there. -/
theorem keys_evictPerJob_sublist (store : AttemptRecordStore) (jobId : String) :
    ((store.evictPerJob jobId).records.keys).Sublist store.records.keys := by
  rw [evictPerJob, keys_evictKeys]
  exact filter_sublist

theorem Indexed.evictPerJob (h : store.Indexed) (jobId : String) :
    (store.evictPerJob jobId).Indexed :=
  evictKeys_of_remove (fun _ key h => h.remove key) _ store h

/-! ### The total eviction -/

/-- A store that is not empty has an oldest insertion, and it is a record's. -/
theorem Indexed.exists_oldest (h : store.Indexed) (hsome : 0 < store.records.keys.length) :
    ∃ key, store.oldest = some key ∧ key ∈ store.records.keys := by
  obtain ⟨key, hkey⟩ := exists_mem_of_length_pos hsome
  have hnumbered := (h.sameKeys key).mp hkey
  unfold oldest
  cases hmin : store.insertionSequence.entries.argmin Prod.snd with
  | none =>
    rw [argmin_eq_none] at hmin
    rw [Dict.keys, hmin] at hnumbered
    cases hnumbered
  | some e =>
    exact ⟨e.1, rfl, (h.sameKeys e.1).mpr
      (mem_map_of_mem (argmin_mem (Option.mem_def.mpr hmin)))⟩

theorem length_remove {key : RecordKey} (h : key ∈ store.records.keys) :
    (store.remove key).records.keys.length < store.records.keys.length := by
  rw [keys_remove]
  refine length_filter_lt_length_iff_exists.mpr ⟨key, h, ?_⟩
  rw [decide_eq_true_eq]
  exact fun hne => hne rfl

/-- As many rounds as there are records end the total eviction. -/
theorem totalLoop_evictRounds :
    ∀ store : AttemptRecordStore, store.Indexed → store.records.keys.length ≤ rounds →
      TotalLoop store (evictRounds rounds store) := by
  induction rounds with
  | zero =>
    intro store _ hrounds
    exact .ends (Nat.le_trans hrounds (Nat.zero_le _))
  | succ rounds ih =>
    intro store h hrounds
    unfold evictRounds
    split
    · rename_i hmany
      obtain ⟨key, holdest, hkey⟩ := h.exists_oldest (Nat.zero_lt_of_lt hmany)
      rw [holdest]
      refine .round hmany holdest (ih (store.remove key) (h.remove key) ?_)
      exact Nat.le_of_lt_succ (Nat.lt_of_lt_of_le (length_remove hkey) hrounds)
    · exact .ends (Nat.le_of_not_lt ‹_›)

/-- A total eviction that ended left the store within its limit. -/
theorem TotalLoop.length_le {store' : AttemptRecordStore} (h : TotalLoop store store') :
    store'.records.keys.length ≤ store.maxTotalRecords := by
  induction h with
  | ends h => exact h
  | round _ _ _ ih => rwa [(trimmed_remove _ _).maxTotalRecords] at ih

theorem keys_evictRounds_sublist :
    ∀ store : AttemptRecordStore,
      (evictRounds rounds store).records.keys.Sublist store.records.keys := by
  intro store
  refine evictRounds_of_remove (P := fun s => s.records.keys.Sublist store.records.keys)
    (fun s key h => ?_) rounds store (List.Sublist.refl _)
  rw [keys_remove]
  exact filter_sublist.trans h

theorem evictTotal_of_le (store : AttemptRecordStore)
    (h : store.records.keys.length ≤ store.maxTotalRecords) : store.evictTotal = store := by
  unfold evictTotal
  cases store.records.keys.length with
  | zero => rfl
  | succ rounds => exact if_neg (Nat.not_lt.mpr h)

theorem Indexed.evictTotal (h : store.Indexed) : store.evictTotal.Indexed :=
  evictRounds_of_remove (fun _ key h => h.remove key) _ store h

/-! ### A write -/

theorem Indexed.evictionsEnd (h : store.Indexed) (record : AttemptRecord) :
    store.EvictionsEnd record where
  perJob := perJobLoop_evictKeys _ _
  total := totalLoop_evictRounds _ _ ((h.insert record).evictPerJob record.jobId) (Nat.le_refl _)

theorem limits_upsertLocked (store : AttemptRecordStore) (record : AttemptRecord) :
    (store.upsertLocked record).maxAttemptsPerJob = store.maxAttemptsPerJob ∧
      (store.upsertLocked record).maxTotalRecords = store.maxTotalRecords := by
  have htrimmed := (trimmed_evictions (store.insert record) record.jobId).2
  have hinsert := insert_limits store record
  exact ⟨htrimmed.maxAttemptsPerJob.trans hinsert.1, htrimmed.maxTotalRecords.trans hinsert.2⟩

/-- Of the other jobs a write keeps what was there before at most. -/
theorem length_filter_upsertLocked (store : AttemptRecordStore) (record : AttemptRecord)
    {jobId : String} (hjob : jobId ≠ record.jobId) :
    ((store.upsertLocked record).records.keys.filter fun key => key.1 = jobId).length ≤
      (store.records.keys.filter fun key => key.1 = jobId).length := by
  have hsub : ((store.upsertLocked record).records.keys.filter fun key => key.1 = jobId) ⊆
      store.records.keys.filter fun key => key.1 = jobId := by
    intro key hkey
    obtain ⟨hkept, hkeyJob⟩ := mem_filter.mp hkey
    have hinserted := (keys_evictPerJob_sublist _ _).subset
      ((keys_evictRounds_sublist _ _).subset hkept)
    refine mem_filter.mpr ⟨(mem_keys_insert.mp hinserted).resolve_left fun heq => ?_, hkeyJob⟩
    exact hjob ((of_decide_eq_true hkeyJob).symm.trans (congrArg Prod.fst heq))
  exact (subperm_of_subset
    ((store.upsertLocked record).records.nodup_keys.filter _) hsub).length_le

theorem Bounded.upsertLocked (h : store.Bounded) (record : AttemptRecord) :
    (store.upsertLocked record).Bounded where
  indexed := ((h.indexed.insert record).evictPerJob record.jobId).evictTotal
  perJob := fun jobId => by
    rw [(limits_upsertLocked store record).1]
    by_cases hjob : jobId = record.jobId
    · subst hjob
      have hsub := (keys_evictRounds_sublist
        ((store.insert record).evictPerJob record.jobId).records.keys.length
        ((store.insert record).evictPerJob record.jobId)).filter
          fun key => decide (key.1 = record.jobId)
      rw [← (insert_limits store record).1]
      exact Nat.le_trans hsub.length_le (length_evictPerJob _ _)
    · exact Nat.le_trans (length_filter_upsertLocked store record hjob) (h.perJob jobId)
  total := by
    rw [(limits_upsertLocked store record).2, ← (insert_limits store record).2,
      ← (trimmed_evictions (store.insert record) record.jobId).1.maxTotalRecords]
    exact (h.indexed.evictionsEnd record).total.length_le

/-- A key that is written again costs no record. -/
theorem Bounded.upsertLocked_of_mem (h : store.Bounded) (hmem : record.key ∈ store.records.keys) :
    store.upsertLocked record = store.insert record := by
  have hkeys : (store.insert record).records.keys = store.records.keys := by
    rw [insert, if_pos hmem]
    exact Dict.keys_set_of_mem record hmem
  have hlimits := insert_limits store record
  rw [AttemptRecordStore.upsertLocked,
    evictPerJob_of_le _ _ (by rw [hkeys, hlimits.1]; exact h.perJob record.jobId),
    evictTotal_of_le _ (by rw [hkeys, hlimits.2]; exact h.total)]

theorem get?_upsertLocked_of_mem (h : store.Bounded) (hmem : record.key ∈ store.records.keys)
    (key : RecordKey) :
    (store.upsertLocked record).records.get? key =
      if key = record.key then some record else store.records.get? key := by
  rw [h.upsertLocked_of_mem hmem, get?_insert]

theorem upsertAttempt_eq_upsertLocked (h : store.upsertAttempt record = .ok stored) :
    stored = store.upsertLocked record :=
  upsertAttempt_eq h

/-- A record of its job's highest cycle id outlives both evictions. -/
theorem Bounded.get?_upsertAttempt (h : store.Bounded) (hjob : 0 < store.maxAttemptsPerJob)
    (htotal : 0 < store.maxTotalRecords) (hupsert : store.upsertAttempt record = .ok stored)
    (hhighest : ∀ key ∈ store.records.keys, key.1 = record.jobId → key.2 ≤ record.cycleId) :
    stored.records.get? record.key = some record := by
  by_cases hmem : record.key ∈ store.records.keys
  · rw [upsertAttempt_eq_upsertLocked hupsert, get?_upsertLocked_of_mem h hmem, if_pos rfl]
  · have hholds : (store.insert record).Holds record.key store.nextSequence := by
      obtain ⟨number, hholds, hnumber | hold⟩ :=
        h.indexed.consistent.insert_holds_key record
      · exact hnumber ▸ hholds
      · exact absurd hold.1 hmem
    have hnext : stored.nextSequence = store.nextSequence + 1 := by
      rw [(trimmed_upsertAttempt hupsert).nextSequence, insert, if_neg hmem]
    have hkept : stored.Holds record.key store.nextSequence := by
      refine h.indexed.consistent.holds_upsertAttempt hupsert hholds (fun _ => ?_) (by omega)
      -- no other key of the job has a cycle id as high
      have hsub : ((store.insert record).records.keys.filter fun k =>
          k.1 = record.jobId ∧ record.key.2 ≤ k.2) ⊆ [record.key] := by
        intro k hk
        obtain ⟨hk, hcond⟩ := mem_filter.mp hk
        obtain ⟨hkJob, hkCycle⟩ := of_decide_eq_true hcond
        rcases mem_keys_insert.mp hk with rfl | hold
        · exact mem_singleton_self _
        · have hsame : k = record.key :=
            Prod.ext hkJob (Int.le_antisymm (hhighest k hold hkJob) hkCycle)
          exact absurd (hsame ▸ hold) hmem
      exact Nat.le_trans (subperm_of_subset
        ((store.insert record).records.nodup_keys.filter _) hsub).length_le hjob
    obtain ⟨kept, hget⟩ := Dict.exists_get?_of_mem hkept.1
    have hinserted := (trimmed_upsertAttempt hupsert).record record.key kept hget
    rw [get?_insert, if_pos rfl] at hinserted
    rw [hget, ← hinserted]

/-! ### Every call -/

theorem Bounded.foldl_upsertLocked (records : List AttemptRecord) (h : store.Bounded) :
    (records.foldl AttemptRecordStore.upsertLocked store).Bounded :=
  foldlRecOn records AttemptRecordStore.upsertLocked h
    fun _ hstore record _ => hstore.upsertLocked record

theorem bounded_emptied (store : AttemptRecordStore) : store.emptied.Bounded :=
  bounded_of_empty rfl rfl

theorem Bounded.remove (h : store.Bounded) (key : RecordKey) : (store.remove key).Bounded where
  indexed := h.indexed.remove key
  perJob := fun jobId => by
    rw [keys_remove, (trimmed_remove store key).maxAttemptsPerJob]
    exact Nat.le_trans (filter_sublist.filter _).length_le (h.perJob jobId)
  total := by
    rw [keys_remove, (trimmed_remove store key).maxTotalRecords]
    exact Nat.le_trans filter_sublist.length_le h.total

theorem Bounded.clear (h : store.Bounded) (jobId : Option String) : (store.clear jobId).Bounded :=
  match jobId with
  | none => bounded_of_empty rfl rfl
  | some _ =>
    foldlRecOn _ AttemptRecordStore.remove h fun _ hstore key _ => hstore.remove key

section Calls

variable {Item : Type} {attemptRecord : Item → Nat → Except String AttemptRecord}

variable {store' : AttemptRecordStore} {c : Call Item}

theorem replace_eq {items : List Item} (h : store.replace attemptRecord items = .ok store') :
    ∃ normalized, normalizeAttemptRecords attemptRecord items = .ok normalized ∧
      store' = normalized.foldl upsertLocked store.emptied := by
  obtain ⟨normalized, hnormalized, hrest⟩ := Fallible.exists_of_bind_eq_ok h
  obtain ⟨-, -, hstore⟩ := Fallible.exists_of_bind_eq_ok hrest
  exact ⟨normalized, hnormalized, (Except.ok.inj hstore).symm⟩

theorem Bounded.call (h : store.Bounded) (hcall : store.call attemptRecord c = .ok store') :
    store'.Bounded := by
  cases c with
  | upsertAttempt record =>
    rw [upsertAttempt_eq_upsertLocked hcall]
    exact h.upsertLocked record
  | replace items =>
    obtain ⟨normalized, -, rfl⟩ := replace_eq hcall
    exact (bounded_emptied store).foldl_upsertLocked normalized
  | clear jobId =>
    cases hcall
    exact h.clear jobId

/-- The limits are those of the constructor. -/
structure SameLimits (store store' : AttemptRecordStore) : Prop where
  perJob : store'.maxAttemptsPerJob = store.maxAttemptsPerJob
  total : store'.maxTotalRecords = store.maxTotalRecords

theorem SameLimits.foldl {α : Type} {step : AttemptRecordStore → α → AttemptRecordStore}
    (hstep : ∀ s a, SameLimits s (step s a)) (items : List α) (store : AttemptRecordStore) :
    SameLimits store (items.foldl step store) :=
  foldlRecOn items step (⟨rfl, rfl⟩ : SameLimits store store) fun s h a _ =>
    ⟨(hstep s a).perJob.trans h.perJob, (hstep s a).total.trans h.total⟩

theorem sameLimits_call (hcall : store.call attemptRecord c = .ok store') :
    SameLimits store store' := by
  have hupsert : ∀ s record, SameLimits s (s.upsertLocked record) := fun s record =>
    ⟨(limits_upsertLocked s record).1, (limits_upsertLocked s record).2⟩
  cases c with
  | upsertAttempt record =>
    rw [upsertAttempt_eq_upsertLocked hcall]
    exact hupsert store record
  | replace items =>
    obtain ⟨normalized, -, rfl⟩ := replace_eq hcall
    have h := SameLimits.foldl hupsert normalized store.emptied
    exact ⟨h.perJob, h.total⟩
  | clear jobId =>
    cases hcall
    cases jobId with
    | none => exact ⟨rfl, rfl⟩
    | some jobId =>
      exact SameLimits.foldl (fun s key =>
        ⟨(trimmed_remove s key).maxAttemptsPerJob, (trimmed_remove s key).maxTotalRecords⟩) _ _

theorem Bounded.run (h : store.Bounded) (calls : List (Call Item)) :
    (store.run attemptRecord calls).Bounded ∧ SameLimits store (store.run attemptRecord calls) := by
  have hstart : store.Bounded ∧ SameLimits store store := ⟨h, rfl, rfl⟩
  refine foldlRecOn (motive := fun s => s.Bounded ∧ SameLimits store s) calls
    (after attemptRecord) hstart fun s hs c _ => ?_
  unfold after
  split
  · rename_i store' hcall
    have hlimits := sameLimits_call hcall
    exact ⟨hs.1.call hcall, hlimits.perJob.trans hs.2.perJob, hlimits.total.trans hs.2.total⟩
  · exact hs

theorem Bounded.loopsEnd (h : store.Bounded) (c : Call Item) : store.LoopsEnd attemptRecord c := by
  cases c with
  | upsertAttempt record => exact h.indexed.evictionsEnd record
  | replace items =>
    exact fun _ _ written record _ _ =>
      ((bounded_emptied store).foldl_upsertLocked written).indexed.evictionsEnd record
  | clear jobId => trivial

end Calls

/-! ### A prior view -/

/-- The records that a prior view selects, before they are sorted. -/
theorem nodup_priorCycles (h : store.Indexed) (jobId : String) (beforeCycleId : Int) :
    (((store.records.entries.filter fun e =>
      e.1.1 = jobId ∧ e.1.2 < beforeCycleId).map Prod.snd).map AttemptRecord.cycleId).Nodup := by
  rw [map_map]
  refine List.Nodup.map_on (fun e he e' he' heq => ?_) ?_
  · obtain ⟨hmem, hcond⟩ := mem_filter.mp he
    obtain ⟨hmem', hcond'⟩ := mem_filter.mp he'
    have hkey := h.keyed e.1 e.2 (Dict.get?_eq_some_of_mem hmem)
    have hkey' := h.keyed e'.1 e'.2 (Dict.get?_eq_some_of_mem hmem')
    have hjob := (of_decide_eq_true hcond).1.trans (of_decide_eq_true hcond').1.symm
    have hsame : e.1 = e'.1 := by
      refine Prod.ext hjob ?_
      rw [← hkey, ← hkey']
      exact heq
    have hget := Dict.get?_eq_some_of_mem hmem
    rw [hsame, Dict.get?_eq_some_of_mem hmem'] at hget
    exact Prod.ext hsame (Option.some.inj hget).symm
  · exact (List.Nodup.of_map _ store.records.nodup).filter _

/-- A prior view has every record of the job below the cycle id, by cycle id. -/
theorem Bounded.getPriorAttempts (h : store.Bounded) (jobId : String) (beforeCycleId : Int) :
    ((store.getPriorAttempts jobId beforeCycleId).records.map
        AttemptRecord.cycleId).Pairwise (· < ·) ∧
      ∀ record, record ∈ (store.getPriorAttempts jobId beforeCycleId).records ↔
        record.jobId = jobId ∧ record.cycleId < beforeCycleId ∧
          store.records.get? record.key = some record := by
  have hperm := perm_insertionSort
    (fun a b : AttemptRecord => a.cycleId ≤ b.cycleId)
    ((store.records.entries.filter fun e => e.1.1 = jobId ∧ e.1.2 < beforeCycleId).map Prod.snd)
  -- the slice drops nothing, since a job is within its limit
  have hall : (store.getPriorAttempts jobId beforeCycleId).records =
      ((store.records.entries.filter fun e =>
        e.1.1 = jobId ∧ e.1.2 < beforeCycleId).map Prod.snd).insertionSort
          fun a b => a.cycleId ≤ b.cycleId := by
    have hlength : ((store.records.entries.filter fun e =>
        e.1.1 = jobId ∧ e.1.2 < beforeCycleId).map Prod.snd).length ≤
          store.maxAttemptsPerJob := by
      refine Nat.le_trans ?_ (h.perJob jobId)
      rw [length_map, Dict.keys, filter_map, length_map]
      refine (monotone_filter_right _ fun e he => ?_).length_le
      exact decide_eq_true (of_decide_eq_true he).1
    rw [← hperm.length_eq] at hlength
    exact (congrArg (drop · _) (Nat.sub_eq_zero_of_le hlength)).trans drop_zero
  rw [hall]
  constructor
  · have hsorted : ((((store.records.entries.filter fun e =>
        e.1.1 = jobId ∧ e.1.2 < beforeCycleId).map Prod.snd).insertionSort
          fun a b => a.cycleId ≤ b.cycleId).map AttemptRecord.cycleId).Pairwise (· ≤ ·) :=
      pairwise_map.mpr (pairwise_insertionSort _ _)
    have hnodup := ((hperm.map AttemptRecord.cycleId).nodup_iff).mpr
      (nodup_priorCycles h.indexed jobId beforeCycleId)
    exact hsorted.imp₂ (fun _ _ hle hne => lt_of_le_of_ne hle hne) hnodup
  · intro record
    rw [hperm.mem_iff, mem_map]
    constructor
    · rintro ⟨e, he, rfl⟩
      obtain ⟨hmem, hcond⟩ := mem_filter.mp he
      obtain ⟨hjob, hcycle⟩ := of_decide_eq_true hcond
      have hget := Dict.get?_eq_some_of_mem hmem
      have hkey := h.indexed.keyed e.1 e.2 hget
      rw [← hkey] at hjob hcycle hget
      exact ⟨hjob, hcycle, hget⟩
    · rintro ⟨hjob, hcycle, hget⟩
      exact ⟨(record.key, record),
        mem_filter.mpr ⟨Dict.mem_of_get?_eq_some hget, decide_eq_true ⟨hjob, hcycle⟩⟩, rfl⟩

/-! ## The history -/

/-- What holds between two calls. -/
structure KeepsHistory {Item : Type} (attemptRecord : Item → Nat → Except String AttemptRecord)
    (store : AttemptRecordStore) : Prop where
  sameKeys : ∀ key, key ∈ store.records.keys ↔ key ∈ store.insertionSequence.keys
  perJob : ∀ jobId, (store.records.keys.filter fun key => key.1 = jobId).length ≤
    store.maxAttemptsPerJob
  total : store.records.keys.length ≤ store.maxTotalRecords
  /-- The eviction loops of the next call end, whichever call it is. -/
  loopsEnd : ∀ c, store.LoopsEnd attemptRecord c
  /-- A key that is there costs no record of another job. -/
  again : ∀ record stored, store.upsertAttempt record = .ok stored →
    record.key ∈ store.records.keys → ∀ key, key.1 ≠ record.jobId →
      stored.records.get? key = store.records.get? key
  /-- The highest cycle id of its job is kept. -/
  highest : ∀ record stored, store.upsertAttempt record = .ok stored →
    (∀ key ∈ store.records.keys, key.1 = record.jobId → key.2 ≤ record.cycleId) →
      stored.records.get? record.key = some record
  /-- A prior view is in the order of the cycle ids. -/
  ascending : ∀ jobId beforeCycleId,
    ((store.getPriorAttempts jobId beforeCycleId).records.map
      AttemptRecord.cycleId).Pairwise (· < ·)
  /-- A prior view is complete. -/
  prior : ∀ jobId beforeCycleId record,
    record ∈ (store.getPriorAttempts jobId beforeCycleId).records ↔
      record.jobId = jobId ∧ record.cycleId < beforeCycleId ∧
        store.records.get? record.key = some record

theorem new_eq {maxAttemptsPerJob maxTotalRecords : Int}
    (h : new maxAttemptsPerJob maxTotalRecords = .ok store) :
    store.Bounded ∧ 0 < store.maxAttemptsPerJob ∧ 0 < store.maxTotalRecords ∧
      (store.maxAttemptsPerJob : Int) = maxAttemptsPerJob ∧
        (store.maxTotalRecords : Int) = maxTotalRecords := by
  unfold new at h
  split at h
  · cases h
  · split at h
    · cases h
    · cases h
      refine ⟨bounded_of_empty rfl rfl, ?_, ?_, ?_, ?_⟩
      · show 0 < maxAttemptsPerJob.toNat
        omega
      · show 0 < maxTotalRecords.toNat
        omega
      · exact Int.toNat_of_nonneg (by omega)
      · exact Int.toNat_of_nonneg (by omega)

/-- Whatever calls were made of a new store, it keeps the newest bounded history: its two
dictionaries agree, it is within its limits, its evictions end, and nothing is lost that the
limits do not ask for. -/
theorem keepsHistory_run {Item : Type} {attemptRecord : Item → Nat → Except String AttemptRecord}
    {maxAttemptsPerJob maxTotalRecords : Int} {store : AttemptRecordStore}
    (h : new maxAttemptsPerJob maxTotalRecords = .ok store) (calls : List (Call Item)) :
    (store.run attemptRecord calls).KeepsHistory attemptRecord ∧
      ((store.run attemptRecord calls).maxAttemptsPerJob : Int) = maxAttemptsPerJob ∧
      ((store.run attemptRecord calls).maxTotalRecords : Int) = maxTotalRecords := by
  obtain ⟨hnew, hjob, htotal, hperJob, htotals⟩ := new_eq h
  obtain ⟨hrun, hlimits⟩ := @Bounded.run store Item attemptRecord hnew calls
  refine ⟨?_, by rw [hlimits.perJob]; exact hperJob, by rw [hlimits.total]; exact htotals⟩
  exact
    { sameKeys := hrun.indexed.sameKeys
      perJob := hrun.perJob
      total := hrun.total
      loopsEnd := hrun.loopsEnd
      again := fun record stored hupsert hmem key hother => by
        rw [upsertAttempt_eq_upsertLocked hupsert, get?_upsertLocked_of_mem hrun hmem,
          if_neg fun hkey => hother (congrArg Prod.fst hkey)]
      highest := fun record stored => hrun.get?_upsertAttempt
        (by rw [hlimits.perJob]; exact hjob) (by rw [hlimits.total]; exact htotal)
      ascending := fun jobId beforeCycleId => (hrun.getPriorAttempts jobId beforeCycleId).1
      prior := fun jobId beforeCycleId => (hrun.getPriorAttempts jobId beforeCycleId).2 }

/-- The first attempt of a job, written twice and cleared in between. -/
theorem keepsHistory_run_default :
    ∃ store, new 10 3000 = .ok store ∧
      (store.run (fun (record : AttemptRecord) _ => .ok record)
        [.upsertAttempt ⟨"job", 1, {}, ⟨some "oom", some "l0", some .terminal, none, none⟩, []⟩,
          .clear none,
          .replace [⟨"job", 1, {}, ⟨some "oom", some "l0", some .terminal, none, none⟩, []⟩],
          .clear (some "job")]).KeepsHistory fun record _ => .ok record :=
  ⟨_, rfl, (keepsHistory_run (show new 10 3000 = .ok _ from rfl) _).1⟩

end AttemptRecordStore

end ResiliencyExt.Attribution.RestartAgent
