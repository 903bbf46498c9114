import ResiliencyExt.Foundation.Bisection
import ResiliencyExt.FaultTolerance.Rendezvous.Job
set_option autoImplicit false

/-!
# Rendezvous: reading the slots with holes

The host reads every slot up to the number of arrivals.  A participant that has bumped
the count may die before it writes its slot, and a read of several keys waits for the
last of them.  So the slots are probed first, all at once, and when some are missing
they are located by bisection and only the slots that exist are read.

The store is what its keys hold while the snapshot is taken, and a value is decoded by
any decoder that refuses the empty value.
-/

namespace ResiliencyExt.FaultTolerance.Rendezvous

open Foundation List

/-- `_unpack_participant_value` of the values a store may hold, `none` where it raises,
and which of them are falsy. -/
structure SlotCodec (B P : Type) where
  isEmpty : B → Bool
  unpack : B → Option (Int × P)
  /-- The empty text is no JSON document. -/
  unpack_of_isEmpty : ∀ b, isEmpty b = true → unpack b = none

/-- What a call of `get_all_participants` comes to. -/
inductive SnapshotOutcome (P : Type) where
  /-- The list that is returned. -/
  | returned (participants : List (Option P))
  /-- A `ValueError` with its message. -/
  | raised (message : String)
  /-- `multi_get` waits for a key that is not there. -/
  | waits
  deriving DecidableEq, Repr

variable {B P : Type}

/-- `store.check(keys)`: every key exists. -/
def storeCheck (store : String → Option B) (keys : List String) : Bool :=
  keys.all fun key => (store key).isSome

/-- `store.multi_get(keys)`, `none` where it waits. -/
def storeMultiGet (store : String → Option B) (keys : List String) : Option (List B) :=
  keys.mapM store

/-- `_present_slot_keys` -/
def presentSlotKeys (store : String → Option B) (keys : List String) : List String :=
  Bisection.resolve (storeCheck store) keys [(0, keys.length)] []

/-- The key of a slot. -/
def slotKey (keyPrefix : String) (slot : Int) : String :=
  s!"{keyPrefix}:slot_{slot}"

/-- `range(start, stop)` -/
def slotRange (start stop : Int) : List Int :=
  (List.range (stop - start).toNat).map fun (i : Nat) => start + i

/-- `dict(zip(present_keys, present_data))` -/
def dataByKey (keys : List String) (data : List B) : Dict String B :=
  (keys.zip data).foldl (fun d entry => d.set entry.1 entry.2) Dict.empty

/-- The values of the keys, in the order of the keys, `none` where reading waits. -/
def participantData (store : String → Option B) (keys : List String) :
    Option (List (Option B)) :=
  if storeCheck store keys then (storeMultiGet store keys).map fun data => data.map some
  else
    let present := presentSlotKeys store keys
    (if present.isEmpty then some [] else storeMultiGet store present).map fun data =>
      keys.map (dataByKey present data).get?

/-- One entry of the list: missing, malformed and wrong-round values are `none`. -/
def slotEntry (codec : SlotCodec B P) (expectedRoundId : Option Int) (data : Option B) :
    Option P :=
  match data with
  | none => none
  | some value =>
    if codec.isEmpty value then none
    else
      match codec.unpack value with
      | none => none
      | some (roundId, info) =>
        if expectedRoundId.any (roundId != ·) then none else some info

/-- `get_all_participants` -/
def getAllParticipants (store : String → Option B) (codec : SlotCodec B P)
    (keyPrefix : String) (totalParticipants startIndex : Int)
    (expectedRoundId : Option Int) (existingParticipants : Option (List (Option P))) :
    SnapshotOutcome P :=
  if startIndex < 1 then .raised s!"start_index must be >= 1, got {startIndex}"
  else if startIndex > totalParticipants then .returned (existingParticipants.getD [])
  else
    let keys := (slotRange startIndex (totalParticipants + 1)).map (slotKey keyPrefix)
    match participantData store keys with
    | none => .waits
    | some data =>
      .returned (existingParticipants.getD [] ++ data.map (slotEntry codec expectedRoundId))

/-! ## The keys that exist -/

variable {keys : List String} {i : Int} {data : List B}

/-- Every key that exists is found, as often as it was asked for. -/
theorem presentSlotKeys_perm (store : String → Option B) (keys : List String) :
    (presentSlotKeys store keys).Perm (keys.filter fun key => (store key).isSome) :=
  Bisection.resolve_full_perm (fun _ => rfl) keys

theorem mem_presentSlotKeys {store : String → Option B} {key : String} :
    key ∈ presentSlotKeys store keys ↔ key ∈ keys ∧ (store key).isSome = true := by
  rw [(presentSlotKeys_perm store keys).mem_iff, mem_filter]

/-- A slot number is read back from its key. -/
theorem slotKey_injective (keyPrefix : String) {j : Int} (hi : 0 ≤ i) (hj : 0 ≤ j)
    (h : slotKey keyPrefix i = slotKey keyPrefix j) : i = j := by
  obtain ⟨m, rfl⟩ := Int.eq_ofNat_of_zero_le hi
  obtain ⟨n, rfl⟩ := Int.eq_ofNat_of_zero_le hj
  have hdigits : Nat.toDigits 10 m = Nat.toDigits 10 n := by
    have htext := congrArg String.toList h
    simpa [slotKey, toString, Nat.repr, Int.repr] using htext
  have hvalue := congrArg (fun digits => Nat.ofDigitChars 10 digits 0) hdigits
  simp only [Nat.ofDigitChars_ten_toDigits] at hvalue
  rw [hvalue]

theorem mem_slotRange {start stop : Int} : i ∈ slotRange start stop ↔ start ≤ i ∧ i < stop := by
  simp only [slotRange, mem_map, mem_range]
  constructor
  · rintro ⟨k, hk, rfl⟩
    omega
  · rintro ⟨hstart, hstop⟩
    exact ⟨(i - start).toNat, by omega, by omega⟩

theorem length_slotRange (start stop : Int) :
    (slotRange start stop).length = (stop - start).toNat := by
  simp [slotRange]

theorem nodup_slotKeys (keyPrefix : String) {start : Int} (hstart : 1 ≤ start) (stop : Int) :
    ((slotRange start stop).map (slotKey keyPrefix)).Nodup := by
  have hrange : (slotRange start stop).Nodup :=
    nodup_range.map fun m n h => by omega
  refine hrange.map_on fun i hi j hj h => ?_
  rw [mem_slotRange] at hi hj
  exact slotKey_injective keyPrefix (by omega) (by omega) h

/-! ## The values that are read -/

/-- Keys that all exist are read without waiting. -/
theorem storeMultiGet_of_forall {store : String → Option B}
    (h : ∀ key ∈ keys, (store key).isSome = true) :
    ∃ data, storeMultiGet store keys = some data ∧ data.map some = keys.map store := by
  induction keys with
  | nil => exact ⟨[], rfl, rfl⟩
  | cons key keys ih =>
    obtain ⟨data, hdata, hmap⟩ := ih fun k hk => h k (mem_cons_of_mem _ hk)
    obtain ⟨value, hvalue⟩ := Option.isSome_iff_exists.mp (h key mem_cons_self)
    refine ⟨value :: data, ?_, by simp [hvalue, hmap]⟩
    rw [storeMultiGet] at hdata
    simp [storeMultiGet, mapM_cons, hvalue, hdata]

/-- The dictionary of what was read answers for the keys that were read. -/
theorem get?_foldl_set {store : String → Option B} (hdata : data.map some = keys.map store)
    (d : Dict String B) (key : String) :
    ((keys.zip data).foldl (fun d entry => d.set entry.1 entry.2) d).get? key =
      if key ∈ keys then store key else d.get? key := by
  induction keys generalizing data d with
  | nil => simp
  | cons k keys ih =>
    cases data with
    | nil => simp at hdata
    | cons value data =>
      simp only [map_cons, List.cons.injEq] at hdata
      obtain ⟨hvalue, hrest⟩ := hdata
      rw [zip_cons_cons, foldl_cons, ih hrest, Dict.get?_set]
      rcases eq_or_ne key k with rfl | hne
      · simp [hvalue]
      · simp [hne]

theorem get?_dataByKey {store : String → Option B} (hdata : data.map some = keys.map store)
    (key : String) : (dataByKey keys data).get? key = if key ∈ keys then store key else none :=
  get?_foldl_set hdata Dict.empty key

/-- The keys that were found are read without waiting. -/
theorem multiGet_present (store : String → Option B) (keys : List String) :
    ∃ data, (if (presentSlotKeys store keys).isEmpty then some []
        else storeMultiGet store (presentSlotKeys store keys)) = some data ∧
      data.map some = (presentSlotKeys store keys).map store := by
  split_ifs with hnone
  · rw [List.isEmpty_iff] at hnone
    exact ⟨[], rfl, by rw [hnone, map_nil, map_nil]⟩
  · exact storeMultiGet_of_forall fun key hkey => (mem_presentSlotKeys.mp hkey).2

/-- Both paths read what reading every key on its own reads, and neither waits. -/
theorem participantData_eq (store : String → Option B) (keys : List String) :
    participantData store keys = some (keys.map store) := by
  unfold participantData
  split_ifs with hcheck
  · obtain ⟨data, hget, hmap⟩ := storeMultiGet_of_forall (all_eq_true.mp hcheck)
    rw [hget, Option.map_some, hmap]
  · obtain ⟨data, hget, hmap⟩ := multiGet_present store keys
    simp only [hget, Option.map_some, Option.some.injEq]
    refine map_congr_left fun key hkey => ?_
    rw [get?_dataByKey hmap]
    cases hvalue : store key with
    | none => exact ite_self none
    | some value =>
      rw [if_pos (mem_presentSlotKeys.mpr ⟨hkey, by rw [hvalue]; rfl⟩)]

/-- An entry is a participant exactly when the value exists, decodes and carries the
expected round. -/
theorem slotEntry_eq_some {codec : SlotCodec B P} {expected : Option Int} {data : Option B}
    {info : P} :
    slotEntry codec expected data = some info ↔
      ∃ value roundId, data = some value ∧ codec.unpack value = some (roundId, info) ∧
        ∀ round, expected = some round → roundId = round := by
  cases data with
  | none => simp [slotEntry]
  | some value =>
    cases hempty : codec.isEmpty value with
    | true => simp [slotEntry, hempty, codec.unpack_of_isEmpty value hempty]
    | false =>
      cases hunpack : codec.unpack value with
      | none => simp [slotEntry, hempty, hunpack]
      | some decoded =>
        obtain ⟨roundId, found⟩ := decoded
        cases expected with
        | none => simp [slotEntry, hempty, hunpack]
        | some round =>
          rcases eq_or_ne roundId round with rfl | hne
          · simp [slotEntry, hempty, hunpack]
          · simp [slotEntry, hempty, hunpack, hne]

/-! ## The snapshot -/

/-- Reading every slot on its own. -/
def readEachSlot (store : String → Option B) (codec : SlotCodec B P) (keyPrefix : String)
    (totalParticipants startIndex : Int) (expectedRoundId : Option Int) : List (Option P) :=
  (slotRange startIndex (totalParticipants + 1)).map fun slot =>
    slotEntry codec expectedRoundId (store (slotKey keyPrefix slot))

section Snapshot

variable (store : String → Option B) (codec : SlotCodec B P) (keyPrefix : String)
  (total start : Int) (expected : Option Int) (existing : Option (List (Option P)))

/-- Past the last slot the caller's own entries are all there is. -/
theorem getAllParticipants_of_lt (hstart : 1 ≤ start) (htotal : total < start) :
    getAllParticipants store codec keyPrefix total start expected existing =
      .returned (existing.getD []) := by
  rw [getAllParticipants, if_neg (by omega), if_pos htotal]

/-- The caller's own entries are followed by every slot, each read on its own. -/
theorem getAllParticipants_eq (hstart : 1 ≤ start) :
    getAllParticipants store codec keyPrefix total start expected existing =
      .returned (existing.getD [] ++
        readEachSlot store codec keyPrefix total start expected) := by
  rcases lt_or_ge total start with htotal | htotal
  · have hnone : slotRange start (total + 1) = [] :=
      length_eq_zero_iff.mp (by rw [length_slotRange]; omega)
    rw [getAllParticipants_of_lt _ _ _ _ _ _ _ hstart htotal, readEachSlot, hnone,
      map_nil, append_nil]
  · rw [getAllParticipants, if_neg (by omega), if_neg (by omega)]
    simp only [participantData_eq, map_map]
    rfl

theorem length_readEachSlot :
    (readEachSlot store codec keyPrefix total start expected).length =
      (total + 1 - start).toNat := by
  rw [readEachSlot, length_map, length_slotRange]

/-- The entry of a slot, among the entries that follow the caller's own. -/
theorem getElem?_readEachSlot {slot : Int} (hstart : start ≤ slot) (htotal : slot ≤ total) :
    (readEachSlot store codec keyPrefix total start expected)[(slot - start).toNat]? =
      some (slotEntry codec expected (store (slotKey keyPrefix slot))) := by
  have hindex : (slot - start).toNat < (total + 1 - start).toNat := by omega
  have hslot : start + ((slot - start).toNat : Int) = slot := by omega
  simp only [readEachSlot, slotRange, map_map, getElem?_map,
    getElem?_range hindex, Option.map_some, Function.comp_apply, hslot]

/-- A snapshot that goes on from the entries below `start` never waits.  It holds those
entries and one for every slot up to the total, at the slot's index, and that is the
participant whose value exists, decodes and carries the expected round.  Where a slot is
missing, the keys that exist are each found once.  From `start` past the last slot on
there is nothing to read, and the caller's entries are returned. -/
theorem getAllParticipants_exact
    (hexisting : ((existing.getD []).length : Int) = start - 1) :
    (total + 1 < start →
      getAllParticipants store codec keyPrefix total start expected existing =
        .returned (existing.getD [])) ∧
    (start ≤ total + 1 →
      ∃ participants,
        getAllParticipants store codec keyPrefix total start expected existing =
          .returned participants ∧
        (participants.length : Int) = total ∧
        participants = existing.getD [] ++
          readEachSlot store codec keyPrefix total start expected ∧
        ∀ slot, start ≤ slot → slot ≤ total →
          ∃ entry, participants[(slot - 1).toNat]? = some entry ∧
            ∀ info, entry = some info ↔
              ∃ value roundId, store (slotKey keyPrefix slot) = some value ∧
                codec.unpack value = some (roundId, info) ∧
                ∀ round, expected = some round → roundId = round) ∧
    ((slotRange start (total + 1)).map (slotKey keyPrefix)).Nodup ∧
    ∀ keys, (presentSlotKeys store keys).Perm (keys.filter fun key => (store key).isSome) := by
  have hstart : 1 ≤ start := by omega
  refine ⟨fun htotal => ?_, fun htotal => ?_, nodup_slotKeys keyPrefix hstart _,
    presentSlotKeys_perm store⟩
  · exact getAllParticipants_of_lt _ _ _ _ _ _ _ hstart (by omega)
  · refine ⟨_, getAllParticipants_eq store codec keyPrefix total start expected existing hstart,
      ?_, rfl, fun slot hslot hlast => ?_⟩
    · rw [length_append, length_readEachSlot]
      omega
    · have hbehind : (existing.getD []).length ≤ (slot - 1).toNat := by omega
      have hindex : (slot - 1).toNat - (existing.getD []).length = (slot - start).toNat := by
        omega
      refine ⟨slotEntry codec expected (store (slotKey keyPrefix slot)), ?_,
        fun info => slotEntry_eq_some⟩
      rw [getElem?_append_right hbehind, hindex,
        getElem?_readEachSlot store codec keyPrefix total start expected hslot hlast]

end Snapshot

/-! ## The values of a round -/

/-- The round-fenced values, where nothing else is written to a slot. -/
def roundFencedCodec : SlotCodec Bytes Participant where
  isEmpty value := value = .empty
  unpack value := (unpackParticipantValue value).map fun decoded => ((decoded.1 : Int), decoded.2)
  unpack_of_isEmpty value h := by
    rw [decide_eq_true_eq] at h
    rw [h]
    rfl

/-- Slot 2 of three was never written. -/
def slotTwoMissing (key : String) : Option Bytes :=
  if key = "job:slot_1" ∨ key = "job:slot_3" then
    some (.packed (packParticipantValue ⟨⟨key, 1, 0⟩, 0, "none", none⟩ 4))
  else none

/-- Three slots in round 4, the first of them fetched before. -/
theorem getAllParticipants_exact_hole :
    (3 + 1 < (2 : Int) →
      getAllParticipants slotTwoMissing roundFencedCodec "job" 3 2 (some 4) (some [none]) =
        .returned [none]) ∧
    (2 ≤ (3 + 1 : Int) →
      ∃ participants,
        getAllParticipants slotTwoMissing roundFencedCodec "job" 3 2 (some 4) (some [none]) =
          .returned participants ∧
        (participants.length : Int) = 3 ∧
        participants = [none] ++ readEachSlot slotTwoMissing roundFencedCodec "job" 3 2 (some 4) ∧
        ∀ slot, 2 ≤ slot → slot ≤ 3 →
          ∃ entry, participants[(slot - 1).toNat]? = some entry ∧
            ∀ info, entry = some info ↔
              ∃ value roundId, slotTwoMissing (slotKey "job" slot) = some value ∧
                roundFencedCodec.unpack value = some (roundId, info) ∧
                ∀ round, some 4 = some round → roundId = round) ∧
    ((slotRange 2 (3 + 1)).map (slotKey "job")).Nodup ∧
    ∀ keys, (presentSlotKeys slotTwoMissing keys).Perm
      (keys.filter fun key => (slotTwoMissing key).isSome) :=
  getAllParticipants_exact slotTwoMissing roundFencedCodec "job" 3 2 (some 4) (some [none]) rfl

/-- Two entries are on hand and only one slot is asked for: both are returned. -/
theorem not_length_getAllParticipants :
    ¬ ∀ (store : String → Option Bytes) (total start : Int) (expected : Option Int)
        (existing : List (Option Participant)), (existing.length : Int) = start - 1 →
        ∃ participants,
          getAllParticipants store roundFencedCodec "job" total start expected
            (some existing) = .returned participants ∧
          (participants.length : Int) = total := by
  intro h
  obtain ⟨participants, hreturned, hlength⟩ := h slotTwoMissing 1 3 none [none, none] rfl
  have heq : SnapshotOutcome.returned participants = .returned [none, none] :=
    hreturned.symm.trans rfl
  rw [SnapshotOutcome.returned.injEq] at heq
  rw [heq] at hlength
  exact absurd hlength (by decide)

end ResiliencyExt.FaultTolerance.Rendezvous
