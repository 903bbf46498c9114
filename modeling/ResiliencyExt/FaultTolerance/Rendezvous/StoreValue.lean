set_option autoImplicit false

/-!
# Rendezvous: round-fenced store values

Slot and rank keys are reused from round to round, so every value written to
them is wrapped together with the number of the round that wrote it.  The JSON
text of a packed value is represented by the value itself: packing is injective
and unpacking is its inverse.
-/

namespace ResiliencyExt.FaultTolerance.Rendezvous

/-- Describe a node in the rendezvous. -/
structure NodeDesc where
  addr : String
  pid : Nat
  localId : Nat
  deriving DecidableEq, Repr, Inhabited

/-- The dataclass order of `_NodeDesc`: by address, then pid, then local id. -/
def NodeDesc.le (a b : NodeDesc) : Bool :=
  if a.addr = b.addr then
    if a.pid = b.pid then a.localId ≤ b.localId else a.pid < b.pid
  else a.addr < b.addr

/-- Participant metadata stored in a slot. -/
structure Participant where
  nodeDesc : NodeDesc
  infraRank : Int
  domainId : String
  replacementGroupId : Option String
  deriving DecidableEq, Repr, Inhabited

/-- `GroupRankStatus.UNASSIGNED`. -/
def UNASSIGNED : Int := -1

/-- What a round-fenced value carries. -/
inductive Payload where
  /-- `_rank_payload` -/
  | rank (rank : Int) (total : Nat)
  /-- `RendezvousParticipantInfo.to_payload` -/
  | participant (info : Participant)
  deriving DecidableEq, Repr

/-- Round-fenced value wrapper for reused rendezvous keys. -/
structure RendezvousStoreValue where
  round : Nat
  payload : Payload
  deriving DecidableEq, Repr

/-- The bytes of a reused key: the empty string, or a packed value. -/
inductive Bytes where
  | empty
  | packed (value : RendezvousStoreValue)
  deriving DecidableEq, Repr

/-- `_store_value_round`: the embedded round, or `-1` for a malformed value. -/
def storeValueRound : Bytes → Int
  | .empty => -1
  | .packed value => value.round

@[simp] theorem storeValueRound_empty : storeValueRound .empty = -1 := rfl

@[simp] theorem storeValueRound_packed (value : RendezvousStoreValue) :
    storeValueRound (.packed value) = value.round := rfl

/-- `_pack_rank_value`. -/
def packRankValue (rank : Int) (total round : Nat) : RendezvousStoreValue :=
  ⟨round, .rank rank total⟩

/-- `_unpack_rank_value`; `none` stands for the `ValueError`. -/
def unpackRankValue : Bytes → Option (Int × Nat × Nat)
  | .packed ⟨round, .rank rank total⟩ => some (rank, total, round)
  | _ => none

/-- `_pack_participant_value`. -/
def packParticipantValue (info : Participant) (round : Nat) : RendezvousStoreValue :=
  ⟨round, .participant info⟩

/-- `_unpack_participant_value`; `none` stands for the `ValueError`. -/
def unpackParticipantValue : Bytes → Option (Nat × Participant)
  | .packed ⟨round, .participant info⟩ => some (round, info)
  | _ => none

theorem unpackRankValue_eq_some {b : Bytes} {rank : Int} {total round : Nat} :
    unpackRankValue b = some (rank, total, round) ↔
      b = .packed (packRankValue rank total round) := by
  rcases b with _ | ⟨r, _ | _⟩ <;> simp [unpackRankValue, packRankValue]
  constructor
  · rintro ⟨rfl, rfl, rfl⟩
    exact ⟨rfl, rfl, rfl⟩
  · rintro ⟨rfl, rfl, rfl⟩
    exact ⟨rfl, rfl, rfl⟩

theorem unpackParticipantValue_eq_some {b : Bytes} {round : Nat} {info : Participant} :
    unpackParticipantValue b = some (round, info) ↔
      b = .packed (packParticipantValue info round) := by
  rcases b with _ | ⟨r, _ | _⟩ <;> simp [unpackParticipantValue, packParticipantValue]

end ResiliencyExt.FaultTolerance.Rendezvous
