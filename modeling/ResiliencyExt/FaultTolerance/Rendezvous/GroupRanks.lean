import Mathlib
import ResiliencyExt.Foundation.Dict
import ResiliencyExt.FaultTolerance.Rendezvous.StoreValue

set_option autoImplicit false

/-!
# Rendezvous: selection and group ranks

What the store host computes from a snapshot of the slots before it closes a
round: which participants are active candidates, whether they can fill the world
in whole segments, and the group rank of everybody.  These functions touch no
store.  `assignGroupRanks_injective` is the fact the protocol needs of them: no
two nodes get the same rank.
-/

namespace ResiliencyExt.FaultTolerance.Rendezvous

open Foundation

/-- The exceptions of the selection and of the assignment. -/
inductive RankError where
  /-- `RuntimeError`: a segment is configured and the participant has no domain. -/
  | domainRequired (addr : String)
  /-- `RuntimeError`: a participant is in both buckets. -/
  | activeAndStandby
  /-- `RuntimeError` -/
  | duplicateInfraRanks
  /-- `ValueError` -/
  | notDivisible (worldSize segment : Nat)
  /-- `RuntimeError` -/
  | insufficientNodes (activeSegments activeRank numSegments worldSize segment : Nat)
  deriving DecidableEq, Repr

/-! ## Selection -/

/-- Complete replacement groups, and everybody else. -/
def splitByCompleteReplacementGroups (replacementGroupSize : Option Nat)
    (participants : List Participant) : List Participant × List Participant :=
  match replacementGroupSize with
  | none => (participants, [])
  | some size =>
    let complete (p : Participant) : Bool :=
      p.replacementGroupId.isSome &&
        size ≤ participants.countP fun q => q.replacementGroupId = p.replacementGroupId
    (participants.filter complete, participants.filter fun p => !complete p)

/-- The check that a configured segment puts on every participant's domain. -/
def requireDomains (participants : List Participant) : Except RankError Unit :=
  match participants.find? fun p => p.domainId = "none" with
  | some p => .error (.domainRequired p.nodeDesc.addr)
  | none => .ok ()

/-- Can the participants supply enough complete segments across domains? -/
def canMeetSegmentConstraint (segment : Option Nat) (participants : List Participant)
    (worldSize : Nat) : Except RankError Bool :=
  match segment with
  | none => .ok (worldSize ≤ participants.length)
  | some segment => do
    requireDomains participants
    let domainToCount : Dict String Nat :=
      participants.foldl (fun d p => d.alter p.domainId 0 (· + 1)) .empty
    let totalSegments := (domainToCount.entries.map fun e => e.2 / segment).sum
    return worldSize / segment ≤ totalSegments

/-! ## The order of the participants -/

/-- `{node_desc: idx for idx, (node_desc, ..) in enumerate(sorted by node)}` -/
def infraRankByNode (participants : List Participant) : Dict NodeDesc Nat :=
  (participants.insertionSort fun p q => p.nodeDesc.le q.nodeDesc).zipIdx.foldl
    (fun d e => d.set e.1.nodeDesc e.2) .empty

def withSyntheticInfraRanks (infraRanks : Dict NodeDesc Nat)
    (participants : List Participant) : List Participant :=
  let infraRank (p : Participant) := (infraRanks.get? p.nodeDesc).getD 0
  (participants.insertionSort fun p q => infraRank p ≤ infraRank q).map fun p =>
    { p with infraRank := infraRank p }

/-- Both rank buckets in one deterministic infrastructure order. -/
def sortRankableParticipants (activeCandidates standbyOnly : List Participant) :
    Except RankError (List Participant × List Participant) :=
  let rankable := activeCandidates ++ standbyOnly
  if activeCandidates.any fun p => standbyOnly.any fun q => p.nodeDesc = q.nodeDesc then
    .error .activeAndStandby
  else if rankable.any fun p => p.infraRank = -1 then
    let infraRanks := infraRankByNode rankable
    .ok (withSyntheticInfraRanks infraRanks activeCandidates,
      withSyntheticInfraRanks infraRanks standbyOnly)
  else if (rankable.map (·.infraRank)).Nodup then
    .ok (activeCandidates.insertionSort fun p q => p.infraRank ≤ q.infraRank,
      standbyOnly.insertionSort fun p q => p.infraRank ≤ q.infraRank)
  else .error .duplicateInfraRanks

/-- The key of a domain: its id, or without segments the node itself, for which
`str(infra_rank)` stands. -/
inductive DomainKey where
  | domain (domainId : String)
  | node (infraRank : Int)
  deriving DecidableEq, Repr

/-- Step 1 of `_assign_group_ranks`. -/
def domainToParticipants (segment : Option Nat) (participants : List Participant) :
    Except RankError (Dict DomainKey (List Participant)) :=
  match segment with
  | some _ => do
    requireDomains participants
    return participants.foldl
      (fun d p => d.alter (.domain p.domainId) [] (· ++ [p])) .empty
  | none =>
    .ok (participants.foldl (fun d p => d.set (.node p.infraRank) [p]) .empty)

/-- Step 2: domains by the infrastructure rank of their first node. -/
def sortedDomains (domains : Dict DomainKey (List Participant)) : List (List Participant) :=
  let firstInfraRank (participants : List Participant) : Int :=
    (participants.head?.map (·.infraRank)).getD 0
  (domains.entries.map Prod.snd).insertionSort fun a b => firstInfraRank a ≤ firstInfraRank b

/-! ## The walk that hands out ranks -/

/-- The local variables of the walk in `_assign_group_ranks`. -/
structure RankWalk where
  result : Dict NodeDesc Nat
  activeRank : Nat
  activeSegments : Nat
  standbyRank : Nat

def RankWalk.assignActive (w : RankWalk) (p : Participant) : RankWalk :=
  { w with result := w.result.set p.nodeDesc w.activeRank, activeRank := w.activeRank + 1 }

def RankWalk.assignStandby (w : RankWalk) (p : Participant) : RankWalk :=
  { w with result := w.result.set p.nodeDesc w.standbyRank, standbyRank := w.standbyRank + 1 }

def RankWalk.segmentsToTake (w : RankWalk) (segment numSegments : Nat)
    (participants : List Participant) : Nat :=
  let domainSegments := participants.length / segment
  if w.activeSegments < numSegments ∧ 0 < domainSegments then
    min domainSegments (numSegments - w.activeSegments)
  else 0

/-- One round of the loop over the sorted domains. -/
def RankWalk.assignDomain (segment numSegments : Nat) (w : RankWalk)
    (participants : List Participant) : RankWalk :=
  let taken := w.segmentsToTake segment numSegments participants
  let active := (participants.take (taken * segment)).foldl assignActive w
  (participants.drop (taken * segment)).foldl assignStandby
    { active with activeSegments := w.activeSegments + taken }

/-- `_assign_group_ranks` -/
def assignGroupRanks (segment : Option Nat) (worldSize : Nat)
    (activeCandidates standbyOnly : List Participant) :
    Except RankError (Dict NodeDesc Nat) :=
  let segmentSize := segment.getD 1
  if worldSize % segmentSize ≠ 0 then .error (.notDivisible worldSize segmentSize)
  else do
    let sorted ← sortRankableParticipants activeCandidates standbyOnly
    let domains ← domainToParticipants segment sorted.1
    let numSegments := worldSize / segmentSize
    let walk := (sortedDomains domains).foldl (RankWalk.assignDomain segmentSize numSegments)
      ⟨.empty, 0, 0, worldSize⟩
    if walk.activeSegments < numSegments then
      .error (.insufficientNodes walk.activeSegments walk.activeRank numSegments worldSize
        segmentSize)
    else return (sorted.2.foldl RankWalk.assignStandby walk).result

/-! ## No rank is handed out twice -/

/-- The invariant of the walk: the ranks handed out are different, and each is
below the next active rank or between the world size and the next standby
rank. -/
structure RankWalk.Valid (worldSize : Nat) (w : RankWalk) : Prop where
  active : w.activeRank ≤ worldSize
  standby : worldSize ≤ w.standbyRank
  rank : ∀ d r, w.result.get? d = some r →
    r < w.activeRank ∨ (worldSize ≤ r ∧ r < w.standbyRank)
  injective : ∀ d e r, w.result.get? d = some r → w.result.get? e = some r → d = e

namespace RankWalk

variable {worldSize : Nat} {w : RankWalk} (participants : List Participant)

theorem valid_start (worldSize : Nat) : Valid worldSize ⟨.empty, 0, 0, worldSize⟩ where
  active := Nat.zero_le _
  standby := Nat.le_refl _
  rank := by simp [Dict.get?, Dict.empty]
  injective := by simp [Dict.get?, Dict.empty]

/-- A rank nobody has may be given to anybody. -/
theorem injective_set {result : Dict NodeDesc Nat} {d : NodeDesc} {rank : Nat}
    (hinj : ∀ d e r, result.get? d = some r → result.get? e = some r → d = e)
    (hfresh : ∀ e, result.get? e ≠ some rank) :
    ∀ a b r, (result.set d rank).get? a = some r → (result.set d rank).get? b = some r →
      a = b := by
  intro a b r ha hb
  by_cases had : a = d
  · by_cases hbd : b = d
    · rw [had, hbd]
    · subst had
      rw [Dict.get?_set_self] at ha
      rw [Dict.get?_set_of_ne _ _ hbd, ← ha] at hb
      exact absurd hb (hfresh b)
  · by_cases hbd : b = d
    · subst hbd
      rw [Dict.get?_set_self] at hb
      rw [Dict.get?_set_of_ne _ _ had, ← hb] at ha
      exact absurd ha (hfresh a)
    · rw [Dict.get?_set_of_ne _ _ had] at ha
      rw [Dict.get?_set_of_ne _ _ hbd] at hb
      exact hinj a b r ha hb

/-- What a dictionary holds after one more entry. -/
theorem get?_set_eq_some {result : Dict NodeDesc Nat} {d e : NodeDesc} {rank r : Nat}
    (h : (result.set d rank).get? e = some r) : r = rank ∨ result.get? e = some r := by
  by_cases hed : e = d
  · subst hed
    rw [Dict.get?_set_self] at h
    exact Or.inl (Option.some.inj h).symm
  · rw [Dict.get?_set_of_ne _ _ hed] at h
    exact Or.inr h

theorem Valid.assignActive (h : w.Valid worldSize) (p : Participant)
    (hroom : w.activeRank < worldSize) :
    (w.assignActive p).Valid worldSize where
  active := hroom
  standby := h.standby
  rank d r hr := by
    simp only [RankWalk.assignActive] at hr ⊢
    obtain rfl | hold := get?_set_eq_some hr
    · exact Or.inl (Nat.lt_succ_self _)
    · rcases h.rank d r hold with hlt | hstandby
      · exact Or.inl (Nat.lt_succ_of_lt hlt)
      · exact Or.inr hstandby
  injective := by
    refine injective_set h.injective fun e he => ?_
    have hrank := h.rank e _ he
    omega

theorem Valid.assignStandby (h : w.Valid worldSize) (p : Participant) :
    (w.assignStandby p).Valid worldSize where
  active := h.active
  standby := Nat.le_succ_of_le h.standby
  rank d r hr := by
    have hle := h.standby
    simp only [RankWalk.assignStandby] at hr ⊢
    obtain rfl | hold := get?_set_eq_some hr
    · omega
    · have hrank := h.rank d r hold
      omega
  injective := by
    have hactive := h.active
    have hstandby := h.standby
    refine injective_set h.injective fun e he => ?_
    have hrank := h.rank e _ he
    omega

theorem Valid.foldl_assignActive {participants : List Participant} :
    ∀ {w : RankWalk}, w.Valid worldSize → w.activeRank + participants.length ≤ worldSize →
      (participants.foldl RankWalk.assignActive w).Valid worldSize ∧
        (participants.foldl RankWalk.assignActive w).activeRank =
          w.activeRank + participants.length := by
  induction participants with
  | nil => exact fun h _ => ⟨h, rfl⟩
  | cons p rest ih =>
    intro w h hroom
    simp only [List.length_cons] at hroom
    have hnext : (w.assignActive p).Valid worldSize := h.assignActive p (by omega)
    have hrank : (w.assignActive p).activeRank = w.activeRank + 1 := rfl
    obtain ⟨hvalid, heq⟩ := ih hnext (by omega)
    refine ⟨hvalid, ?_⟩
    simp only [List.foldl_cons, List.length_cons, heq, hrank]
    omega

theorem Valid.foldl_assignStandby {participants : List Participant} :
    ∀ {w : RankWalk}, w.Valid worldSize →
      (participants.foldl RankWalk.assignStandby w).Valid worldSize := by
  induction participants with
  | nil => exact fun h => h
  | cons p rest ih => exact fun h => ih (h.assignStandby p)

/-- Standby ranks leave the active counters alone. -/
theorem foldl_assignStandby_counters :
    ∀ w : RankWalk,
      (participants.foldl RankWalk.assignStandby w).activeRank = w.activeRank ∧
        (participants.foldl RankWalk.assignStandby w).activeSegments = w.activeSegments := by
  induction participants with
  | nil => exact fun _ => ⟨rfl, rfl⟩
  | cons p rest ih => exact fun w => ih (w.assignStandby p)

theorem segmentsToTake_le (w : RankWalk) (segment numSegments : Nat)
    (participants : List Participant) :
    w.activeSegments ≤ numSegments →
      w.activeSegments + w.segmentsToTake segment numSegments participants ≤ numSegments := by
  intro hle
  simp only [segmentsToTake]
  split
  · omega
  · omega

theorem segmentsToTake_mul_le (w : RankWalk) (segment numSegments : Nat)
    (participants : List Participant) :
    w.segmentsToTake segment numSegments participants * segment ≤ participants.length := by
  have hdiv : participants.length / segment * segment ≤ participants.length :=
    Nat.div_mul_le_self _ _
  simp only [segmentsToTake]
  split
  · exact (Nat.mul_le_mul_right segment (Nat.min_le_left _ _)).trans hdiv
  · simp

/-- Between two domains whole segments have been taken, and never too many. -/
structure Between (worldSize segment numSegments : Nat) (w : RankWalk) : Prop where
  valid : w.Valid worldSize
  taken : w.activeSegments ≤ numSegments
  whole : w.activeRank = w.activeSegments * segment

theorem Between.assignDomain {segment numSegments : Nat}
    (hworld : numSegments * segment ≤ worldSize) (h : w.Between worldSize segment numSegments)
    (participants : List Participant) :
    (w.assignDomain segment numSegments participants).Between worldSize segment
      numSegments := by
  obtain ⟨hvalid, htaken, hwhole⟩ := h
  have hle := w.segmentsToTake_le segment numSegments participants htaken
  have hmul := w.segmentsToTake_mul_le segment numSegments participants
  unfold RankWalk.assignDomain
  generalize w.segmentsToTake segment numSegments participants = taken at hle hmul ⊢
  have hlength : (participants.take (taken * segment)).length = taken * segment :=
    List.length_take_of_le hmul
  have hsum : w.activeRank + taken * segment = (w.activeSegments + taken) * segment := by
    rw [hwhole, Nat.add_mul]
  have hroom : w.activeRank + (participants.take (taken * segment)).length ≤ worldSize := by
    rw [hlength, hsum]
    exact (Nat.mul_le_mul_right segment hle).trans hworld
  obtain ⟨hactive, hrank⟩ := hvalid.foldl_assignActive hroom
  rw [hlength, hsum] at hrank
  have hcounted : RankWalk.Valid worldSize
      { (participants.take (taken * segment)).foldl RankWalk.assignActive w with
        activeSegments := w.activeSegments + taken } :=
    ⟨hactive.active, hactive.standby, hactive.rank, hactive.injective⟩
  obtain ⟨hrank', hsegments⟩ := foldl_assignStandby_counters
    (participants.drop (taken * segment))
    { (participants.take (taken * segment)).foldl RankWalk.assignActive w with
      activeSegments := w.activeSegments + taken }
  refine ⟨hcounted.foldl_assignStandby, ?_, ?_⟩
  · rw [hsegments]
    exact hle
  · rw [hrank', hsegments]
    exact hrank

theorem Between.foldl_assignDomain {segment numSegments : Nat}
    (hworld : numSegments * segment ≤ worldSize) {domains : List (List Participant)} :
    ∀ {w : RankWalk}, w.Between worldSize segment numSegments →
      (domains.foldl (RankWalk.assignDomain segment numSegments) w).Between worldSize segment
        numSegments := by
  induction domains with
  | nil => exact fun h => h
  | cons participants rest ih => exact fun h => ih (h.assignDomain hworld participants)

end RankWalk

/-- A computation that succeeds has succeeded in its first part. -/
theorem exists_of_bind_eq_ok {ε α β : Type} {x : Except ε α} {f : α → Except ε β} {b : β}
    (h : (x >>= f) = .ok b) : ∃ a, x = .ok a ∧ f a = .ok b := by
  cases x with
  | error e => cases h
  | ok a => exact ⟨a, rfl, h⟩

/-- No two nodes get the same group rank. -/
theorem assignGroupRanks_injective {segment : Option Nat} {worldSize : Nat}
    {activeCandidates standbyOnly : List Participant} {ranks : Dict NodeDesc Nat}
    (h : assignGroupRanks segment worldSize activeCandidates standbyOnly = .ok ranks) :
    ∀ d e r, ranks.get? d = some r → ranks.get? e = some r → d = e := by
  simp only [assignGroupRanks] at h
  split at h
  · cases h
  · obtain ⟨sorted, _, h⟩ := exists_of_bind_eq_ok h
    obtain ⟨domains, _, h⟩ := exists_of_bind_eq_ok h
    have hworld : worldSize / segment.getD 1 * segment.getD 1 ≤ worldSize :=
      Nat.div_mul_le_self _ _
    have hstart : RankWalk.Between worldSize (segment.getD 1) (worldSize / segment.getD 1)
        ⟨.empty, 0, 0, worldSize⟩ :=
      ⟨RankWalk.valid_start worldSize, Nat.zero_le _, (Nat.zero_mul _).symm⟩
    have hwalk : ((sortedDomains domains).foldl
        (RankWalk.assignDomain (segment.getD 1) (worldSize / segment.getD 1))
        ⟨.empty, 0, 0, worldSize⟩).Between worldSize (segment.getD 1)
          (worldSize / segment.getD 1) :=
      hstart.foldl_assignDomain hworld
    split at h
    · cases h
    · cases h
      exact hwalk.valid.foldl_assignStandby.injective

/-! ## What the host publishes -/

/-- The group rank that the assignment gives to the participant in `slot`. -/
def assignedRank (slotParticipants : List (Option Participant))
    (ranks : Dict NodeDesc Nat) : Nat → Option Nat
  | 0 => none
  | index + 1 => slotParticipants[index]?.join.bind fun p => ranks.get? p.nodeDesc

theorem assignedRank_eq_some {slotParticipants : List (Option Participant)}
    {ranks : Dict NodeDesc Nat} {slot rank : Nat}
    (h : assignedRank slotParticipants ranks slot = some rank) :
    ∃ index p, slot = index + 1 ∧ slotParticipants[index]? = some (some p) ∧
      ranks.get? p.nodeDesc = some rank := by
  cases slot with
  | zero => simp [assignedRank] at h
  | succ index =>
    obtain ⟨p, hslot, hrank⟩ := Option.bind_eq_some_iff.mp h
    exact ⟨index, p, rfl, Option.join_eq_some_iff.mp hslot, hrank⟩

end ResiliencyExt.FaultTolerance.Rendezvous
