import ResiliencyExt.FaultTolerance.Rendezvous.GroupRankSpec
import ResiliencyExt.FaultTolerance.Rendezvous.Job

set_option autoImplicit false

/-!
# Rendezvous: which slots get a rank

The host ranks participants by their nodes and then walks the slots of its snapshot
to publish the ranks (`Assignment.rankWrites`).  The snapshot still has the slots of
the excluded replacement groups.  When the node of an eligible participant is in no
other slot, exactly the slots of the eligible participants are written
(`eligibleRanks_of_close`).
-/

namespace ResiliencyExt.FaultTolerance.Rendezvous

open Foundation List

/-- Not in an unhealthy replacement group. -/
def Participant.eligible (unhealthyGroups : List String) (p : Participant) : Bool :=
  match p.replacementGroupId with
  | none => true
  | some group => group ∉ unhealthyGroups

/-- `current_round_participants` -/
def eligibleParticipants (unhealthyGroups : List String) (slots : List (Option Participant)) :
    List Participant :=
  (slots.filterMap id).filter (·.eligible unhealthyGroups)

/-- The slots whose rank keys `assign_group_ranks` sets, with the ranks. -/
def Assignment.rankWrites (a : Assignment) : List (Nat × Nat) :=
  a.slots.zipIdx.filterMap fun e =>
    (e.1.bind fun p => a.ranks.get? p.nodeDesc).map fun rank => (e.2 + 1, rank)

/-- In a complete replacement group of the participants, when a size is configured. -/
def InCompleteGroup (replacementGroupSize : Option Nat) (participants : List Participant)
    (p : Participant) : Prop :=
  ∀ size, replacementGroupSize = some size → ∃ group, p.replacementGroupId = some group ∧
    size ≤ participants.countP fun q => q.replacementGroupId = some group

/-- Only eligible slots of the round are ranked, each with the rank of its participant. -/
structure EligibleRanks (cfg : JobConfig) (unhealthyGroups : List String) (x : BarrierStore)
    (round : Nat) (a : Assignment) : Prop where
  eligible : ∀ slot rank, (slot, rank) ∈ a.rankWrites → ∃ p,
    x.participantAt round slot = some p ∧ p.eligible unhealthyGroups ∧
      a.ranks.get? p.nodeDesc = some rank
  active : (a.rankWrites.countP fun e => e.2 < cfg.minNodes) = cfg.minNodes
  complete : ∀ slot rank p, (slot, rank) ∈ a.rankWrites → rank < cfg.minNodes →
    x.participantAt round slot = some p →
      InCompleteGroup cfg.replacementGroupSize (eligibleParticipants unhealthyGroups a.slots) p
  total : a.rankWrites.length = a.ranks.entries.length

/-- The node of an eligible participant is in no other slot. -/
def NodesOnce (unhealthyGroups : List String) (slots : List (Option Participant)) : Prop :=
  (slots.filterMap id).Pairwise fun p q =>
    p.eligible unhealthyGroups ∨ q.eligible unhealthyGroups → p.nodeDesc ≠ q.nodeDesc

instance (unhealthyGroups : List String) (slots : List (Option Participant)) :
    Decidable (NodesOnce unhealthyGroups slots) :=
  inferInstanceAs (Decidable (List.Pairwise _ _))

/-! ## The written slots -/

variable {round : Nat} {ranks : Dict NodeDesc Nat}

variable {p : Participant} {cfg : JobConfig} {previous : Option Membership}
    {groups : List String} {slots : List (Option Participant)} {expired : Bool}
    {candidates : List Participant}

/-- The ranks that are written are those of the slots' assignment. -/
theorem mem_rankWrites {a : Assignment} {slot rank : Nat} :
    (slot, rank) ∈ a.rankWrites ↔ a.rank slot = some rank := by
  simp only [Assignment.rankWrites, mem_filterMap, Option.map_eq_some_iff, Prod.mk.injEq]
  constructor
  · rintro ⟨⟨entry, index⟩, hentry, r, hrank, rfl, rfl⟩
    rw [mem_zipIdx_iff_getElem?] at hentry
    rw [Assignment.rank, assignedRank, hentry, Option.join_some]
    exact hrank
  · intro h
    obtain ⟨index, p, rfl, hslot, hrank⟩ := assignedRank_eq_some h
    exact ⟨(some p, index), mem_zipIdx_iff_getElem?.mpr hslot, rank, hrank, rfl, rfl⟩

/-- The ranks that are written, without their slots. -/
theorem map_snd_rankWrites (a : Assignment) :
    a.rankWrites.map Prod.snd =
      (a.slots.filterMap id).filterMap fun p => a.ranks.get? p.nodeDesc := by
  have hslots : a.rankWrites.map Prod.snd =
      (a.slots.zipIdx.map Prod.fst).filterMap fun entry =>
        entry.bind fun p => a.ranks.get? p.nodeDesc := by
    rw [Assignment.rankWrites, map_filterMap, filterMap_map]
    refine filterMap_congr fun e _ => ?_
    rw [Option.map_map, Function.comp_apply]
    exact Option.map_id'
  rw [hslots, zipIdx_map_fst, filterMap_filterMap]
  rfl

/-- A participant of the snapshot published itself in the slot in this round. -/
theorem participantAt_of_getAllParticipants {x : BarrierStore} {total index : Nat}
    {missed : List Nat} (h : (x.getAllParticipants total round missed)[index]? = some (some p)) :
    x.participantAt round (index + 1) = some p := by
  simp only [BarrierStore.getAllParticipants, getElem?_map, Option.map_eq_some_iff] at h
  obtain ⟨i, hi, h⟩ := h
  obtain ⟨hlt, heq⟩ := List.getElem?_eq_some_iff.mp hi
  have hindex : i = index := by simpa using heq.symm
  subst hindex
  split at h
  · cases h
  · exact h

/-- The participants of both buckets are the participants. -/
theorem splitByCompleteReplacementGroups_perm (size : Option Nat)
    (participants : List Participant) :
    ((splitByCompleteReplacementGroups size participants).1 ++
      (splitByCompleteReplacementGroups size participants).2).Perm participants := by
  cases size with
  | none => rw [splitByCompleteReplacementGroups, append_nil]
  | some size => exact filter_append_perm _ _

theorem inCompleteGroup_of_mem {size : Option Nat} {participants : List Participant}
    (h : p ∈ (splitByCompleteReplacementGroups size participants).1) :
    InCompleteGroup size participants p := by
  rintro n rfl
  simp only [splitByCompleteReplacementGroups, mem_filter, Bool.and_eq_true,
    decide_eq_true_eq] at h
  obtain ⟨-, hsome, hcount⟩ := h
  obtain ⟨group, hgroup⟩ := Option.isSome_iff_exists.mp hsome
  rw [hgroup] at hcount
  exact ⟨group, hgroup, hcount⟩

/-! ## The pass that closes the round -/

/-- What has succeeded when a round is closed. -/
theorem buckets_of_close
    (h : hostDecision cfg round previous groups slots expired = .close candidates ranks) :
    canMeetSegmentConstraint cfg.segment (splitByCompleteReplacementGroups
        cfg.replacementGroupSize (eligibleParticipants groups slots)).1 cfg.minNodes = .ok true ∧
      assignGroupRanks cfg.segment cfg.minNodes
        (splitByCompleteReplacementGroups cfg.replacementGroupSize
          (eligibleParticipants groups slots)).1
        (splitByCompleteReplacementGroups cfg.replacementGroupSize
          (eligibleParticipants groups slots)).2 = .ok ranks := by
  simp only [hostDecision] at h
  split at h
  · cases h
  · cases h
  · rename_i hcheck
    refine ⟨hcheck, ?_⟩
    split at h
    · cases h
    · split at h
      · cases h
      · split at h
        · cases h
        · rename_i hranks
          cases h
          exact hranks

/-- The infrastructure ranks and the domains of an assignment that succeeded. -/
theorem of_assignGroupRanks_ok {segment : Option Nat} {worldSize : Nat}
    {activeCandidates standbyOnly : List Participant}
    (hnodes : ((activeCandidates ++ standbyOnly).map (·.nodeDesc)).Nodup)
    (h : assignGroupRanks segment worldSize activeCandidates standbyOnly = .ok ranks) :
    InfraDistinct (activeCandidates ++ standbyOnly) ∧ segment.getD 1 ∣ worldSize ∧
      (segment.isSome → ∀ p ∈ activeCandidates, p.domainId ≠ "none") := by
  simp only [assignGroupRanks] at h
  split at h
  · cases h
  · rename_i hworld
    obtain ⟨sorted, hsorted, h⟩ := exists_of_bind_eq_ok h
    obtain ⟨domains, hdomains, -⟩ := exists_of_bind_eq_ok h
    have hinfra : InfraDistinct (activeCandidates ++ standbyOnly) := by
      simp only [sortRankableParticipants] at hsorted
      split at hsorted
      · cases hsorted
      · split at hsorted
        · rename_i hany
          obtain ⟨p, hp, hnone⟩ := any_eq_true.mp hany
          exact Or.inr ⟨p, hp, of_decide_eq_true hnone⟩
        · split at hsorted
          · rename_i hnodup
            exact Or.inl hnodup
          · cases hsorted
    refine ⟨hinfra, Nat.dvd_of_mod_eq_zero (not_not.mp hworld), fun hsome p hp => ?_⟩
    obtain ⟨size, rfl⟩ := Option.isSome_iff_exists.mp hsome
    obtain ⟨sorted', hsorted', hbuckets⟩ := sortRankableParticipants_ok hnodes hinfra
    obtain rfl : sorted' = sorted := Except.ok.inj (hsorted'.symm.trans hsorted)
    simp only [domainToParticipants, requireDomains] at hdomains
    split at hdomains
    · cases hdomains
    · rename_i hnone
      have hseen := hbuckets.active.mem_iff.mpr (mem_map_of_mem hp)
      exact fun heq => find?_eq_none.mp hnone _ hseen (decide_eq_true heq)

/-- The ranks of a round that is closed, when no node is in two slots. -/
theorem segmentRanks_of_close
    (h : hostDecision cfg round previous groups slots expired = .close candidates ranks)
    (hnodes : ((eligibleParticipants groups slots).map (·.nodeDesc)).Nodup) :
    SegmentRanks cfg.segment cfg.minNodes
      (splitByCompleteReplacementGroups cfg.replacementGroupSize
        (eligibleParticipants groups slots)).1
      (splitByCompleteReplacementGroups cfg.replacementGroupSize
        (eligibleParticipants groups slots)).2 ranks := by
  obtain ⟨hcheck, hassign⟩ := buckets_of_close h
  have hperm := splitByCompleteReplacementGroups_perm cfg.replacementGroupSize
    (eligibleParticipants groups slots)
  have hnodes' := (hperm.map (·.nodeDesc)).nodup_iff.mpr hnodes
  obtain ⟨hinfra, hworld, hdomains⟩ := of_assignGroupRanks_ok hnodes' hassign
  rcases assignGroupRanks_of_canMeet hnodes' hinfra hworld hdomains with
    ⟨hfalse, -⟩ | ⟨-, ranks', hok, hranks⟩
  · rw [hcheck] at hfalse
    cases hfalse
  · obtain rfl : ranks' = ranks := Except.ok.inj (hok.symm.trans hassign)
    exact hranks

/-- Looking up the keys gives the values. -/
theorem filterMap_get?_keys {κ ν : Type} [DecidableEq κ] (d : Dict κ ν) :
    d.keys.filterMap d.get? = d.entries.map Prod.snd := by
  rw [Dict.keys, filterMap_map, ← filterMap_eq_map]
  refine filterMap_congr fun e he => ?_
  rw [Function.comp_apply, Dict.get?_eq_some_of_mem he]
  rfl

/-- A round that is closed ranks the eligible participants, at their own slots. -/
theorem eligibleRanks_of_close {cfg : JobConfig} {round : Nat} {previous : Option Membership}
    {groups : List String} {x : BarrierStore} {joined : Nat} {missed : List Nat} {expired : Bool}
    {candidates : List Participant} {ranks : Dict NodeDesc Nat}
    (h : hostDecision cfg round previous groups (x.getAllParticipants joined round missed)
      expired = .close candidates ranks)
    (honce : NodesOnce groups (x.getAllParticipants joined round missed)) :
    EligibleRanks cfg groups x round ⟨x.getAllParticipants joined round missed, ranks⟩ := by
  generalize hslots : x.getAllParticipants joined round missed = slots at h honce ⊢
  have hnodes : ((eligibleParticipants groups slots).map (·.nodeDesc)).Nodup := by
    refine pairwise_map.mpr ?_
    refine (honce.sublist filter_sublist).imp_of_mem fun hp _ hne => hne (Or.inl ?_)
    exact (mem_filter.mp hp).2
  have hranks := segmentRanks_of_close h hnodes
  have hbuckets := splitByCompleteReplacementGroups_perm cfg.replacementGroupSize
    (eligibleParticipants groups slots)
  have hkeys : ranks.keys.Perm ((eligibleParticipants groups slots).map (·.nodeDesc)) :=
    hranks.nodes.trans (hbuckets.map _)
  -- a participant whose node has a rank is eligible
  have hranked : ∀ q ∈ slots.filterMap id, ∀ rank, ranks.get? q.nodeDesc = some rank →
      q ∈ eligibleParticipants groups slots := by
    intro q hq rank hget
    obtain ⟨p, hp, hnode⟩ := mem_map.mp (hkeys.mem_iff.mp (Dict.mem_keys_of_get? hget))
    obtain ⟨hpresent, heligible⟩ := mem_filter.mp hp
    by_cases heq : p = q
    · exact heq ▸ hp
    · have hsymm : Std.Symm fun p q : Participant =>
          p.eligible groups ∨ q.eligible groups → p.nodeDesc ≠ q.nodeDesc :=
        ⟨fun _ _ hne hor => (hne hor.symm).symm⟩
      exact absurd hnode (honce.forall hpresent hq heq (Or.inl heligible))
  have hslot : ∀ slot rank, (slot, rank) ∈ (Assignment.mk slots ranks).rankWrites →
      ∃ p ∈ eligibleParticipants groups slots, x.participantAt round slot = some p ∧
        ranks.get? p.nodeDesc = some rank := by
    intro slot rank hwrite
    obtain ⟨index, p, rfl, hplace, hget⟩ := assignedRank_eq_some (mem_rankWrites.mp hwrite)
    have hpresent : p ∈ slots.filterMap id :=
      mem_filterMap.mpr ⟨some p, mem_of_getElem? hplace, rfl⟩
    exact ⟨p, hranked p hpresent rank hget,
      participantAt_of_getAllParticipants (hslots ▸ hplace), hget⟩
  have hvalues : ((Assignment.mk slots ranks).rankWrites.map Prod.snd).Perm
      (ranks.entries.map Prod.snd) := by
    have hsame : ((slots.filterMap id).filterMap fun p => ranks.get? p.nodeDesc) =
        (eligibleParticipants groups slots).filterMap fun p => ranks.get? p.nodeDesc := by
      rw [eligibleParticipants, filterMap_filter]
      refine filterMap_congr fun q hq => ?_
      split
      · rfl
      · rename_i hnot
        refine Option.eq_none_iff_forall_not_mem.mpr fun rank hget => hnot ?_
        exact (mem_filter.mp (hranked q hq rank hget)).2
    have hlookup := hkeys.symm.filterMap ranks.get?
    rw [filterMap_map, filterMap_get?_keys] at hlookup
    rw [map_snd_rankWrites, hsame]
    exact hlookup
  refine ⟨fun slot rank hwrite => ?_, ?_, fun slot rank p hwrite hactive hat => ?_, ?_⟩
  · obtain ⟨p, hp, hat, hget⟩ := hslot slot rank hwrite
    exact ⟨p, hat, (mem_filter.mp hp).2, hget⟩
  · have hcount := hvalues.countP_eq fun rank => decide (rank < cfg.minNodes)
    rw [countP_map, countP_map] at hcount
    exact hcount.trans hranks.active
  · obtain ⟨q, hq, hat', hget⟩ := hslot slot rank hwrite
    obtain rfl : q = p := Option.some.inj (hat'.symm.trans hat)
    rcases mem_append.mp (hbuckets.mem_iff.mpr hq) with hcandidate | hstandby
    · exact inCompleteGroup_of_mem hcandidate
    · exact absurd hactive (Nat.not_lt_of_le (hranks.standby q hstandby rank hget))
  · have hlength := hvalues.length_eq
    rwa [length_map, length_map] at hlength

/-! ## A job array -/

/-- The launcher `pid` on the host `addr`, in a task of the job array. -/
def taskParticipant (addr : String) (pid : Nat) (task : String) : Participant :=
  ⟨⟨addr, pid, 0⟩, pid, "none", some task⟩

/-- Replacement groups of `size` nodes, which is also the world. -/
def arrayJob (size : Nat) : JobConfig where
  minNodes := size
  maxNodes := size + 1
  segment := none
  replacementGroupSize := some size
  lastCall := false
  multiLaunchersPerNode := false
  jobArray := true
  maxRestarts := 3
  storeHost := 0
  controlPlane := true
  participant p := taskParticipant "host" p "1"
  distinct _ _ h := (NodeDesc.mk.inj h).2.1

/-- The slots of round 1, the first of them slot 1. -/
def slotStore (values : List (Option (Participant × Nat))) : BarrierStore :=
  { BarrierStore.empty with
    slot := fun slot => match slot with
      | 0 => none
      | index + 1 => values[index]?.join.map fun e => .packed (packParticipantValue e.1 e.2) }

/-- A complete group in slots 1 and 4, a hole, a value of the round before, a node of the
excluded task 1 and one of an incomplete group. -/
def refilledStore : BarrierStore :=
  slotStore [some (taskParticipant "a" 3 "2", 1), none, some (taskParticipant "e" 9 "2", 0),
    some (taskParticipant "b" 2 "2", 1), some (taskParticipant "c" 4 "1", 1),
    some (taskParticipant "d" 5 "3", 1)]

theorem hostDecision_refilledStore :
    hostDecision (arrayJob 2) 1 none ["1"] (refilledStore.getAllParticipants 6 1 []) false =
      .close [taskParticipant "a" 3 "2", taskParticipant "b" 2 "2"]
        ⟨[(⟨"b", 2, 0⟩, 0), (⟨"a", 3, 0⟩, 1), (⟨"d", 5, 0⟩, 2)], by decide⟩ := by
  rfl

theorem eligibleRanks_refilledStore :
    EligibleRanks (arrayJob 2) ["1"] refilledStore 1
      ⟨refilledStore.getAllParticipants 6 1 [],
        ⟨[(⟨"b", 2, 0⟩, 0), (⟨"a", 3, 0⟩, 1), (⟨"d", 5, 0⟩, 2)], by decide⟩⟩ :=
  eligibleRanks_of_close hostDecision_refilledStore (by decide +kernel)

/-- The excluded task 1 has left a slot with the descriptor of the launcher that replaced it. -/
def ghostStore : BarrierStore :=
  slotStore [some (taskParticipant "a" 1 "1", 1), some (taskParticipant "a" 1 "2", 1)]

/-- The slot of the excluded task gets the rank of the launcher with its descriptor. -/
theorem not_eligibleRanks_ghostStore :
    ¬ ∀ (cfg : JobConfig) (round : Nat) (previous : Option Membership) (groups : List String)
        (x : BarrierStore) (joined : Nat) (missed : List Nat) (expired : Bool)
        (candidates : List Participant) (ranks : Dict NodeDesc Nat),
        hostDecision cfg round previous groups (x.getAllParticipants joined round missed)
          expired = .close candidates ranks →
            EligibleRanks cfg groups x round
              ⟨x.getAllParticipants joined round missed, ranks⟩ := by
  intro hclaim
  have hdecision : hostDecision (arrayJob 1) 1 none ["1"] (ghostStore.getAllParticipants 2 1 [])
      false = .close [taskParticipant "a" 1 "2"] ⟨[(⟨"a", 1, 0⟩, 0)], by decide⟩ := rfl
  obtain ⟨p, hat, heligible, -⟩ := (hclaim _ _ _ _ _ _ _ _ _ _ hdecision).eligible 1 0
    (by decide +kernel)
  have hghost : ghostStore.participantAt 1 1 = some (taskParticipant "a" 1 "1") := rfl
  rw [hghost] at hat
  obtain rfl := Option.some.inj hat
  exact absurd heligible (by decide)

end ResiliencyExt.FaultTolerance.Rendezvous
