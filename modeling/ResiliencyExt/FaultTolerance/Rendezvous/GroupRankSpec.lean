import ResiliencyExt.FaultTolerance.Rendezvous.GroupRankOrder

set_option autoImplicit false

/-!
# Rendezvous: what the group ranks say

`SegmentRanks` is the purpose of the assignment, in terms of the participants that
go in and of the ranks that come out: the ranks are a bijection, whole segments of
each domain are active, next to each other, and the active ranks follow the
infrastructure.  `assignGroupRanks_meets` proves it of `_assign_group_ranks` whenever
`_can_meet_segment_constraint` holds.
-/

namespace ResiliencyExt.FaultTolerance.Rendezvous

open Foundation List

/-- Participants of one domain; without segments every node is a domain of its own. -/
def SameDomain (segment : Option Nat) (p q : Participant) : Prop :=
  match segment with
  | some _ => p.domainId = q.domainId
  | none => p.nodeDesc = q.nodeDesc

/-- The domain of `p` has a node before every node of the domain of `q`. -/
def DomainBefore (segment : Option Nat) (infra : NodeDesc → Int) (participants : List Participant)
    (p q : Participant) : Prop :=
  ∃ d ∈ participants, SameDomain segment p d ∧
    ∀ e ∈ participants, SameDomain segment q e → infra d.nodeDesc < infra e.nodeDesc

/-- What the ranks of a round say of its participants. -/
structure SegmentRanks (segment : Option Nat) (worldSize : Nat)
    (activeCandidates standbyOnly : List Participant) (ranks : Dict NodeDesc Nat) : Prop where
  /-- Every participant has a rank, and nobody else. -/
  nodes : ranks.keys.Perm ((activeCandidates ++ standbyOnly).map (·.nodeDesc))
  /-- The ranks are those below the number of participants, each once. -/
  values : (ranks.entries.map Prod.snd).Perm
    (List.range (activeCandidates ++ standbyOnly).length)
  active : (ranks.entries.countP fun e => e.2 < worldSize) = worldSize
  standby : ∀ p ∈ standbyOnly, ∀ r, ranks.get? p.nodeDesc = some r → worldSize ≤ r
  /-- The active nodes of a domain are whole segments with ranks next to each other. -/
  segments : ∀ p ∈ activeCandidates, ∃ start count, ∀ r,
    (∃ q ∈ activeCandidates, SameDomain segment p q ∧ ranks.get? q.nodeDesc = some r ∧
      r < worldSize) ↔ start ≤ r ∧ r < start + count * segment.getD 1
  /-- The active ranks follow the order of the domains, and in a domain that of its nodes. -/
  order : ∀ p ∈ activeCandidates, ∀ q ∈ activeCandidates, ∀ rp rq,
    ranks.get? p.nodeDesc = some rp → ranks.get? q.nodeDesc = some rq → rp < rq →
      rq < worldSize →
        (SameDomain segment p q ∧
          effectiveInfraRank (activeCandidates ++ standbyOnly) p.nodeDesc <
            effectiveInfraRank (activeCandidates ++ standbyOnly) q.nodeDesc) ∨
          DomainBefore segment (effectiveInfraRank (activeCandidates ++ standbyOnly))
            activeCandidates p q

/-! ## From the order of the nodes to the ranks -/

namespace AssignmentOrder

variable {segment : Option Nat} {worldSize : Nat}
  {activeCandidates standbyOnly participants : List Participant} {keys : List DomainKey}
  {standby : List NodeDesc}

/-- The active nodes of the assignment, in the order of their ranks. -/
abbrev activeOf (segment : Option Nat) (worldSize : Nat) (participants : List Participant)
    (keys : List DomainKey) : List Participant :=
  activeNodes (segment.getD 1) (worldSize / segment.getD 1)
    (keys.map (members segment participants))

/-- The candidate as the walk sees it. -/
abbrev seen (activeCandidates standbyOnly : List Participant) (p : Participant) : Participant :=
  p.relabel (effectiveInfraRank (activeCandidates ++ standbyOnly))

variable {x p : Participant} {key : DomainKey}

theorem mem_participants
    (h : AssignmentOrder segment worldSize activeCandidates standbyOnly participants keys standby) :
    x ∈ participants ↔ ∃ p ∈ activeCandidates, seen activeCandidates standbyOnly p = x := by
  rw [h.sorted.mem_iff, mem_map]

theorem nodup
    (h : AssignmentOrder segment worldSize activeCandidates standbyOnly participants keys standby) :
    participants.Nodup :=
  h.increasing.imp fun hlt heq => by
    rw [heq] at hlt
    exact lt_irrefl _ hlt

theorem mem_of_activeOf
    (h : AssignmentOrder segment worldSize activeCandidates standbyOnly participants keys standby)
    (hx : x ∈ activeOf segment worldSize participants keys) : x ∈ participants :=
  (h.domains.flatten_perm h.nodup).mem_iff.mp ((activeNodes_sublist _ _ _).subset hx)

/-- Two nodes are of one domain when their keys are the same. -/
theorem sameDomain_iff (hnodes : ((activeCandidates ++ standbyOnly).map (·.nodeDesc)).Nodup)
    (hinfra : InfraDistinct (activeCandidates ++ standbyOnly)) {q : Participant}
    (hp : p ∈ activeCandidates) (hq : q ∈ activeCandidates) :
    SameDomain segment p q ↔
      domainKey segment (seen activeCandidates standbyOnly p) =
        domainKey segment (seen activeCandidates standbyOnly q) := by
  cases segment with
  | some size => exact ⟨congrArg DomainKey.domain, DomainKey.domain.inj⟩
  | none =>
    constructor
    · exact fun heq => congrArg (fun d => DomainKey.node
        (effectiveInfraRank (activeCandidates ++ standbyOnly) d)) heq
    · intro heq
      have hsame := effectiveInfraRank_injOn hnodes hinfra (mem_append_left _ hp)
        (mem_append_left _ hq) (DomainKey.node.inj heq)
      exact congrArg _ hsame

section

variable
    (h : AssignmentOrder segment worldSize activeCandidates standbyOnly participants keys standby)
include h

/-- The active rank of a candidate is its place in the order of the nodes. -/
theorem activeRank_iff (hnodes : ((activeCandidates ++ standbyOnly).map (·.nodeDesc)).Nodup)
    (hlength : (activeOf segment worldSize participants keys).length = worldSize)
    {ranks : Dict NodeDesc Nat}
    (hranks : ranks.entries.Perm ((activeOf segment worldSize participants keys).map (·.nodeDesc) ++ standby).zipIdx)
    (hp : p ∈ activeCandidates) {r : Nat} :
    (ranks.get? p.nodeDesc = some r ∧ r < worldSize) ↔
      (activeOf segment worldSize participants keys)[r]? =
        some (seen activeCandidates standbyOnly p) := by
  have hget : ranks.get? p.nodeDesc = some r ↔
      ((activeOf segment worldSize participants keys).map (·.nodeDesc) ++ standby)[r]? =
        some p.nodeDesc := by
    have hentry := hranks.mem_iff (a := (p.nodeDesc, r))
    rw [mem_zipIdx_iff_getElem?] at hentry
    exact (Iff.intro Dict.mem_of_get?_eq_some Dict.get?_eq_some_of_mem).trans hentry
  rw [hget]
  constructor
  · rintro ⟨hplace, hlt⟩
    rw [getElem?_append_left (by rw [length_map, hlength]; exact hlt),
      getElem?_map] at hplace
    obtain ⟨x, hx, hname⟩ := Option.map_eq_some_iff.mp hplace
    obtain ⟨q, hq, rfl⟩ := h.mem_participants.mp (h.mem_of_activeOf (mem_of_getElem? hx))
    have hsame : q = p := inj_on_of_nodup_map hnodes (mem_append_left _ hq)
      (mem_append_left _ hp) hname
    rw [hx, hsame]
  · intro hplace
    have hlt : r < worldSize := by
      rw [← hlength]
      exact (List.getElem?_eq_some_iff.mp hplace).1
    refine ⟨?_, hlt⟩
    rw [getElem?_append_left (by rw [length_map, hlength]; exact hlt),
      getElem?_map, hplace]
    rfl

/-- In the order of the nodes, one domain comes before another and its nodes follow their
infrastructure ranks. -/
theorem pairwise_activeOf :
    (activeOf segment worldSize participants keys).Pairwise fun x y =>
      (domainKey segment x = domainKey segment y ∧ x.infraRank < y.infraRank) ∨
        ∃ d ∈ members segment participants (domainKey segment x),
          ∀ e ∈ members segment participants (domainKey segment y),
            d.infraRank < e.infraRank := by
  refine List.Pairwise.sublist (activeNodes_sublist _ _ _) ?_
  rw [pairwise_flatten, pairwise_map]
  constructor
  · intro domain hdomain
    obtain ⟨key, -, rfl⟩ := mem_map.mp hdomain
    refine (h.increasing.sublist filter_sublist).imp_of_mem fun hx hy hlt => Or.inl ⟨?_, hlt⟩
    exact (mem_members.mp hx).2.trans (mem_members.mp hy).2.symm
  · refine h.domains.order.imp fun hbefore x hx y hy => Or.inr ?_
    rw [(mem_members.mp hx).2, (mem_members.mp hy).2]
    exact hbefore

/-- The active nodes of a domain stand next to each other. -/
theorem exists_block (hkey : key ∈ keys) :
    ∃ front block back count,
      activeOf segment worldSize participants keys = front ++ block ++ back ∧
        block.length = count * segment.getD 1 ∧ (∀ x ∈ block, domainKey segment x = key) ∧
          ∀ x ∈ front ++ back, domainKey segment x ≠ key := by
  obtain ⟨before, after, hsplit⟩ := append_of_mem hkey
  have hnodup := h.domains.nodup
  rw [hsplit] at hnodup
  have hothers := (nodup_cons.mp (perm_middle.nodup_iff.mp hnodup)).1
  obtain ⟨left, hparts⟩ := activeNodes_append (segment.getD 1)
    (before.map (members segment participants))
    ((key :: after).map (members segment participants)) (worldSize / segment.getD 1)
  rw [← map_append, ← hsplit, map_cons, activeNodes, ← append_assoc] at hparts
  have hkeyOf : ∀ {remaining : Nat} {part : List DomainKey} {x : Participant},
      x ∈ activeNodes (segment.getD 1) remaining (part.map (members segment participants)) →
        domainKey segment x ∈ part := by
    intro remaining part x hx
    obtain ⟨domain, hdomain, hmem⟩ :=
      mem_flatten.mp ((activeNodes_sublist _ _ _).subset hx)
    obtain ⟨k, hk, rfl⟩ := mem_map.mp hdomain
    exact (mem_members.mp hmem).2 ▸ hk
  refine ⟨_, _, _, _, hparts, length_take_of_le ?_, fun x hx => ?_, fun x hx heq => ?_⟩
  · exact (Nat.mul_le_mul_right _ (Nat.min_le_left _ _)).trans (Nat.div_mul_le_self _ _)
  · exact (mem_members.mp (mem_of_mem_take hx)).2
  · rw [← heq] at hothers
    rcases mem_append.mp hx with hfront | hback
    · exact hothers (mem_append_left _ (hkeyOf hfront))
    · exact hothers (mem_append_right _ (hkeyOf hback))

/-- The places of the nodes of a domain are an interval. -/
theorem exists_interval (hkey : key ∈ keys) :
    ∃ start count, ∀ r,
      (∃ x, (activeOf segment worldSize participants keys)[r]? = some x ∧
        domainKey segment x = key) ↔ start ≤ r ∧ r < start + count * segment.getD 1 := by
  obtain ⟨front, block, back, count, hsplit, hlength, hblock, hothers⟩ := h.exists_block hkey
  refine ⟨front.length, count, fun r => ?_⟩
  rw [hsplit, ← hlength, append_assoc]
  constructor
  · rintro ⟨x, hx, hdomain⟩
    rcases Nat.lt_or_ge r front.length with hlt | hge
    · rw [getElem?_append_left hlt] at hx
      exact absurd hdomain (hothers x (mem_append_left _ (mem_of_getElem? hx)))
    · refine ⟨hge, Nat.lt_of_not_le fun hafter => ?_⟩
      rw [getElem?_append_right hge, getElem?_append_right (by omega)] at hx
      exact hothers x (mem_append_right _ (mem_of_getElem? hx)) hdomain
  · rintro ⟨hge, hlt⟩
    have hplace : r - front.length < block.length := by omega
    rw [getElem?_append_right hge, getElem?_append_left hplace]
    exact ⟨_, getElem?_eq_getElem hplace, hblock _ (getElem_mem hplace)⟩

end

end AssignmentOrder

/-- The number of places of a full world. -/
theorem countP_range_lt {worldSize total : Nat} (h : worldSize ≤ total) :
    ((List.range total).countP fun r => r < worldSize) = worldSize := by
  obtain ⟨rest, rfl⟩ := Nat.exists_eq_add_of_le h
  have hinside : (List.range worldSize).countP (fun r => r < worldSize) = worldSize :=
    (countP_eq_length.mpr fun r hr => decide_eq_true (mem_range.mp hr)).trans
      length_range
  have houtside : ((List.range rest).map (worldSize + ·)).countP (fun r => r < worldSize) = 0 := by
    refine countP_eq_zero.mpr fun r hr => ?_
    obtain ⟨i, -, rfl⟩ := mem_map.mp hr
    simp
  rw [range_add, countP_append, hinside, houtside, Nat.add_zero]

/-- The places of the nodes are ranks in whole segments. -/
theorem AssignmentOrder.segmentRanks {segment : Option Nat} {worldSize : Nat}
    {activeCandidates standbyOnly participants : List Participant} {keys : List DomainKey}
    {standby : List NodeDesc}
    (h : AssignmentOrder segment worldSize activeCandidates standbyOnly participants keys standby)
    (hnodes : ((activeCandidates ++ standbyOnly).map (·.nodeDesc)).Nodup)
    (hinfra : InfraDistinct (activeCandidates ++ standbyOnly))
    (hlength : (activeOf segment worldSize participants keys).length = worldSize)
    {ranks : Dict NodeDesc Nat}
    (hranks : ranks.entries.Perm
      ((activeOf segment worldSize participants keys).map (·.nodeDesc) ++ standby).zipIdx) :
    SegmentRanks segment worldSize activeCandidates standbyOnly ranks := by
  have hactive := fun p hp r => h.activeRank_iff hnodes hlength hranks (p := p) hp (r := r)
  have hnames := h.nodes
  have htotal := hnames.length_eq
  rw [length_map] at htotal
  have hvalues : (ranks.entries.map Prod.snd).Perm
      (List.range (activeCandidates ++ standbyOnly).length) := by
    have hsnd := hranks.map Prod.snd
    rwa [zipIdx_map_snd, htotal, ← range_eq_range'] at hsnd
  refine ⟨?_, hvalues, ?_, fun p hp r hget => ?_, fun p hp => ?_, ?_⟩
  · have hfst := hranks.map Prod.fst
    rw [zipIdx_map_fst] at hfst
    exact hfst.trans hnames
  · have hcount := hvalues.countP_eq fun r => decide (r < worldSize)
    rw [countP_map, countP_range_lt] at hcount
    · exact hcount
    · rw [← htotal, length_append, length_map, hlength]
      exact Nat.le_add_right _ _
  · -- a standby participant is behind the active nodes
    refine Nat.le_of_not_lt fun hlt => ?_
    have hentry := hranks.mem_iff.mp (Dict.mem_of_get?_eq_some hget)
    rw [mem_zipIdx_iff_getElem?, getElem?_append_left
      (by rw [length_map, hlength]; exact hlt)] at hentry
    exact (nodup_append.mp (hnames.nodup_iff.mpr hnodes)).2.2 _
      (mem_of_getElem? hentry) _ (h.standbyOnly p hp) rfl
  · have hkey : domainKey segment (seen activeCandidates standbyOnly p) ∈ keys :=
      h.domains.mem_keys.mpr ⟨_, h.mem_participants.mpr ⟨p, hp, rfl⟩, rfl⟩
    obtain ⟨start, count, hinterval⟩ := h.exists_interval hkey
    refine ⟨start, count, fun r => Iff.trans ?_ (hinterval r)⟩
    constructor
    · rintro ⟨q, hq, hsame, hrank⟩
      exact ⟨_, (hactive q hq r).mp hrank, ((sameDomain_iff hnodes hinfra hp hq).mp hsame).symm⟩
    · rintro ⟨x, hx, hdomain⟩
      obtain ⟨q, hq, rfl⟩ :=
        h.mem_participants.mp (h.mem_of_activeOf (mem_of_getElem? hx))
      exact ⟨q, hq, (sameDomain_iff hnodes hinfra hp hq).mpr hdomain.symm, (hactive q hq r).mpr hx⟩
  · intro p hp q hq rp rq hrp hrq hlt hworld
    have hplaceP := (hactive p hp rp).mp ⟨hrp, hlt.trans hworld⟩
    have hplaceQ := (hactive q hq rq).mp ⟨hrq, hworld⟩
    obtain ⟨hrangeP, hgetP⟩ := List.getElem?_eq_some_iff.mp hplaceP
    obtain ⟨hrangeQ, hgetQ⟩ := List.getElem?_eq_some_iff.mp hplaceQ
    have hordered := pairwise_iff_getElem.mp h.pairwise_activeOf rp rq hrangeP hrangeQ hlt
    rw [hgetP, hgetQ] at hordered
    rcases hordered with ⟨hdomain, hless⟩ | ⟨d, hd, hbefore⟩
    · exact Or.inl ⟨(sameDomain_iff hnodes hinfra hp hq).mpr hdomain, hless⟩
    · obtain ⟨hdmem, hdkey⟩ := mem_members.mp hd
      obtain ⟨c, hc, rfl⟩ := h.mem_participants.mp hdmem
      refine Or.inr ⟨c, hc, (sameDomain_iff hnodes hinfra hp hc).mpr hdkey.symm, ?_⟩
      intro e he hsame
      exact hbefore (seen activeCandidates standbyOnly e) (mem_members.mpr
        ⟨h.mem_participants.mpr ⟨e, he, rfl⟩,
          ((sameDomain_iff hnodes hinfra hq he).mp hsame).symm⟩)

/-! ## The assignment and the feasibility check -/

/-- `_assign_group_ranks` raises for want of nodes exactly where the check says no, and otherwise
its ranks are as they should be. -/
theorem assignGroupRanks_of_canMeet {segment : Option Nat} {worldSize : Nat}
    {activeCandidates standbyOnly : List Participant}
    (hnodes : ((activeCandidates ++ standbyOnly).map (·.nodeDesc)).Nodup)
    (hinfra : InfraDistinct (activeCandidates ++ standbyOnly))
    (hworld : segment.getD 1 ∣ worldSize)
    (hdomains : segment.isSome → ∀ p ∈ activeCandidates, p.domainId ≠ "none") :
    (canMeetSegmentConstraint segment activeCandidates worldSize = .ok false ∧
      ∃ segments nodes needed world size,
        assignGroupRanks segment worldSize activeCandidates standbyOnly =
          .error (.insufficientNodes segments nodes needed world size)) ∨
    (canMeetSegmentConstraint segment activeCandidates worldSize = .ok true ∧
      ∃ ranks, assignGroupRanks segment worldSize activeCandidates standbyOnly = .ok ranks ∧
        SegmentRanks segment worldSize activeCandidates standbyOnly ranks) := by
  obtain ⟨participants, keys, standby, horder, hshort, henough⟩ :=
    assignGroupRanks_cases hnodes hinfra hworld hdomains
  have hcheck := canMeetSegmentConstraint_eq horder.sorted horder.domains horder.nodup hdomains
    worldSize
  rcases Nat.lt_or_ge (completeSegments (segment.getD 1) (keys.map (members segment participants)))
    (worldSize / segment.getD 1) with hlt | hge
  · refine Or.inl ⟨hcheck.trans (congrArg _ (decide_eq_false ?_)), hshort hlt⟩
    exact Nat.not_le_of_lt hlt
  · obtain ⟨ranks, hok, hranks⟩ := henough hge
    refine Or.inr ⟨hcheck.trans (congrArg _ (decide_eq_true hge)), ranks, hok, ?_⟩
    refine horder.segmentRanks hnodes hinfra ?_ hranks
    rw [length_activeNodes, Nat.min_eq_right hge, Nat.div_mul_cancel hworld]

/-- The assignment raises for want of nodes exactly when the feasibility check is false, and
otherwise every participant gets a rank in whole segments. -/
theorem assignGroupRanks_meets {segment : Option Nat} {worldSize : Nat}
    {activeCandidates standbyOnly : List Participant}
    (hnodes : ((activeCandidates ++ standbyOnly).map (·.nodeDesc)).Nodup)
    (hinfra : InfraRanked (activeCandidates ++ standbyOnly))
    (hworld : 0 < segment.getD 1 ∧ segment.getD 1 ∣ worldSize)
    (hdomains : segment.isSome → ∀ p ∈ activeCandidates, p.domainId ≠ "none") :
    ((∃ segments nodes needed world size,
        assignGroupRanks segment worldSize activeCandidates standbyOnly =
          .error (.insufficientNodes segments nodes needed world size)) ↔
      canMeetSegmentConstraint segment activeCandidates worldSize = .ok false) ∧
    (canMeetSegmentConstraint segment activeCandidates worldSize ≠ .ok false →
      ∃ ranks, assignGroupRanks segment worldSize activeCandidates standbyOnly = .ok ranks ∧
        SegmentRanks segment worldSize activeCandidates standbyOnly ranks) := by
  rcases assignGroupRanks_of_canMeet hnodes hinfra.distinct hworld.2 hdomains with
    ⟨hcheck, hshort⟩ | ⟨hcheck, ranks, hok, hranks⟩
  · exact ⟨⟨fun _ => hcheck, fun _ => hshort⟩, fun hne => absurd hcheck hne⟩
  · refine ⟨⟨?_, fun hfalse => ?_⟩, fun _ => ⟨ranks, hok, hranks⟩⟩
    · rintro ⟨_, _, _, _, _, herror⟩
      rw [hok] at herror
      cases herror
    · rw [hcheck] at hfalse
      cases hfalse

/-- Three nodes of a first rack. -/
def firstRack : List Participant :=
  [⟨⟨"a0", 1, 0⟩, 0, "a", none⟩, ⟨⟨"a3", 1, 0⟩, 3, "a", none⟩, ⟨⟨"a4", 1, 0⟩, 4, "a", none⟩]

/-- Two nodes of a second rack, joined in the other order. -/
def secondRack : List Participant :=
  [⟨⟨"b2", 1, 0⟩, 2, "b", none⟩, ⟨⟨"b1", 1, 0⟩, 1, "b", none⟩]

def standbyNode : Participant := ⟨⟨"c5", 1, 0⟩, 5, "c", none⟩

theorem assignGroupRanks_meets_racks :
    ∃ ranks, assignGroupRanks (some 2) 4 (secondRack ++ firstRack) [standbyNode] = .ok ranks ∧
      SegmentRanks (some 2) 4 (secondRack ++ firstRack) [standbyNode] ranks :=
  (assignGroupRanks_meets (by decide) (Or.inl ⟨by decide, by decide⟩) ⟨by decide, by decide⟩
    (by decide)).2 (by decide +kernel)

end ResiliencyExt.FaultTolerance.Rendezvous
