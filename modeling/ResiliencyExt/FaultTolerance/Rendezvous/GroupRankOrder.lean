import ResiliencyExt.FaultTolerance.Rendezvous.GroupRankDomains

set_option autoImplicit false

/-!
# Rendezvous: the assignment in whole segments

The walk over the sorted domains takes whole segments for the active ranks and
leaves the rest as standby.  Its result is described by two lists of nodes, in the
order of their ranks (`RankWalk.Covers`); the active one is a part of each domain,
one after another (`activeNodes`).  `assignGroupRanks_spec` says what
`_assign_group_ranks` returns, and when it raises.
-/

namespace ResiliencyExt.FaultTolerance.Rendezvous

open Foundation List

/-! ## What the walk takes -/

/-- The nodes with active ranks, in their order, when `remaining` segments are missing. -/
def activeNodes (segment : Nat) : Nat → List (List Participant) → List Participant
  | _, [] => []
  | remaining, domain :: rest =>
    domain.take (min (domain.length / segment) remaining * segment) ++
      activeNodes segment (remaining - min (domain.length / segment) remaining) rest

/-- The candidates that are left over for standby ranks. -/
def overflowNodes (segment : Nat) : Nat → List (List Participant) → List Participant
  | _, [] => []
  | remaining, domain :: rest =>
    domain.drop (min (domain.length / segment) remaining * segment) ++
      overflowNodes segment (remaining - min (domain.length / segment) remaining) rest

/-- The number of complete segments in the domains. -/
def completeSegments (segment : Nat) (domains : List (List Participant)) : Nat :=
  (domains.map fun domain => domain.length / segment).sum

variable (segment : Nat) (domains : List (List Participant))

theorem activeNodes_overflowNodes_perm :
    ∀ remaining, (activeNodes segment remaining domains ++
      overflowNodes segment remaining domains).Perm domains.flatten := by
  induction domains with
  | nil => exact fun _ => .nil
  | cons domain rest ih =>
    intro remaining
    have hrest := ih (remaining - min (domain.length / segment) remaining)
    simp only [activeNodes, overflowNodes, flatten_cons]
    refine List.Perm.trans ?_ ((List.Perm.of_eq (take_append_drop
      (min (domain.length / segment) remaining * segment) domain)).append hrest)
    rw [append_assoc, append_assoc]
    refine List.Perm.append_left _ ?_
    rw [← append_assoc, ← append_assoc]
    exact perm_append_comm.append_right _

theorem activeNodes_sublist :
    ∀ remaining, List.Sublist (activeNodes segment remaining domains) domains.flatten := by
  induction domains with
  | nil => exact fun _ => .slnil
  | cons domain rest ih => exact fun _ => (take_sublist _ _).append (ih _)

theorem length_activeNodes :
    ∀ remaining, (activeNodes segment remaining domains).length =
      min (completeSegments segment domains) remaining * segment := by
  induction domains with
  | nil => simp [activeNodes, completeSegments]
  | cons domain rest ih =>
    intro remaining
    have htaken : min (domain.length / segment) remaining * segment ≤ domain.length :=
      (Nat.mul_le_mul_right segment (Nat.min_le_left _ _)).trans (Nat.div_mul_le_self _ _)
    rw [activeNodes, length_append, ih, length_take_of_le htaken, ← Nat.add_mul]
    have hsum : completeSegments segment (domain :: rest) =
        domain.length / segment + completeSegments segment rest := by
      simp [completeSegments]
    rw [hsum]
    generalize domain.length / segment = complete
    congr 1
    omega

/-- The active nodes of a domain follow those of the domains before it. -/
theorem activeNodes_append (front back : List (List Participant)) :
    ∀ remaining, ∃ left, activeNodes segment remaining (front ++ back) =
      activeNodes segment remaining front ++ activeNodes segment left back := by
  induction front with
  | nil => exact fun remaining => ⟨remaining, rfl⟩
  | cons domain rest ih =>
    intro remaining
    obtain ⟨left, h⟩ := ih (remaining - min (domain.length / segment) remaining)
    refine ⟨left, ?_⟩
    rw [cons_append, activeNodes, h, activeNodes, append_assoc]

/-! ## What the walk returns -/

/-- The ranks handed out so far are those of the `active` nodes, and after the world size those
of the `standby` nodes. -/
structure RankWalk.Covers (worldSize : Nat) (w : RankWalk) (active standby : List NodeDesc) :
    Prop where
  activeRank : w.activeRank = active.length
  standbyRank : w.standbyRank = worldSize + standby.length
  rank : ∀ d r, w.result.get? d = some r ↔
    active[r]? = some d ∨ ∃ i, standby[i]? = some d ∧ r = worldSize + i

/-- What is at a place of a list with one more item. -/
theorem getElem?_concat_eq_some {α : Type} {items : List α} {item other : α} {i : Nat} :
    (items ++ [item])[i]? = some other ↔
      items[i]? = some other ∨ (i = items.length ∧ item = other) := by
  rcases Nat.lt_trichotomy i items.length with hlt | rfl | hgt
  · rw [getElem?_append_left hlt]
    simp [Nat.ne_of_lt hlt]
  · simp
  · have hnone : items[i]? = none := getElem?_eq_none (Nat.le_of_lt hgt)
    rw [getElem?_append_right (Nat.le_of_lt hgt), hnone, getElem?_eq_none]
    · simp [Nat.ne_of_gt hgt]
    · simp only [length_singleton]
      omega

namespace RankWalk

variable {worldSize : Nat} {w : RankWalk} {active standby rest : List NodeDesc} {d : NodeDesc}
    (segment numSegments : Nat)

theorem Covers.assignActive (h : w.Covers worldSize active standby) {p : Participant}
    (hactive : p.nodeDesc ∉ active) (hstandby : p.nodeDesc ∉ standby) :
    (w.assignActive p).Covers worldSize (active ++ [p.nodeDesc]) standby where
  activeRank := by
    rw [RankWalk.assignActive, h.activeRank, length_append, length_singleton]
  standbyRank := h.standbyRank
  rank d r := by
    rw [RankWalk.assignActive, h.activeRank, Dict.get?_set, getElem?_concat_eq_some]
    split
    · rename_i heq
      subst heq
      have hold : active[r]? ≠ some p.nodeDesc := fun hmem =>
        hactive (mem_of_getElem? hmem)
      have hother : ¬ ∃ i, standby[i]? = some p.nodeDesc ∧ r = worldSize + i := by
        rintro ⟨i, hi, -⟩
        exact hstandby (mem_of_getElem? hi)
      simp only [hold, hother, false_or, or_false, and_true, Option.some.injEq]
      exact eq_comm
    · rename_i hne
      rw [h.rank]
      simp [Ne.symm hne]

theorem Covers.assignStandby (h : w.Covers worldSize active standby) {p : Participant}
    (hactive : p.nodeDesc ∉ active) (hstandby : p.nodeDesc ∉ standby) :
    (w.assignStandby p).Covers worldSize active (standby ++ [p.nodeDesc]) where
  activeRank := h.activeRank
  standbyRank := by
    rw [RankWalk.assignStandby, h.standbyRank, length_append, length_singleton,
      Nat.add_assoc]
  rank d r := by
    simp only [RankWalk.assignStandby, h.standbyRank, Dict.get?_set, getElem?_concat_eq_some]
    split
    · rename_i heq
      subst heq
      have hold : active[r]? ≠ some p.nodeDesc := fun hmem =>
        hactive (mem_of_getElem? hmem)
      have hother : ∀ i, standby[i]? ≠ some p.nodeDesc := fun i hmem =>
        hstandby (mem_of_getElem? hmem)
      simp only [hold, hother, false_or, and_true, Option.some.injEq, exists_eq_left]
      exact eq_comm
    · rename_i hne
      rw [h.rank]
      simp [Ne.symm hne]

/-- The order of the names does not matter for their being different. -/
theorem nodup_move :
    (active ++ standby ++ d :: rest).Nodup ↔ (active ++ [d] ++ standby ++ rest).Nodup := by
  refine List.Perm.nodup_iff (perm_iff_count.mpr fun e => ?_)
  simp only [count_append, count_cons, count_nil]
  omega

theorem nodup_move_standby :
    (active ++ standby ++ d :: rest).Nodup ↔ (active ++ (standby ++ [d]) ++ rest).Nodup := by
  refine List.Perm.nodup_iff (perm_iff_count.mpr fun e => ?_)
  simp only [count_append, count_cons, count_nil]
  omega

/-- A name that is different from the others is not among them. -/
theorem not_mem_of_nodup (h : (active ++ standby ++ d :: rest).Nodup) :
    d ∉ active ∧ d ∉ standby := by
  have hd := (nodup_cons.mp (perm_middle.nodup_iff.mp h)).1
  simp only [mem_append, not_or] at hd
  exact hd.1

theorem Covers.foldl_assignActive {participants : List Participant} :
    ∀ {w : RankWalk} {active standby : List NodeDesc}, w.Covers worldSize active standby →
      (active ++ standby ++ participants.map (·.nodeDesc)).Nodup →
        (participants.foldl RankWalk.assignActive w).Covers worldSize
          (active ++ participants.map (·.nodeDesc)) standby := by
  induction participants with
  | nil =>
    intro w active standby h _
    rwa [map_nil, append_nil]
  | cons p rest ih =>
    intro w active standby h hnodup
    obtain ⟨hactive, hstandby⟩ := not_mem_of_nodup hnodup
    rw [map_cons, append_cons]
    exact ih (h.assignActive hactive hstandby) (nodup_move.mp hnodup)

theorem Covers.foldl_assignStandby {participants : List Participant} :
    ∀ {w : RankWalk} {active standby : List NodeDesc}, w.Covers worldSize active standby →
      (active ++ standby ++ participants.map (·.nodeDesc)).Nodup →
        (participants.foldl RankWalk.assignStandby w).Covers worldSize active
          (standby ++ participants.map (·.nodeDesc)) := by
  induction participants with
  | nil =>
    intro w active standby h _
    rwa [map_nil, append_nil]
  | cons p rest ih =>
    intro w active standby h hnodup
    obtain ⟨hactive, hstandby⟩ := not_mem_of_nodup hnodup
    rw [map_cons, append_cons]
    exact ih (h.assignStandby hactive hstandby) (nodup_move_standby.mp hnodup)

theorem segmentsToTake_eq (w : RankWalk) (segment numSegments : Nat)
    (participants : List Participant) :
    w.segmentsToTake segment numSegments participants =
      min (participants.length / segment) (numSegments - w.activeSegments) := by
  simp only [segmentsToTake]
  generalize participants.length / segment = complete
  split
  · rfl
  · omega

/-- The number of segments after one domain. -/
theorem activeSegments_assignDomain (w : RankWalk) (participants : List Participant) :
    (w.assignDomain segment numSegments participants).activeSegments =
      w.activeSegments +
        min (participants.length / segment) (numSegments - w.activeSegments) := by
  rw [assignDomain, (foldl_assignStandby_counters _ _).2, segmentsToTake_eq]

/-- All complete segments are taken, or as many as there are missing. -/
theorem activeSegments_foldl_assignDomain (domains : List (List Participant)) : ∀ w : RankWalk,
      (domains.foldl (assignDomain segment numSegments) w).activeSegments =
        w.activeSegments +
          min (completeSegments segment domains) (numSegments - w.activeSegments) := by
  induction domains with
  | nil => simp [completeSegments]
  | cons domain rest ih =>
    intro w
    have hsum : completeSegments segment (domain :: rest) =
        domain.length / segment + completeSegments segment rest := by
      simp [completeSegments]
    rw [foldl_cons, ih, activeSegments_assignDomain, hsum]
    generalize domain.length / segment = complete
    omega

theorem Covers.assignDomain (h : w.Covers worldSize active standby) {domain : List Participant}
    (hnodup : (active ++ standby ++ domain.map (·.nodeDesc)).Nodup) :
    (w.assignDomain segment numSegments domain).Covers worldSize
      (active ++ (domain.take (min (domain.length / segment)
        (numSegments - w.activeSegments) * segment)).map (·.nodeDesc))
      (standby ++ (domain.drop (min (domain.length / segment)
        (numSegments - w.activeSegments) * segment)).map (·.nodeDesc)) := by
  unfold RankWalk.assignDomain
  rw [segmentsToTake_eq]
  generalize min (domain.length / segment) (numSegments - w.activeSegments) = taken
  rw [← take_append_drop (taken * segment) domain, map_append] at hnodup
  have hperm : (active ++ standby ++ ((domain.take (taken * segment)).map (·.nodeDesc) ++
      (domain.drop (taken * segment)).map (·.nodeDesc))).Perm
        (active ++ (domain.take (taken * segment)).map (·.nodeDesc) ++ standby ++
          (domain.drop (taken * segment)).map (·.nodeDesc)) := by
    refine perm_iff_count.mpr fun e => ?_
    simp only [count_append]
    omega
  have hfirst : (active ++ standby ++
      (domain.take (taken * segment)).map (·.nodeDesc)).Nodup := by
    rw [← append_assoc] at hnodup
    exact (nodup_append.mp hnodup).1
  have hactive := h.foldl_assignActive hfirst
  exact Covers.foldl_assignStandby ⟨hactive.activeRank, hactive.standbyRank, hactive.rank⟩
    (hperm.nodup_iff.mp hnodup)

theorem Covers.foldl_assignDomain (domains : List (List Participant)) :
    ∀ {w : RankWalk} {active standby : List NodeDesc},
      w.Covers worldSize active standby →
        (active ++ standby ++ domains.flatten.map (·.nodeDesc)).Nodup →
          (domains.foldl (RankWalk.assignDomain segment numSegments) w).Covers worldSize
            (active ++ (activeNodes segment (numSegments - w.activeSegments) domains).map
              (·.nodeDesc))
            (standby ++ (overflowNodes segment (numSegments - w.activeSegments) domains).map
              (·.nodeDesc)) := by
  induction domains with
  | nil =>
    intro w active standby h _
    simpa [activeNodes, overflowNodes] using h
  | cons domain rest ih =>
    intro w active standby h hnodup
    rw [flatten_cons, map_append, ← append_assoc] at hnodup
    have hdomain := h.assignDomain segment numSegments
      (nodup_append.mp hnodup).1
    have hnext := ih hdomain ?_
    · rw [activeSegments_assignDomain, Nat.sub_add_eq] at hnext
      simpa only [activeNodes, overflowNodes, map_append, append_assoc,
        foldl_cons] using hnext
    · refine (List.Perm.nodup_iff ?_).mp hnodup
      conv_lhs => rw [← take_append_drop (min (domain.length / segment)
        (numSegments - w.activeSegments) * segment) domain]
      refine perm_iff_count.mpr fun e => ?_
      simp only [map_append, count_append]
      omega

/-- With a full world the ranks are the places in the list of all nodes. -/
theorem Covers.entries_perm (h : w.Covers worldSize active standby)
    (hlength : active.length = worldSize) :
    w.result.entries.Perm (active ++ standby).zipIdx := by
  have hnodup : (active ++ standby).zipIdx.Nodup := by
    refine List.Nodup.of_map Prod.snd ?_
    rw [zipIdx_map_snd]
    exact nodup_range'
  refine (perm_ext_iff_of_nodup (List.Nodup.of_map _ w.result.nodup) hnodup).mpr ?_
  rintro ⟨d, r⟩
  have hget : (d, r) ∈ w.result.entries ↔ w.result.get? d = some r :=
    ⟨Dict.get?_eq_some_of_mem, Dict.mem_of_get?_eq_some⟩
  rw [hget, h.rank, mem_zipIdx_iff_getElem?, getElem?_append, hlength]
  split
  · rename_i hlt
    refine ⟨fun hor => hor.resolve_right ?_, Or.inl⟩
    rintro ⟨i, -, heq⟩
    omega
  · rename_i hge
    have hnone : active[r]? = none := getElem?_eq_none (by omega)
    rw [hnone]
    constructor
    · rintro (hnot | ⟨i, hi, rfl⟩)
      · cases hnot
      · rwa [Nat.add_sub_cancel_left]
    · exact fun hi => Or.inr ⟨r - worldSize, hi, by omega⟩

end RankWalk

/-- The nodes of relabelled participants. -/
theorem map_nodeDesc_perm {infra : NodeDesc → Int} {sorted participants : List Participant}
    (h : sorted.Perm (participants.map (·.relabel infra))) :
    (sorted.map (·.nodeDesc)).Perm (participants.map (·.nodeDesc)) := by
  have hmap := h.map (·.nodeDesc)
  rwa [map_map] at hmap

/-- The sorted participants, their domains and the nodes that follow the active ones, which
together determine the assignment. -/
structure AssignmentOrder (segment : Option Nat) (worldSize : Nat)
    (activeCandidates standbyOnly participants : List Participant) (keys : List DomainKey)
    (standby : List NodeDesc) : Prop where
  sorted : participants.Perm
    (activeCandidates.map (·.relabel (effectiveInfraRank (activeCandidates ++ standbyOnly))))
  increasing : participants.Pairwise fun p q => p.infraRank < q.infraRank
  domains : InDomains segment participants keys
  nodes : ((activeNodes (segment.getD 1) (worldSize / segment.getD 1)
    (keys.map (members segment participants))).map (·.nodeDesc) ++ standby).Perm
      ((activeCandidates ++ standbyOnly).map (·.nodeDesc))
  standbyOnly : ∀ p ∈ standbyOnly, p.nodeDesc ∈ standby

/-- `_assign_group_ranks` raises when the domains have too few complete segments; otherwise the
ranks are the places of the nodes. -/
theorem assignGroupRanks_cases {segment : Option Nat} {worldSize : Nat}
    {activeCandidates standbyOnly : List Participant}
    (hnodes : ((activeCandidates ++ standbyOnly).map (·.nodeDesc)).Nodup)
    (hinfra : InfraDistinct (activeCandidates ++ standbyOnly))
    (hworld : segment.getD 1 ∣ worldSize)
    (hdomains : segment.isSome → ∀ p ∈ activeCandidates, p.domainId ≠ "none") :
    ∃ participants keys standby,
      AssignmentOrder segment worldSize activeCandidates standbyOnly participants keys standby ∧
        (completeSegments (segment.getD 1) (keys.map (members segment participants)) <
            worldSize / segment.getD 1 → ∃ segments nodes needed world size,
          assignGroupRanks segment worldSize activeCandidates standbyOnly =
            .error (.insufficientNodes segments nodes needed world size)) ∧
        (worldSize / segment.getD 1 ≤
            completeSegments (segment.getD 1) (keys.map (members segment participants)) →
          ∃ ranks, assignGroupRanks segment worldSize activeCandidates standbyOnly = .ok ranks ∧
            ranks.entries.Perm ((activeNodes (segment.getD 1) (worldSize / segment.getD 1)
              (keys.map (members segment participants))).map (·.nodeDesc) ++ standby).zipIdx) := by
  obtain ⟨⟨participants, standbySorted⟩, hsorted, hbuckets⟩ :=
    sortRankableParticipants_ok hnodes hinfra
  have hperm : participants.Perm _ := hbuckets.active
  have hdomains' : segment.isSome → ∀ p ∈ participants, p.domainId ≠ "none" := by
    intro hsome p hp
    obtain ⟨q, hq, rfl⟩ := mem_map.mp (hperm.mem_iff.mp hp)
    exact hdomains hsome q hq
  obtain ⟨domains, hok, hgrouped⟩ := domainToParticipants_ok hbuckets.increasing hdomains'
  obtain ⟨keys, hkeys, hin⟩ := sortedDomains_ok hbuckets.increasing hgrouped
  have hnodup : participants.Nodup := hbuckets.increasing.imp fun hlt heq => by
    rw [heq] at hlt
    exact lt_irrefl _ hlt
  have hflat := (hin.flatten_perm hnodup).map (·.nodeDesc)
  have hstandbyNodes : (standbySorted.map (·.nodeDesc)).Perm (standbyOnly.map (·.nodeDesc)) :=
    map_nodeDesc_perm hbuckets.standby
  have hall : ((keys.map (members segment participants)).flatten.map (·.nodeDesc) ++
      standbySorted.map (·.nodeDesc)).Perm
        ((activeCandidates ++ standbyOnly).map (·.nodeDesc)) := by
    rw [map_append]
    exact (hflat.trans (map_nodeDesc_perm hperm)).append hstandbyNodes
  -- the walk over the domains, and the standby participants after it
  have hstart : RankWalk.Covers worldSize ⟨.empty, 0, 0, worldSize⟩ [] [] :=
    ⟨rfl, rfl, by simp [Dict.get?, Dict.empty]⟩
  have hwalk := RankWalk.Covers.foldl_assignDomain (segment.getD 1)
    (worldSize / segment.getD 1) (keys.map (members segment participants)) hstart
    (by simpa using (nodup_append.mp (hall.nodup_iff.mpr hnodes)).1)
  have htaken := RankWalk.activeSegments_foldl_assignDomain (segment.getD 1)
    (worldSize / segment.getD 1) (keys.map (members segment participants))
    ⟨.empty, 0, 0, worldSize⟩
  have hparts := (activeNodes_overflowNodes_perm (segment.getD 1)
    (keys.map (members segment participants)) (worldSize / segment.getD 1)).map (·.nodeDesc)
  simp only [Nat.sub_zero, Nat.zero_add, nil_append] at hwalk htaken
  have hassign : assignGroupRanks segment worldSize activeCandidates standbyOnly =
      if ((keys.map (members segment participants)).foldl
          (RankWalk.assignDomain (segment.getD 1) (worldSize / segment.getD 1))
          ⟨.empty, 0, 0, worldSize⟩).activeSegments < worldSize / segment.getD 1 then
        .error (.insufficientNodes
          ((keys.map (members segment participants)).foldl
            (RankWalk.assignDomain (segment.getD 1) (worldSize / segment.getD 1))
            ⟨.empty, 0, 0, worldSize⟩).activeSegments
          ((keys.map (members segment participants)).foldl
            (RankWalk.assignDomain (segment.getD 1) (worldSize / segment.getD 1))
            ⟨.empty, 0, 0, worldSize⟩).activeRank
          (worldSize / segment.getD 1) worldSize (segment.getD 1))
      else .ok (standbySorted.foldl RankWalk.assignStandby
        ((keys.map (members segment participants)).foldl
          (RankWalk.assignDomain (segment.getD 1) (worldSize / segment.getD 1))
          ⟨.empty, 0, 0, worldSize⟩)).result := by
    unfold assignGroupRanks
    rw [if_neg (not_not.mpr (Nat.mod_eq_zero_of_dvd hworld)), hsorted]
    change (domainToParticipants segment participants >>= _) = _
    rw [hok, ← hkeys]
    rfl
  rw [htaken] at hassign
  have hnames : ((activeNodes (segment.getD 1) (worldSize / segment.getD 1)
      (keys.map (members segment participants))).map (·.nodeDesc) ++
        ((overflowNodes (segment.getD 1) (worldSize / segment.getD 1)
          (keys.map (members segment participants))).map (·.nodeDesc) ++
            standbySorted.map (·.nodeDesc))).Perm
      ((activeCandidates ++ standbyOnly).map (·.nodeDesc)) := by
    rw [← append_assoc, ← map_append]
    exact (hparts.append_right _).trans hall
  refine ⟨participants, keys, _, ⟨hperm, hbuckets.increasing, hin, hnames, ?_⟩, ?_, ?_⟩
  · intro p hp
    exact mem_append_right _ (hstandbyNodes.mem_iff.mpr (mem_map_of_mem hp))
  · intro hshort
    refine ⟨_, _, _, _, _, hassign.trans (if_pos ?_)⟩
    omega
  · intro henough
    refine ⟨_, hassign.trans (if_neg (by omega)), ?_⟩
    rw [← append_assoc] at hnames
    refine (hwalk.foldl_assignStandby (hnames.nodup_iff.mpr hnodes)).entries_perm ?_
    rw [length_map, length_activeNodes, Nat.min_eq_right henough,
      Nat.div_mul_cancel hworld]

end ResiliencyExt.FaultTolerance.Rendezvous
