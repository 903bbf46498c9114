import ResiliencyExt.FaultTolerance.Rendezvous.GroupRanks

set_option autoImplicit false

/-!
# Rendezvous: buckets and domains of the assignment

What the first two steps of `_assign_group_ranks` hand to the walk.  The buckets are
sorted by one infrastructure rank for every node (`effectiveInfraRank`), synthetic
when a participant has none.  The active candidates are grouped by domain, each
domain in the order of the infrastructure ranks, and the domains by their first
nodes (`InDomains`).  Counting the complete segments of these domains is what
`_can_meet_segment_constraint` does with a dictionary of its own
(`canMeetSegmentConstraint_eq`).
-/

namespace ResiliencyExt.FaultTolerance.Rendezvous

open Foundation List

/-! ## Infrastructure ranks -/

/-- The infrastructure rank by which a node is sorted: its own, or its place among all nodes when
some participant has none. -/
def effectiveInfraRank (rankable : List Participant) (nodeDesc : NodeDesc) : Int :=
  if rankable.any fun p => p.infraRank = -1 then
    ((infraRankByNode rankable).get? nodeDesc).getD 0
  else ((rankable.find? fun p => p.nodeDesc = nodeDesc).map (·.infraRank)).getD 0

/-- A participant with another infrastructure rank. -/
def Participant.relabel (infra : NodeDesc → Int) (p : Participant) : Participant :=
  { p with infraRank := infra p.nodeDesc }

/-- Infrastructure ranks of all participants, or none of one of them. -/
def InfraRanked (rankable : List Participant) : Prop :=
  ((rankable.map (·.infraRank)).Nodup ∧ ∀ p ∈ rankable, 0 ≤ p.infraRank) ∨
    ∃ p ∈ rankable, p.infraRank = -1

/-- The infrastructure ranks that do not stop the assignment. -/
def InfraDistinct (rankable : List Participant) : Prop :=
  (rankable.map (·.infraRank)).Nodup ∨ ∃ p ∈ rankable, p.infraRank = -1

variable {rankable : List Participant} {p : Participant}

theorem InfraRanked.distinct (h : InfraRanked rankable) : InfraDistinct rankable :=
  h.imp_left And.left

/-- The two sorted buckets. -/
structure SortedBuckets (infra : NodeDesc → Int) (activeCandidates standbyOnly : List Participant)
    (sorted : List Participant × List Participant) : Prop where
  active : sorted.1.Perm (activeCandidates.map (·.relabel infra))
  standby : sorted.2.Perm (standbyOnly.map (·.relabel infra))
  increasing : sorted.1.Pairwise fun p q => p.infraRank < q.infraRank

/-- Every node gets the place of its participant in the order of the nodes. -/
theorem entries_infraRankByNode {participants : List Participant}
    (hnodes : (participants.map (·.nodeDesc)).Nodup) :
    (infraRankByNode participants).entries =
      (participants.insertionSort fun p q => p.nodeDesc.le q.nodeDesc).zipIdx.map
        fun e => (e.1.nodeDesc, e.2) := by
  have hperm := perm_insertionSort (fun p q : Participant => p.nodeDesc.le q.nodeDesc)
    participants
  have hnodup : ((participants.insertionSort fun p q => p.nodeDesc.le q.nodeDesc).zipIdx.map
      fun e => e.1.nodeDesc).Nodup := by
    have hmap : ((participants.insertionSort fun p q => p.nodeDesc.le q.nodeDesc).zipIdx.map
        fun e => e.1.nodeDesc) =
          (participants.insertionSort fun p q => p.nodeDesc.le q.nodeDesc).map (·.nodeDesc) := by
      conv_rhs => rw [← zipIdx_map_fst 0
        (participants.insertionSort fun p q => p.nodeDesc.le q.nodeDesc), map_map]
      rfl
    rw [hmap]
    exact (hperm.map _).nodup_iff.mpr hnodes
  unfold infraRankByNode
  rw [Dict.entries_foldl_set (fun e : Participant × Nat => e.1.nodeDesc) (fun e => e.2) hnodup
    (fun _ _ hmem => by cases hmem)]
  rfl

/-- The place of a participant in the order of the nodes. -/
theorem get?_infraRankByNode {participants : List Participant}
    (hnodes : (participants.map (·.nodeDesc)).Nodup) (hp : p ∈ participants) :
    ∃ i, (participants.insertionSort fun p q => p.nodeDesc.le q.nodeDesc)[i]? = some p ∧
      (infraRankByNode participants).get? p.nodeDesc = some i := by
  have hperm := perm_insertionSort (fun p q : Participant => p.nodeDesc.le q.nodeDesc)
    participants
  obtain ⟨i, hi, hget⟩ := mem_iff_getElem.mp (hperm.mem_iff.mpr hp)
  have hget' := List.getElem?_eq_some_iff.mpr ⟨hi, hget⟩
  refine ⟨i, hget', ?_⟩
  have hentry : (p.nodeDesc, i) ∈ (infraRankByNode participants).entries := by
    rw [entries_infraRankByNode hnodes]
    exact mem_map.mpr ⟨(p, i), mem_zipIdx_iff_getElem?.mpr hget', rfl⟩
  exact Dict.get?_eq_some_of_mem hentry

/-- Where every participant has an infrastructure rank, it is the effective one. -/
theorem effectiveInfraRank_eq (hnodes : (rankable.map (·.nodeDesc)).Nodup)
    (hassigned : ¬ (rankable.any fun p => p.infraRank = -1) = true) (hp : p ∈ rankable) :
    effectiveInfraRank rankable p.nodeDesc = p.infraRank := by
  rw [effectiveInfraRank, if_neg hassigned]
  have hsome : (rankable.find? fun s => s.nodeDesc = p.nodeDesc).isSome :=
    find?_isSome.mpr ⟨p, hp, by simp⟩
  obtain ⟨s, hs⟩ := Option.isSome_iff_exists.mp hsome
  have hnode : s.nodeDesc = p.nodeDesc := by simpa using find?_some hs
  rw [hs, inj_on_of_nodup_map hnodes (mem_of_find?_eq_some hs) hp hnode]
  rfl

/-- No two nodes have the same infrastructure rank. -/
theorem effectiveInfraRank_injOn (hnodes : (rankable.map (·.nodeDesc)).Nodup)
    (hinfra : InfraDistinct rankable) {q : Participant} (hp : p ∈ rankable) (hq : q ∈ rankable)
    (heq : effectiveInfraRank rankable p.nodeDesc = effectiveInfraRank rankable q.nodeDesc) :
    p = q := by
  by_cases hassigned : (rankable.any fun p => p.infraRank = -1) = true
  · rw [effectiveInfraRank, if_pos hassigned, effectiveInfraRank, if_pos hassigned] at heq
    obtain ⟨i, hi, hgeti⟩ := get?_infraRankByNode hnodes hp
    obtain ⟨j, hj, hgetj⟩ := get?_infraRankByNode hnodes hq
    rw [hgeti, hgetj] at heq
    have hij : i = j := by simpa using heq
    subst hij
    rw [hi] at hj
    exact Option.some.inj hj
  · rcases hinfra with hnodup | ⟨r, hr, hnone⟩
    · rw [effectiveInfraRank_eq hnodes hassigned hp,
        effectiveInfraRank_eq hnodes hassigned hq] at heq
      exact inj_on_of_nodup_map hnodup hp hq heq
    · exact absurd (any_eq_true.mpr ⟨r, hr, decide_eq_true hnone⟩) hassigned

/-- Two spellings of one order sort alike. -/
theorem insertionSort_congr {α : Type} {r s : α → α → Prop} [DecidableRel r] [DecidableRel s]
    (h : ∀ a b, r a b ↔ s a b)
      (items : List α) : items.insertionSort r = items.insertionSort s := by
  obtain rfl : r = s := funext fun a => funext fun b => propext (h a b)
  congr!

theorem relabel_perm_insertionSort (infra : NodeDesc → Int) (participants : List Participant) :
    (((participants.insertionSort fun p q => infra p.nodeDesc ≤ infra q.nodeDesc).map
      (·.relabel infra)).Perm (participants.map (·.relabel infra))) :=
  (perm_insertionSort _ participants).map _

/-- Sorting by infrastructure ranks that differ makes them increase. -/
theorem increasing_insertionSort {infra : NodeDesc → Int} {participants : List Participant}
    (hnodes : (participants.map (·.nodeDesc)).Nodup)
    (hinj : ∀ p ∈ participants, ∀ q ∈ participants,
      infra p.nodeDesc = infra q.nodeDesc → p = q) :
    ((participants.insertionSort fun p q => infra p.nodeDesc ≤ infra q.nodeDesc).map
      (·.relabel infra)).Pairwise fun p q => p.infraRank < q.infraRank := by
  rw [pairwise_map]
  have hperm := perm_insertionSort
    (fun p q : Participant => infra p.nodeDesc ≤ infra q.nodeDesc) participants
  have hsorted : (participants.insertionSort fun p q =>
      infra p.nodeDesc ≤ infra q.nodeDesc).Pairwise fun p q =>
        infra p.nodeDesc ≤ infra q.nodeDesc := by
    have : Std.Total fun p q : Participant => infra p.nodeDesc ≤ infra q.nodeDesc :=
      ⟨fun p q => Int.le_total _ _⟩
    have : IsTrans Participant fun p q => infra p.nodeDesc ≤ infra q.nodeDesc :=
      ⟨fun _ _ _ => Int.le_trans⟩
    exact pairwise_insertionSort _ _
  have hnodup := hperm.nodup_iff.mpr (List.Nodup.of_map _ hnodes)
  refine (hsorted.and hnodup).imp_of_mem fun hp hq h => ?_
  refine lt_of_le_of_ne h.1 fun heq => h.2 ?_
  exact hinj _ (hperm.mem_iff.mp hp) _ (hperm.mem_iff.mp hq) heq

/-- `_sort_rankable_participants` succeeds, and both buckets get the effective infrastructure
ranks. -/
theorem sortRankableParticipants_ok {activeCandidates standbyOnly : List Participant}
    (hnodes : ((activeCandidates ++ standbyOnly).map (·.nodeDesc)).Nodup)
    (hinfra : InfraDistinct (activeCandidates ++ standbyOnly)) :
    ∃ sorted, sortRankableParticipants activeCandidates standbyOnly = .ok sorted ∧
      SortedBuckets (effectiveInfraRank (activeCandidates ++ standbyOnly)) activeCandidates
        standbyOnly sorted := by
  have hinj : ∀ p ∈ activeCandidates, ∀ q ∈ activeCandidates,
      effectiveInfraRank (activeCandidates ++ standbyOnly) p.nodeDesc =
        effectiveInfraRank (activeCandidates ++ standbyOnly) q.nodeDesc → p = q :=
    fun p hp q hq => effectiveInfraRank_injOn hnodes hinfra (mem_append_left _ hp)
      (mem_append_left _ hq)
  have hactiveNodes : (activeCandidates.map (·.nodeDesc)).Nodup := by
    rw [map_append] at hnodes
    exact (nodup_append.mp hnodes).1
  have hdisjoint : (activeCandidates.any fun p =>
      standbyOnly.any fun q => p.nodeDesc = q.nodeDesc) = false := by
    rw [map_append] at hnodes
    have hne := (nodup_append.mp hnodes).2.2
    simp only [any_eq_false, any_eq_true, not_exists, not_and, decide_eq_true_eq]
    exact fun p hp q hq heq =>
      hne _ (mem_map_of_mem hp) _ (mem_map_of_mem hq) heq
  have hsorted := increasing_insertionSort hactiveNodes hinj
  have hactivePerm := relabel_perm_insertionSort
    (effectiveInfraRank (activeCandidates ++ standbyOnly)) activeCandidates
  have hstandbyPerm := relabel_perm_insertionSort
    (effectiveInfraRank (activeCandidates ++ standbyOnly)) standbyOnly
  unfold sortRankableParticipants
  rw [hdisjoint]
  by_cases hsynthetic : (activeCandidates ++ standbyOnly).any fun p => p.infraRank = -1
  · -- the synthetic ranks are the effective ones
    have heffective : ∀ nodeDesc, effectiveInfraRank (activeCandidates ++ standbyOnly) nodeDesc =
        ((infraRankByNode (activeCandidates ++ standbyOnly)).get? nodeDesc).getD 0 :=
      fun nodeDesc => if_pos hsynthetic
    have hsame : ∀ participants : List Participant,
        withSyntheticInfraRanks (infraRankByNode (activeCandidates ++ standbyOnly)) participants =
          (participants.insertionSort fun p q =>
            effectiveInfraRank (activeCandidates ++ standbyOnly) p.nodeDesc ≤
              effectiveInfraRank (activeCandidates ++ standbyOnly) q.nodeDesc).map
            (·.relabel (effectiveInfraRank (activeCandidates ++ standbyOnly))) := by
      intro participants
      let place : Participant → Nat := fun p =>
        ((infraRankByNode (activeCandidates ++ standbyOnly)).get? p.nodeDesc).getD 0
      have hsort : (participants.insertionSort fun p q => (place p : Int) ≤ place q) =
          participants.insertionSort fun p q => place p ≤ place q :=
        insertionSort_congr (fun p q => Int.ofNat_le) participants
      simp only [heffective, withSyntheticInfraRanks, Participant.relabel]
      exact congrArg _ hsort.symm
    refine ⟨_, if_pos hsynthetic, ?_⟩
    rw [hsame, hsame]
    exact ⟨hactivePerm, hstandbyPerm, hsorted⟩
  · -- every participant keeps its own
    have hnodup : ((activeCandidates ++ standbyOnly).map (·.infraRank)).Nodup := by
      rcases hinfra with hnodup | ⟨r, hr, hnone⟩
      · exact hnodup
      · exact absurd (any_eq_true.mpr ⟨r, hr, decide_eq_true hnone⟩) hsynthetic
    have hkeeps : ∀ participants : List Participant,
      participants ⊆ activeCandidates ++ standbyOnly →
        participants.map (·.relabel (effectiveInfraRank (activeCandidates ++ standbyOnly))) =
          participants := by
      intro participants hsubset
      refine (map_congr_left fun p hp => ?_).trans (map_id participants)
      rw [Participant.relabel, effectiveInfraRank_eq hnodes hsynthetic (hsubset hp)]
      rfl
    refine ⟨_, (if_neg hsynthetic).trans (if_pos hnodup), ?_, ?_, ?_⟩
    · rw [hkeeps _ (subset_append_left _ _)]
      exact perm_insertionSort _ _
    · rw [hkeeps _ (subset_append_right _ _)]
      exact perm_insertionSort _ _
    · have hperm := perm_insertionSort
        (fun p q : Participant => p.infraRank ≤ q.infraRank) activeCandidates
      have hle : (activeCandidates.insertionSort fun p q =>
          p.infraRank ≤ q.infraRank).Pairwise fun p q => p.infraRank ≤ q.infraRank := by
        have : Std.Total fun p q : Participant => p.infraRank ≤ q.infraRank :=
          ⟨fun p q => Int.le_total _ _⟩
        have : IsTrans Participant fun p q => p.infraRank ≤ q.infraRank :=
          ⟨fun _ _ _ => Int.le_trans⟩
        exact pairwise_insertionSort _ _
      rw [map_append] at hnodup
      have hne := (hperm.map (·.infraRank)).nodup_iff.mpr (nodup_append.mp hnodup).1
      exact (hle.and (pairwise_map.mp hne)).imp fun h => lt_of_le_of_ne h.1 h.2

/-! ## Domains -/

/-- The domain of a participant: without segments it is a domain of its own. -/
def domainKey (segment : Option Nat) (p : Participant) : DomainKey :=
  match segment with
  | some _ => .domain p.domainId
  | none => .node p.infraRank

/-- Every key has the participants of its domain, in their order. -/
def Grouped (segment : Option Nat) (participants : List Participant)
    (domains : Dict DomainKey (List Participant)) : Prop :=
  Dict.Groups (domainKey segment) [] (fun group p => group ++ [p]) participants domains

/-- Without segments every node is set as a new key, which is what grouping does. -/
theorem foldl_set_eq_alter {participants : List Participant}
    (hincreasing : participants.Pairwise fun p q => p.infraRank < q.infraRank) :
    ∀ {domains : Dict DomainKey (List Participant)},
      (∀ p ∈ participants, DomainKey.node p.infraRank ∉ domains.keys) →
        participants.foldl (fun d p => d.set (.node p.infraRank) [p]) domains =
          participants.foldl (fun d p => d.alter (domainKey none p) [] (· ++ [p])) domains := by
  induction participants with
  | nil => exact fun _ => rfl
  | cons p rest ih =>
    intro domains hfresh
    obtain ⟨hfirst, hrest⟩ := pairwise_cons.mp hincreasing
    have hnew := hfresh p mem_cons_self
    have hsame : domains.set (.node p.infraRank) [p] =
        domains.alter (domainKey none p) [] (· ++ [p]) := by
      refine Dict.eq_of_entries ?_
      rw [Dict.set, Dict.entries_alter_of_not_mem _ _ hnew,
        Dict.entries_alter_of_not_mem _ _ (show domainKey none p ∉ domains.keys from hnew)]
      rfl
    rw [foldl_cons, foldl_cons, ← hsame]
    refine ih hrest fun q hq hmem => ?_
    rcases Dict.mem_keys_set.mp hmem with heq | hold
    · have hless := hfirst q hq
      rw [DomainKey.node.inj heq] at hless
      exact absurd hless (lt_irrefl _)
    · exact hfresh q (mem_cons_of_mem _ hq) hold

theorem requireDomains_ok {participants : List Participant}
    (h : ∀ p ∈ participants, p.domainId ≠ "none") : requireDomains participants = .ok () := by
  have hnone : participants.find? (fun p => p.domainId = "none") = none :=
    find?_eq_none.mpr fun p hp heq => h p hp (of_decide_eq_true heq)
  rw [requireDomains, hnone]

/-- Step 1 groups the sorted participants by domain. -/
theorem domainToParticipants_ok {segment : Option Nat} {participants : List Participant}
    (hincreasing : participants.Pairwise fun p q => p.infraRank < q.infraRank)
    (hdomains : segment.isSome → ∀ p ∈ participants, p.domainId ≠ "none") :
    ∃ domains, domainToParticipants segment participants = .ok domains ∧
      Grouped segment participants domains := by
  have hgrouped : Grouped segment participants (participants.foldl
      (fun d p => d.alter (domainKey segment p) [] (· ++ [p])) .empty) :=
    Dict.groups_of_foldl_alter participants
  cases segment with
  | none =>
    refine ⟨_, rfl, ?_⟩
    rw [foldl_set_eq_alter hincreasing fun _ _ hmem => by cases hmem]
    exact hgrouped
  | some size =>
    refine ⟨_, ?_, hgrouped⟩
    simp only [domainToParticipants, requireDomains_ok (hdomains rfl)]
    rfl

/-- The members of a domain, in the order of the participants. -/
def members (segment : Option Nat) (participants : List Participant) (key : DomainKey) :
    List Participant :=
  participants.filter fun p => domainKey segment p = key

theorem Grouped.value {segment : Option Nat} {participants : List Participant}
    {domains : Dict DomainKey (List Participant)} (h : Grouped segment participants domains)
    {e : DomainKey × List Participant} (he : e ∈ domains.entries) :
    e.2 = members segment participants e.1 := by
  rw [(Dict.Groups.value h e he).2, foldl_append_eq_append, nil_append,
    ← flatMap_def, flatMap_singleton']
  rfl

theorem mem_members {segment : Option Nat} {participants : List Participant} {key : DomainKey} :
    p ∈ members segment participants key ↔ p ∈ participants ∧ domainKey segment p = key := by
  rw [members, mem_filter, decide_eq_true_eq]

/-- The domains of the participants in the order of the walk: each key once, and a domain
before the others has a node before all of theirs. -/
structure InDomains (segment : Option Nat) (participants : List Participant)
    (keys : List DomainKey) : Prop where
  each : keys.Perm (participants.map (domainKey segment)).dedup
  order : keys.Pairwise fun k l => ∃ d ∈ members segment participants k,
    ∀ q ∈ members segment participants l, d.infraRank < q.infraRank

namespace InDomains

variable {segment : Option Nat} {participants : List Participant} {keys : List DomainKey}

theorem mem_keys (h : InDomains segment participants keys) {key : DomainKey} :
    key ∈ keys ↔ ∃ p ∈ participants, domainKey segment p = key := by
  rw [h.each.mem_iff, mem_dedup, mem_map]

theorem nodup (h : InDomains segment participants keys) : keys.Nodup :=
  h.each.nodup_iff.mpr (nodup_dedup _)

/-- Every participant is in one domain. -/
theorem flatten_perm (h : InDomains segment participants keys) (hnodup : participants.Nodup) :
    ((keys.map (members segment participants)).flatten).Perm participants := by
  refine (perm_ext_iff_of_nodup ?_ hnodup).mpr fun p => ?_
  · rw [nodup_flatten, pairwise_map]
    refine ⟨fun domain hdomain => ?_, h.nodup.imp fun hne => ?_⟩
    · obtain ⟨key, -, rfl⟩ := mem_map.mp hdomain
      exact hnodup.filter _
    · exact fun p hp hq => hne ((mem_members.mp hp).2.symm.trans (mem_members.mp hq).2)
  · rw [← flatMap_def, mem_flatMap]
    constructor
    · rintro ⟨key, -, hp⟩
      exact (mem_members.mp hp).1
    · exact fun hp => ⟨domainKey segment p, h.mem_keys.mpr ⟨p, hp, rfl⟩,
        mem_members.mpr ⟨hp, rfl⟩⟩

/-- The number of complete segments in all domains. -/
theorem sum_div_eq (h : InDomains segment participants keys) (size : Nat) :
    ((keys.map (members segment participants)).map fun domain => domain.length / size).sum =
      ((participants.map (domainKey segment)).dedup.map fun key =>
        (participants.countP fun p => domainKey segment p = key) / size).sum := by
  rw [map_map, ← (h.each.map _).sum_eq]
  refine congrArg sum (map_congr_left fun key _ => ?_)
  rw [countP_eq_length_filter]
  rfl

end InDomains

/-- The infrastructure rank by which a domain is sorted. -/
def firstInfraRank (domain : List Participant) : Int :=
  (domain.head?.map (·.infraRank)).getD 0

/-- The first member of a domain is the one with the least infrastructure rank. -/
theorem firstInfraRank_members {segment : Option Nat} {participants : List Participant}
    (hincreasing : participants.Pairwise fun p q => p.infraRank < q.infraRank) {key : DomainKey}
    (hkey : ∃ p ∈ participants, domainKey segment p = key) :
    ∃ d ∈ members segment participants key,
      firstInfraRank (members segment participants key) = d.infraRank ∧
        ∀ q ∈ members segment participants key, d.infraRank ≤ q.infraRank := by
  obtain ⟨p, hp, rfl⟩ := hkey
  have hmem : p ∈ members segment participants (domainKey segment p) :=
    mem_members.mpr ⟨hp, rfl⟩
  have hsorted : (members segment participants (domainKey segment p)).Pairwise
      fun p q => p.infraRank < q.infraRank := hincreasing.sublist filter_sublist
  cases hcase : members segment participants (domainKey segment p) with
  | nil => rw [hcase] at hmem; exact absurd hmem not_mem_nil
  | cons d rest =>
    rw [hcase] at hsorted
    refine ⟨d, mem_cons_self, rfl, fun q hq => ?_⟩
    rcases mem_cons.mp hq with rfl | hrest
    · exact le_refl _
    · exact le_of_lt ((pairwise_cons.mp hsorted).1 q hrest)

/-- Steps 1 and 2: the domains in the order of their first nodes. -/
theorem sortedDomains_ok {segment : Option Nat} {participants : List Participant}
    (hincreasing : participants.Pairwise fun p q => p.infraRank < q.infraRank)
    {domains : Dict DomainKey (List Participant)} (h : Grouped segment participants domains) :
    ∃ keys, sortedDomains domains = keys.map (members segment participants) ∧
      InDomains segment participants keys := by
  have hvalues : domains.entries.map Prod.snd =
      domains.keys.map (members segment participants) := by
    rw [Dict.keys, map_map]
    exact map_congr_left fun e he => h.value he
  let first (key : DomainKey) : Int := firstInfraRank (members segment participants key)
  have hperm := perm_insertionSort (fun k l => first k ≤ first l) domains.keys
  have hsorted : (domains.keys.insertionSort fun k l => first k ≤ first l).Pairwise
      fun k l => first k ≤ first l := by
    have : Std.Total fun k l => first k ≤ first l := ⟨fun k l => Int.le_total _ _⟩
    have : IsTrans DomainKey fun k l => first k ≤ first l := ⟨fun _ _ _ => Int.le_trans⟩
    exact pairwise_insertionSort _ _
  have heach := hperm.trans h.keys_perm_dedup
  have hkey : ∀ key ∈ domains.keys.insertionSort (fun k l => first k ≤ first l),
      ∃ p ∈ participants, domainKey segment p = key := fun key hmem =>
    mem_map.mp (mem_dedup.mp (heach.mem_iff.mp hmem))
  refine ⟨domains.keys.insertionSort fun k l => first k ≤ first l, ?_, heach, ?_⟩
  · rw [sortedDomains, hvalues]
    exact (map_insertionSort (fun k l => first k ≤ first l)
      (fun a b => firstInfraRank a ≤ firstInfraRank b) (members segment participants)
      domains.keys fun _ _ _ _ => Iff.rfl).symm
  · refine (hsorted.and (hperm.nodup_iff.mpr domains.nodup_keys)).imp_of_mem ?_
    rintro k l hk hl ⟨hle, hne⟩
    obtain ⟨d, hd, hfirst, -⟩ := firstInfraRank_members hincreasing (hkey k hk)
    obtain ⟨e, he, hfirst', hleast⟩ := firstInfraRank_members hincreasing (hkey l hl)
    refine ⟨d, hd, fun q hq => lt_of_lt_of_le (lt_of_le_of_ne ?_ fun heq => hne ?_) (hleast q hq)⟩
    · rw [← hfirst, ← hfirst']
      exact hle
    · -- one infrastructure rank is one node, and it is in one domain
      have hnodup : (participants.map (·.infraRank)).Nodup :=
        pairwise_map.mpr (hincreasing.imp ne_of_lt)
      have hsame := inj_on_of_nodup_map hnodup (mem_members.mp hd).1
        (mem_members.mp he).1 heq
      rw [← (mem_members.mp hd).2, ← (mem_members.mp he).2, hsame]

/-! ## The feasibility check -/

/-- The dictionary of the check holds the size of every domain. -/
theorem sum_domainToCount (participants : List Participant) (size : Nat) :
    ((participants.foldl (fun d p => d.alter p.domainId 0 (· + 1))
      (Dict.empty : Dict String Nat)).entries.map fun e => e.2 / size).sum =
      ((participants.map (·.domainId)).dedup.map fun domainId =>
        (participants.countP fun p => p.domainId = domainId) / size).sum := by
  have hgroups : Dict.Groups (·.domainId) 0 (fun count (_ : Participant) => count + 1) participants
      (participants.foldl (fun d p => d.alter p.domainId 0 (· + 1)) .empty) :=
    Dict.groups_of_foldl_alter participants
  rw [← (hgroups.keys_perm_dedup.map _).sum_eq, Dict.keys, map_map]
  refine congrArg sum (map_congr_left fun e he => ?_)
  have hcount : ∀ (items : List Participant) (n : Nat),
      items.foldl (fun count _ => count + 1) n = n + items.length := by
    intro items
    induction items with
    | nil => exact fun _ => rfl
    | cons p rest ih =>
      intro n
      rw [foldl_cons, ih, length_cons]
      omega
  rw [(hgroups.value e he).2, hcount, Nat.zero_add, Function.comp_apply,
    countP_eq_length_filter]

/-- `_can_meet_segment_constraint` counts the complete segments of the domains of the walk. -/
theorem canMeetSegmentConstraint_eq {segment : Option Nat} {infra : NodeDesc → Int}
    {activeCandidates participants : List Participant} {keys : List DomainKey}
    (hperm : participants.Perm (activeCandidates.map (·.relabel infra)))
    (hkeys : InDomains segment participants keys) (hnodup : participants.Nodup)
    (hdomains : segment.isSome → ∀ p ∈ activeCandidates, p.domainId ≠ "none") (worldSize : Nat) :
    canMeetSegmentConstraint segment activeCandidates worldSize =
      .ok (decide (worldSize / segment.getD 1 ≤
        ((keys.map (members segment participants)).map fun domain =>
          domain.length / segment.getD 1).sum)) := by
  cases segment with
  | none =>
    have hlength : ((keys.map (members none participants)).map fun domain =>
        domain.length / 1).sum = activeCandidates.length := by
      simp only [Nat.div_one]
      rw [← length_flatten, (hkeys.flatten_perm hnodup).length_eq, hperm.length_eq,
        length_map]
    rw [Option.getD_none, hlength, Nat.div_one]
    rfl
  | some size =>
    have hsame : ((participants.map (domainKey (some size))).dedup.map fun key =>
        (participants.countP fun p => domainKey (some size) p = key) / size).sum =
          ((activeCandidates.map (·.domainId)).dedup.map fun domainId =>
            (activeCandidates.countP fun p => p.domainId = domainId) / size).sum := by
      have hcount : ∀ domainId, (participants.countP fun p =>
          domainKey (some size) p = .domain domainId) =
            activeCandidates.countP fun p => p.domainId = domainId := by
        intro domainId
        rw [hperm.countP_eq, countP_map]
        refine countP_congr fun p _ => ?_
        simp [domainKey, Participant.relabel]
      have hkey : (participants.map (domainKey (some size))).Perm
          ((activeCandidates.map (·.domainId)).map DomainKey.domain) := by
        have hmap := hperm.map (domainKey (some size))
        rwa [map_map] at hmap ⊢
      have hinj : Function.Injective DomainKey.domain := fun _ _ => DomainKey.domain.inj
      rw [(hkey.dedup.map _).sum_eq, dedup_map_of_injective hinj, map_map]
      refine congrArg sum (map_congr_left fun domainId _ => ?_)
      rw [Function.comp_apply, hcount]
    simp only [canMeetSegmentConstraint, requireDomains_ok (hdomains rfl)]
    rw [hkeys.sum_div_eq, Option.getD_some, hsame, ← sum_domainToCount]
    rfl

end ResiliencyExt.FaultTolerance.Rendezvous
