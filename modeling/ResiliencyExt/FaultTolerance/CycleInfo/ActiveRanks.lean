import ResiliencyExt.FaultTolerance.CycleInfo.NodeListExact
set_option autoImplicit false

/-!
# Cycle info: the ranks of the active nodes

The ranks are published in the order of `slurm_sort_addrs`, so that the rank at a place
is that of the node at the same place of the node list.  The list is in that order when
every name has a number.  When some name has none, the list is in the order of the names
as texts, and the two orders may differ.
-/

namespace ResiliencyExt.FaultTolerance.CycleInfo

open Foundation Hostlist Unicode List

/-! ## The source -/

/-- The active nodes and their ranks in a round, as `assign_group_ranks` leaves them and a
snapshot of the round carries them. -/
structure ActiveNodes where
  activeNodeAddrs : Option (List (List Char))
  activeRanks : Option (List Nat)

/-- The nodes that were given a rank below the world size, in the order of their slots. -/
def ActiveNodes.assigned (hosts : List (List Char × Nat)) : ActiveNodes where
  activeNodeAddrs := some (hosts.map Prod.fst)
  activeRanks := some (hosts.map Prod.snd)

/-- `dict(zip(addrs, ranks))` -/
def addrToRank (addrs : List (List Char)) (ranks : List Nat) : Dict (List Char) Nat :=
  (addrs.zip ranks).foldl (fun d entry => d.set entry.1 entry.2) Dict.empty

/-- `addr_to_rank[addr]`; the error is the missing key. -/
def rankOf (ranks : Dict (List Char) Nat) (addr : List Char) : Except (List Char) Nat :=
  match ranks.get? addr with
  | some rank => .ok rank
  | none => .error addr

/-- The ranks in the order of `slurm_sort_addrs`. -/
def ranksInSlurmOrder (addrs : List (List Char)) (ranks : List Nat) :
    Except (List Char) (List Nat) :=
  (slurmSortAddrs addrs).mapM (rankOf (addrToRank addrs ranks))

/-- `_format_nodes` -/
def formatNodes (addrs : Option (List (List Char))) : List Char :=
  if addrs.getD [] = [] then [] else hostnamesToSlurmNodelist (addrs.getD [])

/-- `_format_active_ranks` -/
def formatActiveRanks (snapshot : ActiveNodes) : Except (List Char) (List Char) :=
  match snapshot.activeRanks with
  | none => .ok []
  | some activeRanks =>
    let activeAddrs := snapshot.activeNodeAddrs.getD []
    if activeAddrs ≠ [] ∧ activeAddrs.length = activeRanks.length then
      (ranksInSlurmOrder activeAddrs activeRanks).map ranksToRangeStr
    else .ok (ranksToRangeStr activeRanks)

/-- `get_active_ranks` -/
def getActiveRanks (state : ActiveNodes) : Except (List Char) (Option (List Nat)) :=
  match state.activeNodeAddrs, state.activeRanks with
  | some addrs, some ranks => (ranksInSlurmOrder addrs ranks).map some
  | _, _ => .ok none

/-! ## What is published -/

/-- The short names of the active nodes. -/
def hostNames (hosts : List (List Char × Nat)) : List (List Char) :=
  hosts.map fun host => shortName host.1

/-- The name is that of a node with the rank. -/
def Assigned (hosts : List (List Char × Nat)) (name : List Char) (rank : Nat) : Prop :=
  ∃ addr, (addr, rank) ∈ hosts ∧ shortName addr = name

/-- The ranks that are published are those of the nodes that are published, place by place,
and they are the ranks that `get_active_ranks` returns. -/
def Aligned (hosts : List (List Char × Nat)) : Prop :=
  ∃ text, formatActiveRanks (.assigned hosts) = .ok text ∧
    List.Forall₂ (Assigned hosts)
      (expand (formatNodes (ActiveNodes.assigned hosts).activeNodeAddrs))
      (expandNumbers text) ∧
    getActiveRanks (.assigned hosts) = .ok (some (expandNumbers text))

/-- Every name has a number, or the names are in the same order as texts as by prefix and
number, those without a number last. -/
def SameOrder (names : List (List Char)) : Prop :=
  (∀ name ∈ names, parseHostnamePrefixSuffix name ≠ none) ∨
    ∀ a ∈ names, ∀ b ∈ names, a < b → nameKey a ≤ nameKey b

/-! ## Looking up the ranks -/

variable {hosts : List (List Char × Nat)}

variable {ranks : List Nat} {names : List (List Char)} (addrs : List (List Char))

theorem get?_addrToRank (haddrs : (hosts.map Prod.fst).Nodup) {host : List Char × Nat}
    (h : host ∈ hosts) :
    (addrToRank (hosts.map Prod.fst) (hosts.map Prod.snd)).get? host.1 = some host.2 := by
  have hzip : (hosts.map Prod.fst).zip (hosts.map Prod.snd) = hosts := by
    rw [← unzip_fst, ← unzip_snd, zip_unzip]
  have hentries : (addrToRank (hosts.map Prod.fst) (hosts.map Prod.snd)).entries = hosts := by
    rw [addrToRank, hzip, Dict.entries_foldl_set Prod.fst Prod.snd haddrs]
    · simp [Dict.empty]
    · exact fun _ _ => not_mem_nil
  refine Dict.get?_eq_some_of_mem (e := host) ?_
  rw [hentries]
  exact h

/-- The ranks of a list of nodes are looked up in the order of the list. -/
theorem exists_mapM_rankOf {ranks : Dict (List Char) Nat} {addrs : List (List Char)}
    (h : ∀ addr ∈ addrs, ∃ rank, (addr, rank) ∈ hosts ∧ ranks.get? addr = some rank) :
    ∃ found, addrs.mapM (rankOf ranks) = .ok found ∧
      List.Forall₂ (fun addr rank => (addr, rank) ∈ hosts) addrs found := by
  induction addrs with
  | nil => exact ⟨[], rfl, .nil⟩
  | cons addr addrs ih =>
    obtain ⟨found, hfound, hrest⟩ := ih fun a ha => h a (mem_cons_of_mem addr ha)
    obtain ⟨rank, hmem, hget⟩ := h addr mem_cons_self
    have hrank : rankOf ranks addr = .ok rank := by rw [rankOf, hget]
    refine ⟨rank :: found, ?_, .cons hmem hrest⟩
    rw [mapM_cons, hrank, hfound]
    rfl

theorem slurmSortAddrs_perm : (slurmSortAddrs addrs).Perm addrs :=
  perm_insertionSort _ _

theorem slurmSortAddrs_sorted :
    (slurmSortAddrs addrs).Pairwise fun a b => nameKey (shortName a) ≤ nameKey (shortName b) := by
  have htotal : Std.Total fun a b : List Char => nameKey (shortName a) ≤ nameKey (shortName b) :=
    ⟨fun a b => le_total _ _⟩
  have htrans : IsTrans (List Char) fun a b =>
      nameKey (shortName a) ≤ nameKey (shortName b) := ⟨fun _ _ _ => le_trans⟩
  exact pairwise_insertionSort _ addrs

theorem exists_ranksInSlurmOrder (haddrs : (hosts.map Prod.fst).Nodup) :
    ∃ ranks, ranksInSlurmOrder (hosts.map Prod.fst) (hosts.map Prod.snd) = .ok ranks ∧
      List.Forall₂ (fun addr rank => (addr, rank) ∈ hosts)
        (slurmSortAddrs (hosts.map Prod.fst)) ranks := by
  refine exists_mapM_rankOf fun addr haddr => ?_
  obtain ⟨host, hmem, rfl⟩ :=
    mem_map.mp ((slurmSortAddrs_perm _).mem_iff.mp haddr)
  exact ⟨host.2, hmem, get?_addrToRank haddrs hmem⟩

/-! ## The two orders -/

/-- The short names in the order of the published ranks. -/
def slurmNames (hosts : List (List Char × Nat)) : List (List Char) :=
  (slurmSortAddrs (hosts.map Prod.fst)).map shortName

/-- What is known of the active nodes of a round: their addresses have host names, no two
of them the same, and numbers of one prefix are spelled as wide as each other. -/
structure DistinctHosts (hosts : List (List Char × Nat)) : Prop where
  hostName : ∀ name ∈ hostNames hosts, HostName name
  distinct : (hostNames hosts).Nodup
  alike : NumberedAlike (hostNames hosts)

theorem DistinctHosts.nodup_addrs (h : DistinctHosts hosts) : (hosts.map Prod.fst).Nodup := by
  refine List.Nodup.of_map shortName ?_
  rw [map_map]
  exact h.distinct

theorem DistinctHosts.shortNames_eq (h : DistinctHosts hosts) :
    shortNames (hosts.map Prod.fst) = hostNames hosts := by
  have hall : (hosts.map Prod.fst).filter (· ≠ []) = hosts.map Prod.fst := by
    refine filter_eq_self.mpr fun addr haddr => decide_eq_true fun hnil => ?_
    obtain ⟨host, hhost, rfl⟩ := mem_map.mp haddr
    refine (h.hostName _ (mem_map_of_mem hhost)).ne_nil ?_
    rw [hnil]
    rfl
  rw [shortNames, hall, map_map]
  rfl

theorem DistinctHosts.unended (h : DistinctHosts hosts) :
    ∀ name ∈ hostNames hosts, Unended name :=
  fun _ hname => unended_of_mem_shortNames (h.shortNames_eq ▸ hname)

theorem slurmNames_perm (hosts : List (List Char × Nat)) :
    (slurmNames hosts).Perm (hostNames hosts) := by
  have hperm := (slurmSortAddrs_perm (hosts.map Prod.fst)).map shortName
  rwa [map_map] at hperm

theorem slurmNames_sorted (hosts : List (List Char × Nat)) :
    (slurmNames hosts).Pairwise fun a b => nameKey a ≤ nameKey b :=
  pairwise_map.mpr (slurmSortAddrs_sorted _)

/-- Names that are numbered alike are told apart by their keys. -/
theorem nameKey_injOn (hunended : ∀ name ∈ names, Unended name) (halike : NumberedAlike names)
    {a b : List Char} (ha : a ∈ names) (hb : b ∈ names) (hkey : nameKey a = nameKey b) :
    a = b := by
  unfold nameKey at hkey
  split at hkey
  next before n s hparsea =>
      split at hkey
      next before' n' t hparseb =>
          simp only [EmbeddingLike.apply_eq_iff_eq, Prod.mk.injEq, true_and] at hkey
          obtain ⟨rfl, rfl⟩ := hkey
          obtain ⟨hlength, hs⟩ := halike a ha b hb _ _ _ _ _ hparsea hparseb
          obtain ⟨_, ht⟩ := halike b hb a ha _ _ _ _ _ hparseb hparsea
          obtain ⟨rfl, hsvalue, _⟩ := parse_eq_some (hunended a ha) hparsea
          obtain ⟨rfl, htvalue, _⟩ := parse_eq_some (hunended b hb) hparseb
          rw [eq_of_intValue_eq hs ht hlength (hsvalue.symm.trans htvalue)]
      next => simp at hkey
  next =>
      split at hkey
      next => simp at hkey
      next => simpa using hkey

theorem DistinctHosts.nodeAddresses (h : DistinctHosts hosts) :
    NodeAddresses (hosts.map Prod.fst) := by
  intro name hname
  rw [h.shortNames_eq] at hname
  exact h.hostName name hname

/-- The published names are the short names. -/
theorem DistinctHosts.expand_perm (h : DistinctHosts hosts) :
    (expand (hostnamesToSlurmNodelist (hosts.map Prod.fst))).Perm (hostNames hosts) := by
  have hperm := expand_perm_of_alike h.nodeAddresses (h.shortNames_eq ▸ h.alike)
  rwa [h.shortNames_eq, h.distinct.dedup] at hperm

/-- The names are in the order of the ranks exactly when they are sorted by their keys. -/
theorem DistinctHosts.expand_eq_iff (h : DistinctHosts hosts) :
    expand (hostnamesToSlurmNodelist (hosts.map Prod.fst)) = slurmNames hosts ↔
      (expand (hostnamesToSlurmNodelist (hosts.map Prod.fst))).Pairwise
        fun a b => nameKey a ≤ nameKey b := by
  constructor
  · intro heq
    rw [heq]
    exact slurmNames_sorted hosts
  · intro hsorted
    refine List.Perm.eq_of_pairwise (fun a b ha hb hab hba => ?_) hsorted (slurmNames_sorted hosts)
      (h.expand_perm.trans (slurmNames_perm hosts).symm)
    exact nameKey_injOn h.unended h.alike (h.expand_perm.mem_iff.mp ha)
      ((slurmNames_perm hosts).mem_iff.mp hb) (le_antisymm hab hba)

/-- In a list that is sorted as texts, the keys are in order when they follow the texts. -/
theorem pairwise_nameKey_iff (h : names.Pairwise (· < ·)) :
    (names.Pairwise fun a b => nameKey a ≤ nameKey b) ↔
      ∀ a ∈ names, ∀ b ∈ names, a < b → nameKey a ≤ nameKey b := by
  constructor
  · intro hkeys
    have hafter : names.Pairwise fun a b => a < b → nameKey a ≤ nameKey b := by
      refine hkeys.imp fun hle => ?_
      exact fun _ => hle
    have hbefore : names.Pairwise (flip fun a b => a < b → nameKey a ≤ nameKey b) :=
      h.imp fun hab hba => absurd hba (lt_asymm hab)
    exact List.Pairwise.forall_of_forall_of_flip (fun _ _ _ => le_refl _) hafter hbefore
  · intro hkeys
    exact h.imp_of_mem fun ha hb hlt => hkeys _ ha _ hb hlt

/-- The published names are sorted by their keys exactly in the same order. -/
theorem DistinctHosts.sorted_iff (h : DistinctHosts hosts) :
    ((expand (hostnamesToSlurmNodelist (hosts.map Prod.fst))).Pairwise
      fun a b => nameKey a ≤ nameKey b) ↔ SameOrder (hostNames hosts) := by
  cases hparsed : (shortNames (hosts.map Prod.fst)).mapM parseHostnamePrefixSuffix with
  | some parsed =>
    refine iff_of_true ?_ (.inl ?_)
    · rw [expand_of_parsed h.nodeAddresses hparsed]
      exact (parsedFrom_shortNames hparsed).pairwise_names.imp le_of_lt
    · rw [← h.shortNames_eq]
      exact parse_ne_none hparsed
  | none =>
    obtain ⟨name, hname, hnone⟩ := mapM_eq_none_iff.mp hparsed
    have hsorted := expand_of_unparsed h.nodeAddresses ⟨name, hname, hnone⟩
    rw [h.shortNames_eq, h.distinct.dedup] at hsorted
    rw [hsorted, pairwise_nameKey_iff (pairwise_lt_insertionSort h.distinct)]
    have hmem : ∀ a, a ∈ (hostNames hosts).insertionSort (· ≤ ·) ↔ a ∈ hostNames hosts :=
      fun a => (perm_insertionSort _ _).mem_iff
    simp only [hmem]
    refine ⟨.inr, fun hsame => hsame.resolve_left fun hall => ?_⟩
    exact hall name (h.shortNames_eq ▸ hname) hnone

/-! ## Alignment -/

theorem expandNumbers_ranksToRangeStr (ranks : List Nat) :
    expandNumbers (ranksToRangeStr ranks) = ranks :=
  expandNumbers_ranges 0 ranks

theorem formatNodes_assigned (hosts : List (List Char × Nat)) :
    formatNodes (ActiveNodes.assigned hosts).activeNodeAddrs =
      hostnamesToSlurmNodelist (hosts.map Prod.fst) := by
  unfold formatNodes
  split_ifs with hnone
  · rw [show hosts.map Prod.fst = [] from hnone]
    rfl
  · rfl

theorem formatActiveRanks_assigned
    (hranks : ranksInSlurmOrder (hosts.map Prod.fst) (hosts.map Prod.snd) = .ok ranks) :
    formatActiveRanks (.assigned hosts) = .ok (ranksToRangeStr ranks) := by
  cases hosts with
  | nil =>
    obtain rfl : [] = ranks := Except.ok.inj hranks
    rfl
  | cons host hosts =>
    simp only [formatActiveRanks, ActiveNodes.assigned, Option.getD_some, hranks]
    rw [if_pos ⟨cons_ne_nil _ _, by simp⟩]
    rfl

/-- What is published, when the ranks are looked up. -/
theorem aligned_iff
    (hranks : ranksInSlurmOrder (hosts.map Prod.fst) (hosts.map Prod.snd) = .ok ranks) :
    Aligned hosts ↔
      List.Forall₂ (Assigned hosts)
        (expand (hostnamesToSlurmNodelist (hosts.map Prod.fst))) ranks := by
  have hformat := formatActiveRanks_assigned hranks
  have hget : getActiveRanks (.assigned hosts) = .ok (some ranks) := by
    simp only [getActiveRanks, ActiveNodes.assigned, hranks]
    rfl
  unfold Aligned
  simp only [hformat, Except.ok.injEq, exists_eq_left', expandNumbers_ranksToRangeStr, hget,
    formatNodes_assigned, and_true]

/-- The ranks are those of the names in the order of `slurm_sort_addrs`. -/
theorem forall₂_slurmNames
    (h : List.Forall₂ (fun addr rank => (addr, rank) ∈ hosts)
      (slurmSortAddrs (hosts.map Prod.fst)) ranks) :
    List.Forall₂ (Assigned hosts) (slurmNames hosts) ranks :=
  forall₂_map_left_iff.mpr (h.imp fun addr _ hmem => ⟨addr, hmem, rfl⟩)

/-- A rank that was given out once has one name. -/
theorem assigned_leftUnique (h : (hosts.map Prod.snd).Nodup) :
    Relator.LeftUnique (Assigned hosts) := by
  rintro name rank name' ⟨addr, hmem, rfl⟩ ⟨addr', hmem', rfl⟩
  have heq := inj_on_of_nodup_map h hmem hmem' rfl
  rw [Prod.mk.injEq] at heq
  rw [heq.1]

/-- What is published is aligned when the names are in the same order as texts as by prefix
and number, or have numbers all; and where every node has a rank of its own, only then. -/
theorem aligned_iff_sameOrder (hosts : List (List Char × Nat)) (hhosts : DistinctHosts hosts) :
    (SameOrder (hostNames hosts) → Aligned hosts) ∧
      ((hosts.map Prod.snd).Nodup → Aligned hosts → SameOrder (hostNames hosts)) := by
  obtain ⟨ranks, hranks, hfound⟩ := exists_ranksInSlurmOrder hhosts.nodup_addrs
  have hslurm := forall₂_slurmNames hfound
  rw [aligned_iff hranks, ← hhosts.sorted_iff, ← hhosts.expand_eq_iff]
  constructor
  · intro heq
    rw [heq]
    exact hslurm
  · intro hnodup haligned
    exact (assigned_leftUnique hnodup).forall₂ haligned hslurm

/-- A node whose name has no number, and one whose name has. -/
def loginAndNode : List (List Char × Nat) :=
  [("login".toList, 0), ("node1".toList, 1)]

theorem distinctHosts_loginAndNode : DistinctHosts loginAndNode := by
  have hnames : hostNames loginAndNode = ["login".toList, "node1".toList] := by decide +kernel
  have hlogin : parseHostnamePrefixSuffix "login".toList = none := by decide +kernel
  have hnode : parseHostnamePrefixSuffix "node1".toList = some ("node".toList, 1, ['1']) := by
    decide +kernel
  refine ⟨?_, ?_, ?_⟩ <;> rw [hnames]
  · intro name hname
    rcases mem_pair.mp hname with rfl | rfl
    · exact ⟨cons_ne_nil _ _, plain_of_all (by decide), by decide⟩
    · exact ⟨cons_ne_nil _ _, plain_of_all (by decide), by decide⟩
  · decide
  · intro a ha b hb before m n s t hparsea hparseb
    rcases mem_pair.mp ha with rfl | rfl
    · exact absurd (hlogin.symm.trans hparsea) (Option.some_ne_none _).symm
    · rcases mem_pair.mp hb with rfl | rfl
      · exact absurd (hlogin.symm.trans hparseb) (Option.some_ne_none _).symm
      · obtain ⟨-, -, rfl⟩ : "node".toList = before ∧ 1 = m ∧ ['1'] = s := by
          simpa using hnode.symm.trans hparsea
        obtain ⟨-, -, rfl⟩ : "node".toList = before ∧ 1 = n ∧ ['1'] = t := by
          simpa using hnode.symm.trans hparseb
        exact ⟨rfl, all_eq_true.mp rfl⟩

theorem aligned_iff_sameOrder_loginAndNode :
    (SameOrder (hostNames loginAndNode) → Aligned loginAndNode) ∧
      ((loginAndNode.map Prod.snd).Nodup → Aligned loginAndNode →
        SameOrder (hostNames loginAndNode)) :=
  aligned_iff_sameOrder loginAndNode distinctHosts_loginAndNode

/-- The list is `login,node1`, and the ranks are those of `node1` and `login`. -/
theorem not_aligned : ¬ ∀ hosts, DistinctHosts hosts → Aligned hosts := by
  intro haligned
  obtain ⟨text, hformat, hassigned, _⟩ := haligned loginAndNode distinctHosts_loginAndNode
  have hnames : expand (formatNodes (ActiveNodes.assigned loginAndNode).activeNodeAddrs) =
      ["login".toList, "node1".toList] := by decide +kernel
  have htext : formatActiveRanks (.assigned loginAndNode) = .ok "1,0".toList := by
    decide +kernel
  obtain rfl : "1,0".toList = text := Except.ok.inj (htext.symm.trans hformat)
  have hranks : expandNumbers "1,0".toList = [1, 0] := by decide +kernel
  rw [hnames, hranks, forall₂_cons] at hassigned
  obtain ⟨addr, hmem, hname⟩ := hassigned.1
  have haddr : addr = "node1".toList := by simpa [loginAndNode] using hmem
  rw [haddr] at hname
  exact absurd hname (by decide +kernel)

end ResiliencyExt.FaultTolerance.CycleInfo
