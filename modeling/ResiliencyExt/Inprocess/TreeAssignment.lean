import ResiliencyExt.Inprocess.TreeCall

set_option autoImplicit false

/-!
# Inprocess: runs of `Tree`

A process calls its `Tree` again after every fault, each time with some of the
ranks that are not terminated yet.  `Consistent` is what the callers rely on
after each call, and it holds in every state of every run.
-/

namespace ResiliencyExt.Inprocess

open Foundation

/-- `node.state.rank` of a leaf that has one. -/
def TreeState.rankOf (st : TreeState) (leaf : Nat) : Nat :=
  (st.leaf leaf).rank.getD 0

/-- Active ranks, ranks and inactive maps of a tree after a call. -/
structure Consistent (T : Topology) (st : TreeState) (worldSize : Nat)
    (activeWorldSize : Int) : Prop where
  active_some : ∀ a ∈ T.leaves, (st.leaf a).mode = .active →
    (st.leaf a).activeRank = some (st.activeRankOf a)
  active_bijOn : Set.BijOn st.activeRankOf {a | a ∈ T.leaves ∧ (st.leaf a).mode = .active}
    {k | (k : Int) < activeWorldSize}
  active_none : ∀ a ∈ T.leaves,
    (st.leaf a).mode = .inactive ∨ (st.leaf a).mode = .terminated →
      (st.leaf a).activeRank = none
  activeWorldSize : ∀ a ∈ T.leaves, (st.leaf a).activeWorldSize = some activeWorldSize
  rank_some : ∀ a ∈ T.leaves, (st.leaf a).rank = some (st.rankOf a)
  rank_bijOn : Set.BijOn st.rankOf {a | a ∈ T.leaves ∧ (st.leaf a).mode ≠ .terminated}
    {k | k < worldSize}
  rankMap : ∀ r < worldSize, ∀ a, st.rankMap[r]? = some a ↔
    (a ∈ T.leaves ∧ (st.leaf a).mode ≠ .terminated) ∧ st.rankOf a = r
  worldSize : ∀ a ∈ T.leaves, (st.leaf a).worldSize = worldSize
  inactiveNodes : ∀ p a, a ∈ st.inactiveNodes p ↔
    a ∈ T.leavesAt p ∧ (st.leaf a).mode = .inactive

/-- The rank of a leaf that is not terminated. -/
def healthyNumber (st : TreeState) (leaf : Nat) : Option Nat :=
  if (st.leaf leaf).mode = .terminated then none else (st.leaf leaf).rank

variable {T : Topology}

namespace Ready

variable {st : TreeState} {worldSize : Int}

theorem rank_isSome (h : Ready T st worldSize) {a : Nat} (ha : a ∈ T.leaves) :
    (st.leaf a).rank = some (st.rankOf a) := by
  obtain ⟨r, hr⟩ := List.getElem?_of_mem (h.rankMap.mem_iff.mpr ha)
  rw [TreeState.rankOf, (h.rank a r).mpr hr]
  rfl

theorem mem_of_rank (h : Ready T st worldSize) {a r : Nat} (hr : (st.leaf a).rank = some r) :
    a ∈ T.leaves :=
  h.rankMap.mem_iff.mp (List.mem_of_getElem? ((h.rank a r).mp hr))

/-- The ranks of the healthy leaves are the numbers below the world size. -/
theorem healthy_numbering (h : Ready T st worldSize) :
    Numbering (healthyNumber st)
      (T.leaves.countP fun a => (st.leaf a).mode ≠ .terminated) [] where
  injective a b k ha hb := by
    unfold healthyNumber at ha hb
    split at ha
    · simp at ha
    · split at hb
      · simp at hb
      · exact Option.some.inj (((h.rank a k).mp ha).symm.trans ((h.rank b k).mp hb))
  covers k := by
    have hcount := h.count
    constructor
    · intro hk
      have hlt : k < st.rankMap.length := by
        have hle := List.countP_le_length (p := fun a => decide ((st.leaf a).mode ≠ .terminated))
          (l := T.leaves)
        have hlength := h.rankMap.length_eq
        omega
      have hget : st.rankMap[k]? = some st.rankMap[k] := List.getElem?_eq_getElem hlt
      refine Or.inl ⟨st.rankMap[k], ?_⟩
      have hmode := (h.healthy _ k hget).mpr (by omega)
      rw [healthyNumber, if_neg hmode]
      exact (h.rank _ k).mpr hget
    · rintro (⟨a, ha⟩ | hmem)
      · unfold healthyNumber at ha
        split at ha
        · simp at ha
        · rename_i hmode
          have hlt := (h.healthy a k ((h.rank a k).mp ha)).mp hmode
          omega
      · simp at hmem
  disjoint := by simp
  nodup := List.nodup_nil

theorem consistent (h : Ready T st worldSize) :
    ∃ (n : Nat) (activeWorldSize : Int), worldSize = n ∧ Consistent T st n activeWorldSize := by
  obtain ⟨activeWorldSize, hshape, huniform, hnumbering⟩ := h.settled
  have hcount := h.count
  have hactive : ∀ a, (st.leaf a).mode = .active →
      activeNumber st a = some (st.activeRankOf a) := fun a ha =>
    hshape.activeNumber_isSome ha
  have hmember : ∀ a, (st.leaf a).mode = .active → a ∈ T.leaves := fun a ha =>
    hshape.member a (by simp [ha])
  refine ⟨_, activeWorldSize, hcount.symm, ?_⟩
  refine ⟨?_, ?_, ?_, huniform, fun a ha => h.rank_isSome ha, ?_, ?_, ?_, ?_⟩
  · intro a _ ha
    rw [← activeNumber_of_active ha]
    exact hactive a ha
  · have hset : {k : Nat | (k : Int) < activeWorldSize} = {k | k < activeWorldSize.toNat} := by
      ext k
      simp only [Set.mem_ofPred_eq]
      omega
    rw [hset]
    refine hnumbering.bijOn (fun a => ?_) fun a ha => hactive a ha.2
    constructor
    · rintro ⟨_, ha⟩
      rw [hactive a ha]
      rfl
    · intro ha
      obtain ⟨r, hr⟩ := Option.isSome_iff_exists.mp ha
      have hmode := (activeNumber_eq_some.mp hr).1
      exact ⟨hmember a hmode, hmode⟩
  · rintro a _ (ha | ha)
    · exact hshape.inactive a ha
    · exact h.cleared a ha
  · refine h.healthy_numbering.bijOn (fun a => ?_) fun a ha => ?_
    · constructor
      · rintro ⟨ha, hmode⟩
        rw [healthyNumber, if_neg hmode, h.rank_isSome ha]
        rfl
      · intro ha
        obtain ⟨r, hr⟩ := Option.isSome_iff_exists.mp ha
        unfold healthyNumber at hr
        split at hr
        · simp at hr
        · rename_i hmode
          exact ⟨h.mem_of_rank hr, hmode⟩
    · rw [healthyNumber, if_neg ha.2]
      exact h.rank_isSome ha.1
  · intro r hr a
    constructor
    · intro hget
      have hrank := (h.rank a r).mpr hget
      refine ⟨⟨h.mem_of_rank hrank, (h.healthy a r hget).mpr (by omega)⟩, ?_⟩
      rw [TreeState.rankOf, hrank]
      rfl
    · rintro ⟨⟨ha, _⟩, rfl⟩
      exact (h.rank a _).mp (h.rank_isSome ha)
  · intro a ha
    rw [h.worldSize a ha, hcount]
  · intro p a
    rw [hshape.inactiveNodes, T.mem_leavesAt]
    constructor
    · rintro ⟨hp, hmode⟩
      exact ⟨⟨hshape.member a (by simp [hmode]), hp⟩, hmode⟩
    · rintro ⟨⟨_, hp⟩, hmode⟩
      exact ⟨hp, hmode⟩

end Ready

/-! ## Runs -/

/-- A process with its `Tree`, which the first call builds, and the world size
of its state.  A process whose own rank is terminated is discarded. -/
structure TreeRun where
  tree : Option TreeState
  worldSize : Int
  discarded : Bool

/-- The tree that a call works on. -/
def TreeRun.current (T : Topology) (s : TreeRun) : TreeState :=
  s.tree.getD (startTree T)

/-- The calls of one process, `self` being its initial rank.  The first call
raises a `RuntimeError` when the ranks do not share one root key. -/
def treeSystem (T : Topology) (filter : Option WorldSizeFilter) (self : Nat) :
    System TreeRun (List Nat) where
  init s := s = { tree := none, worldSize := T.initialRanks.length, discarded := false }
  step s terminatedRanks :=
    if T.SharesRootKey ∧ s.discarded = false ∧ terminatedRanks.Nodup ∧
        ∀ r ∈ terminatedRanks, r ∈ healthyRanks T (s.current T) then
      let next := callTree T filter (s.current T) s.worldSize terminatedRanks
      if (next.leaf self).mode = .terminated then
        some { tree := some next, worldSize := s.worldSize, discarded := true }
      else
        some { tree := some next, worldSize := (next.leaf self).worldSize, discarded := false }
    else none

variable {filter : Option WorldSizeFilter} {self : Nat} {s : TreeRun}

/-- What a step of a run does. -/
theorem treeSystem_step {t : TreeRun} {terminatedRanks : List Nat}
    (h : (treeSystem T filter self).step s terminatedRanks = some t) :
    s.discarded = false ∧ Terminable T (s.current T) terminatedRanks ∧
      t.tree = some (callTree T filter (s.current T) s.worldSize terminatedRanks) ∧
      (t.discarded = false → t.worldSize =
        ((callTree T filter (s.current T) s.worldSize terminatedRanks).leaf self).worldSize) := by
  simp only [treeSystem] at h
  split at h
  · rename_i hguard
    obtain ⟨_, hdiscarded, hnodup, hhealthy⟩ := hguard
    refine ⟨hdiscarded, ⟨hnodup, hhealthy⟩, ?_⟩
    split at h
    · have heq := Option.some.inj h
      subst heq
      exact ⟨rfl, by simp⟩
    · have heq := Option.some.inj h
      subst heq
      exact ⟨rfl, fun _ => rfl⟩
  · simp at h

/-- The invariant of a run: the current tree is ready for the world size of the
process. -/
def RunReady (T : Topology) (s : TreeRun) : Prop :=
  ∃ worldSize, Ready T (s.current T) worldSize ∧ (s.discarded = false → s.worldSize = worldSize)

theorem runReady_step {t : TreeRun} {terminatedRanks : List Nat} (hself : self ∈ T.initialRanks)
    (h : RunReady T s) (hstep : (treeSystem T filter self).step s terminatedRanks = some t) :
    RunReady T t := by
  obtain ⟨hdiscarded, hterm, htree, hworld⟩ := treeSystem_step hstep
  obtain ⟨worldSize, hready, hsame⟩ := h
  have hmem : self ∈ T.leaves := T.leaves_perm.mem_iff.mpr hself
  have hcurrent : t.current T = callTree T filter (s.current T) s.worldSize terminatedRanks := by
    rw [TreeRun.current, htree]
    rfl
  rw [← hsame hdiscarded] at hready
  have hcall := callTree_ready filter hready hterm (List.ne_nil_of_mem hmem)
  refine ⟨_, hcurrent ▸ hcall, fun halive => ?_⟩
  rw [hworld halive]
  exact hcall.worldSize self hmem

theorem runReady_reachable (hself : self ∈ T.initialRanks)
    (hs : (treeSystem T filter self).Reachable (fun _ _ => True) s) : RunReady T s := by
  refine hs.invariant ?_ fun s terminatedRanks t h _ hstep => runReady_step hself h hstep
  rintro s rfl
  exact ⟨_, startTree_ready, fun _ => rfl⟩

/-- After every call of every run the tree is consistent. -/
theorem tree_consistent {filter : Option WorldSizeFilter} {self : Nat} {s : TreeRun}
    {st : TreeState} (hself : self ∈ T.initialRanks)
    (hs : (treeSystem T filter self).Reachable (fun _ _ => True) s) (hst : s.tree = some st) :
    ∃ (worldSize : Nat) (activeWorldSize : Int), Consistent T st worldSize activeWorldSize ∧
      (s.discarded = false → s.worldSize = worldSize) := by
  obtain ⟨worldSize, hready, hsame⟩ := runReady_reachable hself hs
  have hcurrent : s.current T = st := by
    rw [TreeRun.current, hst]
    rfl
  obtain ⟨n, activeWorldSize, hn, hconsistent⟩ := (hcurrent ▸ hready).consistent
  exact ⟨n, activeWorldSize, hconsistent, fun halive => (hsame halive).trans hn⟩

/-- Rank 0 on one host, ranks 1 and 2 on another, one active rank for each host;
spares are searched through every layer. -/
def twoHosts : Topology where
  rootLayer :=
    { minRanks := 1
      maxRanks := none
      keyOrFn := fun _ => "root"
      flag := some { reserve := true, backfill := false } }
  innerLayers :=
    [{ minRanks := 1
       maxRanks := some 1
       keyOrFn := fun leaf => if leaf = 0 then "host0" else "host1"
       flag := some { reserve := true, backfill := false } }]
  initialRanks := [0, 1, 2]
  nodup := by decide

/-- Rank 1 of two hosts loses rank 0, whose place the spare takes. -/
theorem tree_consistent_twoHosts :
    ∃ s, (treeSystem twoHosts none 1).Reachable (fun _ _ => True) s ∧
      ∃ st, s.tree = some st ∧ st.rankMap = [1, 2, 0] ∧ st.activeRankOf 2 = 0 ∧
        ∃ (worldSize : Nat) (activeWorldSize : Int),
          Consistent twoHosts st worldSize activeWorldSize ∧
            (s.discarded = false → s.worldSize = worldSize) := by
  have hrun : ((treeSystem twoHosts none 1).execute (fun _ _ => True)
        { tree := none, worldSize := 3, discarded := false } [[0]]).any
      (fun s => s.tree.any fun st => st.rankMap = [1, 2, 0] ∧ st.activeRankOf 2 = 0) = true := by
    decide
  obtain ⟨s, hs, htest⟩ := System.exists_reachable_of_execute rfl hrun
  obtain ⟨st, hst, hfields⟩ := (Option.any_eq_true _ _).mp htest
  obtain ⟨hrankMap, hactive⟩ := of_decide_eq_true hfields
  exact ⟨s, hs, st, hst, hrankMap, hactive, tree_consistent (by decide) hs hst⟩

end ResiliencyExt.Inprocess
