import ResiliencyExt.Inprocess.TreeAssignment

set_option autoImplicit false

/-!
# Inprocess: spares are neither lost nor used twice

`replace_with_inactive` considers the terminated active ranks in order, each on the
tree that the ones before it left.  A rank without a spare has no inactive leaf
below the nodes it may search, and a spare, once activated, is in no map any more.
-/

namespace ResiliencyExt.Inprocess

open Foundation List

variable (T : Topology)

/-- The replaced ranks of `replace_with_inactive`, each with its spare. -/
def spares (st : TreeState) : List Nat → List (Nat × Nat)
  | [] => []
  | rank :: rest =>
    match findSpare T st (st.leafOf rank) with
    | none => spares st rest
    | some (spare, popped) =>
      (rank, spare) :: spares (activate T popped spare (st.activeRankOf (st.leafOf rank))) rest

/-- The terminated active ranks of a call, in the order in which they are considered. -/
def sortedTerminatedActive (st : TreeState) (terminatedRanks : List Nat) : List Nat :=
  (terminatedRanks.filter fun rank => (st.leaf (st.leafOf rank)).mode = .active).insertionSort
    (· ≤ ·)

/-- What reserve replacement does in a call: the ranks it leaves have no spare, and each spare
takes over one active rank. -/
structure ReserveReplaces (st : TreeState) (terminatedRanks : List Nat) : Prop where
  /-- `front` are the ranks considered before `rank`. -/
  complete : ∀ front rank back,
    sortedTerminatedActive st terminatedRanks = front ++ rank :: back →
      rank ∈ (replaced T st terminatedRanks).2 →
        ∀ p ∈ (T.ancestors (st.leafOf rank)).takeWhile fun node => (T.layerAt node).isReserve,
          ∀ a ∈ T.leavesAt p,
            ((replaceWithInactive T (terminateRanks T st terminatedRanks) front).1.leaf a).mode ≠
              .inactive
  replaced : ∀ rank ∈ sortedTerminatedActive st terminatedRanks,
    rank ∉ (replaced T st terminatedRanks).2 →
      ∃ spare, (rank, spare) ∈ spares T (terminateRanks T st terminatedRanks)
        (sortedTerminatedActive st terminatedRanks)
  inherits : ∀ rank spare, (rank, spare) ∈ spares T (terminateRanks T st terminatedRanks)
      (sortedTerminatedActive st terminatedRanks) →
    (st.leaf spare).mode = .inactive ∧
      ((Inprocess.replaced T st terminatedRanks).1.leaf spare).mode = .active ∧
      ((Inprocess.replaced T st terminatedRanks).1.leaf spare).activeRank =
        (st.leaf (st.leafOf rank)).activeRank
  once : ((spares T (terminateRanks T st terminatedRanks)
    (sortedTerminatedActive st terminatedRanks)).map Prod.snd).Nodup
  undisturbed : (Inprocess.replaced T st terminatedRanks).2 = [] →
    (∀ a, a ∉ (spares T (terminateRanks T st terminatedRanks)
        (sortedTerminatedActive st terminatedRanks)).map Prod.snd →
      ((shifted T (Inprocess.replaced T st terminatedRanks).1
        (Inprocess.replaced T st terminatedRanks).2).leaf a).activeRank =
          (st.leaf a).activeRank) ∧
    ∀ a, ((shifted T (Inprocess.replaced T st terminatedRanks).1
        (Inprocess.replaced T st terminatedRanks).2).leaf a).activeWorldSize =
          (st.leaf a).activeWorldSize

variable {T}

/-! ## Considering one rank after another -/

variable {st : TreeState} {rank : Nat} (rest todo : List Nat)

theorem replaceWithInactive_of_none (h : findSpare T st (st.leafOf rank) = none) :
    replaceWithInactive T st (rank :: rest) = replaceWithInactive T st rest := by
  simp only [replaceWithInactive, h]

theorem replaceWithInactive_of_some {popped : TreeState} {spare : Nat}
    (h : findSpare T st (st.leafOf rank) = some (spare, popped)) :
    replaceWithInactive T st (rank :: rest) =
      ((replaceWithInactive T
          (activate T popped spare (st.activeRankOf (st.leafOf rank))) rest).1,
        rank :: (replaceWithInactive T
          (activate T popped spare (st.activeRankOf (st.leafOf rank))) rest).2) := by
  simp only [replaceWithInactive, h]

theorem spares_of_none (h : findSpare T st (st.leafOf rank) = none) :
    spares T st (rank :: rest) = spares T st rest := by
  simp only [spares, h]

theorem spares_of_some {popped : TreeState} {spare : Nat}
    (h : findSpare T st (st.leafOf rank) = some (spare, popped)) :
    spares T st (rank :: rest) =
      (rank, spare) ::
        spares T (activate T popped spare (st.activeRankOf (st.leafOf rank))) rest := by
  simp only [spares, h]

/-- The replaced ranks are those with a spare. -/
theorem map_fst_spares : ∀ st : TreeState,
    (spares T st todo).map Prod.fst = (replaceWithInactive T st todo).2 := by
  induction todo with
  | nil => exact fun _ => rfl
  | cons rank rest ih =>
    intro st
    cases hfind : findSpare T st (st.leafOf rank) with
    | none => rw [spares_of_none rest hfind, replaceWithInactive_of_none rest hfind, ih]
    | some found => rw [spares_of_some rest hfind, replaceWithInactive_of_some rest hfind,
        map_cons, ih]

theorem replaceWithInactive_subset : ∀ st : TreeState,
    (replaceWithInactive T st todo).2 ⊆ todo := by
  induction todo with
  | nil => exact fun _ => List.Subset.refl _
  | cons rank rest ih =>
    intro st
    cases hfind : findSpare T st (st.leafOf rank) with
    | none =>
      rw [replaceWithInactive_of_none rest hfind]
      exact subset_cons_of_subset rank (ih st)
    | some found =>
      rw [replaceWithInactive_of_some rest hfind]
      exact cons_subset_cons _ (ih _)

theorem replaceWithInactive_append (front back : List Nat) : ∀ st : TreeState,
    (replaceWithInactive T st (front ++ back)).2 =
      (replaceWithInactive T st front).2 ++
        (replaceWithInactive T (replaceWithInactive T st front).1 back).2 := by
  induction front with
  | nil => exact fun _ => rfl
  | cons rank rest ih =>
    intro st
    rw [cons_append]
    cases hfind : findSpare T st (st.leafOf rank) with
    | none => rw [replaceWithInactive_of_none _ hfind, replaceWithInactive_of_none _ hfind, ih]
    | some found =>
      rw [replaceWithInactive_of_some _ hfind, replaceWithInactive_of_some _ hfind]
      dsimp only
      rw [ih, cons_append]

theorem shape_replaceWithInactive : ∀ {st : TreeState}, Shape T st →
    Shape T (replaceWithInactive T st todo).1 := by
  induction todo with
  | nil => exact fun h => h
  | cons rank rest ih =>
    intro st h
    cases hfind : findSpare T st (st.leafOf rank) with
    | none =>
      rw [replaceWithInactive_of_none rest hfind]
      exact ih h
    | some found =>
      obtain ⟨hspare, hpopped⟩ := findSpare_eq_some h hfind
      rw [replaceWithInactive_of_some rest hfind]
      exact ih (h.activate_popped hspare hpopped _)

theorem rearranged_replaceWithInactive : ∀ {st : TreeState}, Shape T st →
    Rearranged st (replaceWithInactive T st todo).1 := by
  induction todo with
  | nil => exact fun {st} _ => Rearranged.refl st
  | cons rank rest ih =>
    intro st h
    cases hfind : findSpare T st (st.leafOf rank) with
    | none =>
      rw [replaceWithInactive_of_none rest hfind]
      exact ih h
    | some found =>
      obtain ⟨hspare, hpopped⟩ := findSpare_eq_some h hfind
      rw [replaceWithInactive_of_some rest hfind]
      exact (rearranged_activate_popped hspare hpopped _).trans
        (ih (h.activate_popped hspare hpopped _))

/-! ## Which leaves are spares -/

/-- A spare was inactive. -/
theorem inactive_of_mem_spares : ∀ {st : TreeState}, Shape T st →
    ∀ e ∈ spares T st todo, (st.leaf e.2).mode = .inactive := by
  induction todo with
  | nil => exact fun _ _ he => absurd he not_mem_nil
  | cons rank rest ih =>
    intro st h e he
    cases hfind : findSpare T st (st.leafOf rank) with
    | none =>
      rw [spares_of_none rest hfind] at he
      exact ih h e he
    | some found =>
      obtain ⟨spare, popped⟩ := found
      obtain ⟨hspare, hpopped⟩ := findSpare_eq_some h hfind
      rw [spares_of_some rest hfind] at he
      rcases mem_cons.mp he with rfl | hrest
      · exact hspare
      · have hlater := ih (h.activate_popped hspare hpopped _) e hrest
        have hne : e.2 ≠ spare := by
          intro heq
          rw [heq, activate_self] at hlater
          cases hlater
        rwa [activate_of_ne popped _ hne, hpopped.leaf] at hlater

/-- A leaf that is no spare keeps its state. -/
theorem leaf_replaceWithInactive : ∀ {st : TreeState}, Shape T st →
    ∀ a, a ∉ (spares T st todo).map Prod.snd →
      (replaceWithInactive T st todo).1.leaf a = st.leaf a := by
  induction todo with
  | nil => exact fun _ _ _ => rfl
  | cons rank rest ih =>
    intro st h a ha
    cases hfind : findSpare T st (st.leafOf rank) with
    | none =>
      rw [spares_of_none rest hfind] at ha
      rw [replaceWithInactive_of_none rest hfind]
      exact ih h a ha
    | some found =>
      obtain ⟨spare, popped⟩ := found
      obtain ⟨hspare, hpopped⟩ := findSpare_eq_some h hfind
      rw [spares_of_some rest hfind, map_cons, mem_cons, not_or] at ha
      rw [replaceWithInactive_of_some rest hfind]
      dsimp only
      rw [ih (h.activate_popped hspare hpopped _) a ha.2, activate_of_ne popped _ ha.1,
        hpopped.leaf]

/-- No leaf is a spare twice: an activated spare is not inactive any more. -/
theorem nodup_spares : ∀ {st : TreeState}, Shape T st →
    ((spares T st todo).map Prod.snd).Nodup := by
  induction todo with
  | nil => exact fun _ => nodup_nil
  | cons rank rest ih =>
    intro st h
    cases hfind : findSpare T st (st.leafOf rank) with
    | none =>
      rw [spares_of_none rest hfind]
      exact ih h
    | some found =>
      obtain ⟨spare, popped⟩ := found
      obtain ⟨hspare, hpopped⟩ := findSpare_eq_some h hfind
      have hshape := h.activate_popped hspare hpopped (st.activeRankOf (st.leafOf rank))
      rw [spares_of_some rest hfind, map_cons]
      refine nodup_cons.mpr ⟨fun hmem => ?_, ih hshape⟩
      obtain ⟨e, he, heq⟩ := mem_map.mp hmem
      have hinactive := inactive_of_mem_spares rest hshape e he
      rw [heq, activate_self] at hinactive
      cases hinactive

/-- A spare ends with the active rank of the leaf it replaces. -/
theorem spare_inherits : ∀ {st : TreeState}, Shape T st →
    (∀ rank ∈ todo, (st.leaf (st.leafOf rank)).mode = .terminated) →
      ∀ rank spare, (rank, spare) ∈ spares T st todo →
        ((replaceWithInactive T st todo).1.leaf spare).mode = .active ∧
          ((replaceWithInactive T st todo).1.leaf spare).activeRank =
            some (st.activeRankOf (st.leafOf rank)) := by
  induction todo with
  | nil => exact fun _ _ _ _ he => absurd he not_mem_nil
  | cons first rest ih =>
    intro st h hterm rank spare he
    have hlater := fun r hr => hterm r (mem_cons_of_mem first hr)
    cases hfind : findSpare T st (st.leafOf first) with
    | none =>
      rw [spares_of_none rest hfind] at he
      rw [replaceWithInactive_of_none rest hfind]
      exact ih h hlater rank spare he
    | some found =>
      obtain ⟨leaf, popped⟩ := found
      obtain ⟨hspare, hpopped⟩ := findSpare_eq_some h hfind
      have hshape := h.activate_popped hspare hpopped (st.activeRankOf (st.leafOf first))
      have hstep := rearranged_activate_popped (T := T) hspare hpopped
        (st.activeRankOf (st.leafOf first))
      rw [spares_of_some rest hfind] at he
      rw [replaceWithInactive_of_some rest hfind]
      rcases mem_cons.mp he with heq | hrest
      · -- the spare of this rank is no spare of a later one
        obtain ⟨rfl, rfl⟩ := Prod.mk.inj heq
        have hnodup := nodup_spares (rank :: rest) h
        rw [spares_of_some rest hfind] at hnodup
        dsimp only
        rw [leaf_replaceWithInactive rest hshape spare (nodup_cons.mp hnodup).1,
          activate_self]
        exact ⟨rfl, rfl⟩
      · have hrank : rank ∈ rest := by
          have hmem : rank ∈ (replaceWithInactive T
              (activate T popped leaf (st.activeRankOf (st.leafOf first))) rest).2 := by
            rw [← map_fst_spares]
            exact mem_map_of_mem (f := Prod.fst) hrest
          exact replaceWithInactive_subset rest _ hmem
        have hrun := ih hshape (fun r hr => by
          rw [hstep.leafOf, hstep.terminated]
          exact hlater r hr) rank spare hrest
        rwa [hstep.leafOf, hstep.activeRankOf (hlater rank hrank)] at hrun

/-- Without a spare there is no inactive leaf below any node of the search. -/
theorem no_inactive_of_findSpare (h : Shape T st) {leaf : Nat}
    (hfind : findSpare T st leaf = none) :
    ∀ p ∈ (T.ancestors leaf).takeWhile fun node => (T.layerAt node).isReserve,
      ∀ a ∈ T.leavesAt p, (st.leaf a).mode ≠ .inactive := by
  intro p hp a ha hmode
  have hmem : a ∈ st.inactiveNodes p :=
    (h.inactiveNodes p a).mpr ⟨(T.mem_leavesAt.mp ha).2, hmode⟩
  cases hnode : reserveNode T st leaf with
  | none => exact find?_eq_none.mp hnode p hp (decide_eq_true (ne_nil_of_mem hmem))
  | some node =>
    have hfound := hnode
    rw [reserveNode] at hfound
    have hne : st.inactiveNodes node ≠ [] := by simpa using find?_some hfound
    rw [findSpare, hnode, Option.bind_some, popitem, Option.map_eq_none_iff] at hfind
    exact hne (getLast?_eq_none_iff.mp hfind)

/-! ## A call -/

/-- In every call of every run, reserve replacement finds a spare where there is one, and moves
nobody else. -/
theorem reserveReplaces_of_reachable {filter : Option WorldSizeFilter} {self : Nat} {s : TreeRun}
    {terminatedRanks : List Nat} (hself : self ∈ T.initialRanks)
    (hs : (treeSystem T filter self).Reachable (fun _ _ => True) s)
    (hterm : Terminable T (s.current T) terminatedRanks) :
    ReserveReplaces T (s.current T) (propagateTerminations T (s.current T) terminatedRanks) := by
  obtain ⟨worldSize, hready, -⟩ := runReady_reachable hself hs
  have hterm' := hterm.propagateTerminations
  generalize s.current T = st at hready hterm' ⊢
  generalize propagateTerminations T st terminatedRanks = terminated at hterm' ⊢
  obtain ⟨activeWorldSize, hshape, -, -⟩ := hready.settled
  let start := terminateRanks T st terminated
  have hadvanced : Advanced st start (terminated.map st.leafOf) :=
    terminateRanks_advanced st terminated
  have hstart : Shape T start := shape_foldl_terminate hshape fun a ha => by
    obtain ⟨r, hr, rfl⟩ := mem_map.mp ha
    exact (hready.leafOf_healthy hterm' hr).1
  have hleafOf : ∀ rank, start.leafOf rank = st.leafOf rank := fun rank => by
    rw [TreeState.leafOf, TreeState.leafOf, hadvanced.rankMap]
  have hleaf : ∀ a, start.leaf a =
      if a ∈ terminated.map st.leafOf then { st.leaf a with mode := .terminated }
      else st.leaf a := leaf_foldl_terminate _ st
  have hactiveRank : ∀ a, (start.leaf a).activeRank = (st.leaf a).activeRank := by
    intro a
    rw [hleaf]
    split
    · rfl
    · rfl
  have hsorted : ∀ rank, rank ∈ sortedTerminatedActive st terminated ↔
      rank ∈ terminated.filter fun rank => (st.leaf (st.leafOf rank)).mode = .active :=
    fun rank => mem_insertionSort _
  have hmode : ∀ rank ∈ sortedTerminatedActive st terminated,
      (start.leaf (start.leafOf rank)).mode = .terminated := by
    intro rank hrank
    rw [hleafOf, hadvanced.terminated]
    exact Or.inr (mem_map_of_mem (mem_filter.mp ((hsorted rank).mp hrank)).1)
  have hunhandled : ∀ rank, rank ∈ (replaced T st terminated).2 ↔
      rank ∈ sortedTerminatedActive st terminated ∧
        rank ∉ (replaceWithInactive T start (sortedTerminatedActive st terminated)).2 := by
    intro rank
    rw [hsorted]
    simp only [replaced, mem_filter, decide_eq_true_eq]
    rfl
  refine ⟨?_, ?_, ?_, nodup_spares _ hstart, ?_⟩
  · intro front rank back hsplit hleft
    have hnot := ((hunhandled rank).mp hleft).2
    rw [hsplit, replaceWithInactive_append, mem_append, not_or] at hnot
    have hbefore := shape_replaceWithInactive front hstart
    rw [← hleafOf, ← (rearranged_replaceWithInactive front hstart).leafOf]
    refine no_inactive_of_findSpare hbefore ?_
    cases hfind : findSpare T (replaceWithInactive T start front).1
        ((replaceWithInactive T start front).1.leafOf rank) with
    | none => rfl
    | some found =>
      rw [replaceWithInactive_of_some back hfind] at hnot
      exact absurd mem_cons_self hnot.2
  · intro rank hrank hleft
    have hdone : rank ∈ (spares T start (sortedTerminatedActive st terminated)).map Prod.fst := by
      rw [map_fst_spares]
      by_contra hnot
      exact hleft ((hunhandled rank).mpr ⟨hrank, hnot⟩)
    obtain ⟨⟨_, spare⟩, he, rfl⟩ := mem_map.mp hdone
    exact ⟨spare, he⟩
  · intro rank spare he
    have hinactive : (start.leaf spare).mode = .inactive :=
      inactive_of_mem_spares _ hstart _ he
    obtain ⟨hactive, hinherits⟩ := spare_inherits _ hstart hmode rank spare he
    refine ⟨?_, hactive, hinherits.trans ?_⟩
    · rw [hleaf] at hinactive
      split at hinactive
      · cases hinactive
      · exact hinactive
    · have hrank : rank ∈ sortedTerminatedActive st terminated := by
        have hmem : rank ∈ (spares T start (sortedTerminatedActive st terminated)).map Prod.fst :=
          mem_map_of_mem (f := Prod.fst) he
        rw [map_fst_spares] at hmem
        exact replaceWithInactive_subset _ _ hmem
      obtain ⟨r, hr⟩ := hshape.active _
        (of_decide_eq_true (mem_filter.mp ((hsorted rank).mp hrank)).2)
      rw [hleafOf, TreeState.activeRankOf, hactiveRank, hr]
      rfl
  · intro hall
    have hsame : shifted T (replaced T st terminated).1 (replaced T st terminated).2 =
        (replaceWithInactive T start (sortedTerminatedActive st terminated)).1 := by
      rw [shifted, if_neg (not_not.mpr hall)]
      rfl
    rw [hsame]
    refine ⟨fun a ha => ?_, fun a => ?_⟩
    · rw [leaf_replaceWithInactive _ hstart a ha, hactiveRank]
    · rw [(rearranged_replaceWithInactive _ hstart).activeWorldSize, hleaf]
      split
      · rfl
      · rfl

/-- The first fault of two hosts takes rank 0, and the spare of the other host replaces it. -/
theorem reserveReplaces_twoHosts :
    spares twoHosts (terminateRanks twoHosts (startTree twoHosts) [0]) [0] = [(0, 2)] ∧
      ReserveReplaces twoHosts (startTree twoHosts)
        (propagateTerminations twoHosts (startTree twoHosts) [0]) := by
  have hstart : (treeSystem twoHosts none 1).Reachable (fun _ _ => True)
      { tree := none, worldSize := 3, discarded := false } := .init rfl
  have hterm : Terminable twoHosts (startTree twoHosts) [0] := ⟨by decide, by decide⟩
  exact ⟨by decide, reserveReplaces_of_reachable (by decide) hstart hterm⟩

end ResiliencyExt.Inprocess
