import Mathlib.Data.List.Perm.Basic
import ResiliencyExt.Inprocess.TreeShape

set_option autoImplicit false

/-!
# Inprocess: termination and reserve replacement

Terminating leaves turns their active ranks into holes of the active numbering,
and every spare that is found fills one hole.  The other leaves keep their
states, which `Rearranged` records for all later phases up to the shift.
-/

namespace ResiliencyExt.Inprocess

open Foundation List

variable {T : Topology}

/-! ## What rearranging leaves alone -/

/-- From `st` to `st'` only the modes and active ranks of leaves that are not
terminated changed, and nobody became terminated. -/
structure Rearranged (st st' : TreeState) : Prop where
  rankMap : st'.rankMap = st.rankMap
  rank : ∀ a, (st'.leaf a).rank = (st.leaf a).rank
  worldSize : ∀ a, (st'.leaf a).worldSize = (st.leaf a).worldSize
  activeWorldSize : ∀ a, (st'.leaf a).activeWorldSize = (st.leaf a).activeWorldSize
  terminated : ∀ a, (st'.leaf a).mode = .terminated ↔ (st.leaf a).mode = .terminated
  kept : ∀ a, (st.leaf a).mode = .terminated → st'.leaf a = st.leaf a

namespace Rearranged

theorem refl (st : TreeState) : Rearranged st st where
  rankMap := rfl
  rank _ := rfl
  worldSize _ := rfl
  activeWorldSize _ := rfl
  terminated _ := Iff.rfl
  kept _ _ := rfl

theorem trans {st st' st'' : TreeState} (h : Rearranged st st') (h' : Rearranged st' st'') :
    Rearranged st st'' where
  rankMap := h'.rankMap.trans h.rankMap
  rank a := (h'.rank a).trans (h.rank a)
  worldSize a := (h'.worldSize a).trans (h.worldSize a)
  activeWorldSize a := (h'.activeWorldSize a).trans (h.activeWorldSize a)
  terminated a := (h'.terminated a).trans (h.terminated a)
  kept a ha := (h'.kept a ((h.terminated a).mpr ha)).trans (h.kept a ha)

/-- The leaf of a rank is found as before. -/
theorem leafOf {st st' : TreeState} (h : Rearranged st st') (rank : Nat) :
    st'.leafOf rank = st.leafOf rank := by
  rw [TreeState.leafOf, TreeState.leafOf, h.rankMap]

theorem activeRankOf {st st' : TreeState} (h : Rearranged st st') {a : Nat}
    (ha : (st.leaf a).mode = .terminated) : st'.activeRankOf a = st.activeRankOf a := by
  rw [TreeState.activeRankOf, TreeState.activeRankOf, h.kept a ha]

/-- One leaf that is not terminated takes another mode and active rank. -/
theorem update_leaf {st st' : TreeState} {a : Nat} (hrankMap : st'.rankMap = st.rankMap)
    (hother : ∀ b, b ≠ a → st'.leaf b = st.leaf b)
    (hmode : (st.leaf a).mode ≠ .terminated) (hmode' : (st'.leaf a).mode ≠ .terminated)
    (hrank : (st'.leaf a).rank = (st.leaf a).rank)
    (hworld : (st'.leaf a).worldSize = (st.leaf a).worldSize)
    (hactive : (st'.leaf a).activeWorldSize = (st.leaf a).activeWorldSize) :
    Rearranged st st' := by
  have hsplit : ∀ b, st'.leaf b = st.leaf b ∨ b = a := by
    intro b
    by_cases hba : b = a
    · exact Or.inr hba
    · exact Or.inl (hother b hba)
  refine ⟨hrankMap, ?_, ?_, ?_, ?_, ?_⟩
  · intro b
    obtain heq | rfl := hsplit b
    · rw [heq]
    · exact hrank
  · intro b
    obtain heq | rfl := hsplit b
    · rw [heq]
    · exact hworld
  · intro b
    obtain heq | rfl := hsplit b
    · rw [heq]
    · exact hactive
  · intro b
    obtain heq | rfl := hsplit b
    · rw [heq]
    · exact iff_of_false hmode' hmode
  · intro b hb
    obtain heq | rfl := hsplit b
    · exact heq
    · exact absurd hb hmode

end Rearranged

/-! ## Termination -/

variable {st popped : TreeState} {n spare : Nat}

/-- Terminating leaves changes their modes and nothing else of any leaf. -/
theorem leaf_foldl_terminate (leaves : List Nat) (st : TreeState) (a : Nat) :
    (leaves.foldl (terminate T) st).leaf a =
      if a ∈ leaves then { st.leaf a with mode := .terminated } else st.leaf a := by
  induction leaves generalizing st with
  | nil => simp
  | cons b rest ih =>
    rw [foldl_cons, ih]
    by_cases hab : a = b
    · subst hab
      simp [terminate_self]
    · rw [terminate_of_ne st hab]
      simp [hab]

theorem rankMap_foldl_terminate (leaves : List Nat) (st : TreeState) :
    (leaves.foldl (terminate T) st).rankMap = st.rankMap := by
  induction leaves generalizing st with
  | nil => rfl
  | cons b rest ih => exact ih (terminate T st b)

theorem shape_foldl_terminate (h : Shape T st) {leaves : List Nat}
    (hleaves : ∀ a ∈ leaves, a ∈ T.leaves) : Shape T (leaves.foldl (terminate T) st) := by
  induction leaves generalizing st with
  | nil => exact h
  | cons b rest ih =>
    exact ih (h.terminate (hleaves b mem_cons_self))
      fun a ha => hleaves a (mem_cons_of_mem b ha)

/-- The active ranks of the terminated leaves become holes. -/
theorem numbering_foldl_terminate (leaves holes : List Nat) (h : Shape T st)
    (hnumbering : Numbering (activeNumber st) n holes) (hleaves : ∀ a ∈ leaves, a ∈ T.leaves)
    (hnodup : leaves.Nodup) :
    Numbering (activeNumber (leaves.foldl (terminate T) st)) n
      ((leaves.filter fun a => (st.leaf a).mode = .active).map st.activeRankOf ++ holes) := by
  induction leaves generalizing st holes with
  | nil => exact hnumbering
  | cons b rest ih =>
    obtain ⟨hb, hrest⟩ := nodup_cons.mp hnodup
    have hb_mem := hleaves b mem_cons_self
    have hrest_mem := fun a ha => hleaves a (mem_cons_of_mem b ha)
    have hself : activeNumber (terminate T st b) b = none := by
      refine activeNumber_of_ne ?_
      rw [terminate_self]
      simp
    have hother : ∀ a, a ≠ b →
        activeNumber (terminate T st b) a = activeNumber st a := fun a ha =>
      activeNumber_congr (terminate_of_ne st ha)
    -- the leaves still to come keep their states when `b` is terminated
    have hlater : ((rest.filter fun a => ((terminate T st b).leaf a).mode = .active).map
          (terminate T st b).activeRankOf) =
        (rest.filter fun a => (st.leaf a).mode = .active).map st.activeRankOf := by
      have hsame : ∀ a ∈ rest, (terminate T st b).leaf a = st.leaf a := by
        intro a ha
        refine terminate_of_ne st ?_
        rintro rfl
        exact hb ha
      rw [filter_congr fun a ha => by rw [hsame a ha]]
      refine map_congr_left fun a ha => ?_
      rw [TreeState.activeRankOf, hsame a (mem_of_mem_filter ha),
        TreeState.activeRankOf]
    rw [foldl_cons]
    by_cases hactive : (st.leaf b).mode = .active
    · have hvacated : Numbering (activeNumber (terminate T st b)) n
          (st.activeRankOf b :: holes) :=
        hnumbering.vacate (h.activeNumber_isSome hactive) hself hother
      have hrun := ih (st.activeRankOf b :: holes) (h.terminate hb_mem) hvacated
        hrest_mem hrest
      rw [hlater] at hrun
      rw [filter_cons_of_pos (by simpa using hactive)]
      exact hrun.perm perm_middle
    · have hsame : Numbering (activeNumber (terminate T st b)) n holes := by
        refine hnumbering.congr fun a => ?_
        by_cases hab : a = b
        · subst hab
          rw [hself, activeNumber_of_ne hactive]
        · exact hother a hab
      have hrun := ih holes (h.terminate hb_mem) hsame hrest_mem hrest
      rw [hlater] at hrun
      rw [filter_cons_of_neg (by simpa using hactive)]
      exact hrun

/-! ## Spares -/

/-- A spare that is found was inactive, and only its node's map lost it. -/
structure Popped (st popped : TreeState) (spare : Nat) : Prop where
  leaf : popped.leaf = st.leaf
  rankMap : popped.rankMap = st.rankMap
  sublist : ∀ p, (popped.inactiveNodes p).Sublist (st.inactiveNodes p)
  others : ∀ p b, b ≠ spare → (b ∈ popped.inactiveNodes p ↔ b ∈ st.inactiveNodes p)

theorem popitem_eq_some {node : NodePath} (h : popitem st node = some (spare, popped)) :
    spare ∈ st.inactiveNodes node ∧ Popped st popped spare := by
  obtain ⟨last, hlast, heq⟩ := Option.map_eq_some_iff.mp h
  obtain ⟨rfl, rfl⟩ := Prod.mk.inj heq
  have hsplit : st.inactiveNodes node = (st.inactiveNodes node).dropLast ++ [last] :=
    (dropLast_append_getLast? last hlast).symm
  refine ⟨mem_of_getLast? hlast, rfl, rfl, ?_, ?_⟩
  · intro p
    dsimp only
    split
    · rename_i hp
      rw [hp]
      exact dropLast_sublist _
    · exact List.Sublist.refl _
  · intro p b hb
    dsimp only
    split
    · rename_i hp
      rw [hp]
      constructor
      · exact mem_of_mem_dropLast
      · intro hmem
        rw [hsplit] at hmem
        simpa [hb] using hmem
    · exact Iff.rfl

theorem findSpare_eq_some {leaf : Nat} (h : Shape T st)
    (hfind : findSpare T st leaf = some (spare, popped)) :
    (st.leaf spare).mode = .inactive ∧ Popped st popped spare := by
  obtain ⟨node, _, hpop⟩ := Option.bind_eq_some_iff.mp hfind
  obtain ⟨hmem, hpopped⟩ := popitem_eq_some hpop
  exact ⟨((h.inactiveNodes node spare).mp hmem).2, hpopped⟩

/-- Activating a popped spare takes it out of the maps that still have it. -/
theorem Shape.activate_popped (h : Shape T st) (hspare : (st.leaf spare).mode = .inactive)
    (hpopped : Popped st popped spare) (r : Nat) :
    Shape T (Inprocess.activate T popped spare r) := by
  have hleaf : spare ∈ T.leaves := h.member spare (by simp [hspare])
  have hremove : ∀ p b, b ∈ (Inprocess.activate T popped spare r).inactiveNodes p ↔
      b ∈ popped.inactiveNodes p ∧ b ≠ spare := fun p b =>
    mem_onAncestors_filter fun hmem =>
      ((h.inactiveNodes p spare).mp ((hpopped.sublist p).subset hmem)).1
  refine h.update_leaf hleaf ?_ ?_ ?_ ?_ ?_ ?_
  · intro b hb
    rw [activate_of_ne popped r hb, hpopped.leaf]
  · intro _
    rw [activate_self]
    exact ⟨r, rfl⟩
  · intro hmode
    rw [activate_self] at hmode
    simp at hmode
  · intro p
    rw [hremove, activate_self]
    simp
  · intro p b hb
    rw [hremove, hpopped.others p b hb]
    simp [hb]
  · intro p
    exact nodup_onAncestors (fun nodes hnodes => hnodes.filter _)
      ((h.nodup p).sublist (hpopped.sublist p))

/-- Activating a popped spare changes the spare alone. -/
theorem rearranged_activate_popped (hspare : (st.leaf spare).mode = .inactive)
    (hpopped : Popped st popped spare) (r : Nat) :
    Rearranged st (activate T popped spare r) := by
  have hself := activate_self (T := T) popped spare r
  rw [hpopped.leaf] at hself
  refine Rearranged.update_leaf (a := spare) hpopped.rankMap ?_ (by simp [hspare]) ?_ ?_ ?_ ?_
  · intro b hb
    rw [activate_of_ne popped r hb, hpopped.leaf]
  · rw [hself]
    simp
  · rw [hself]
  · rw [hself]
  · rw [hself]

/-- The spare fills the hole whose number it takes. -/
theorem numbering_activate_popped {r : Nat} {holes : List Nat}
    (hspare : (st.leaf spare).mode = .inactive) (hpopped : Popped st popped spare)
    (h : Numbering (activeNumber st) n (r :: holes)) :
    Numbering (activeNumber (activate T popped spare r)) n holes := by
  refine h.fill (a := spare) (activeNumber_of_ne (by simp [hspare])) ?_ fun b hb => ?_
  · rw [activeNumber_eq_some, activate_self]
    exact ⟨rfl, rfl⟩
  · refine activeNumber_congr ?_
    rw [activate_of_ne popped r hb, hpopped.leaf]

/-! ## Replacement -/

/-- What `replace_with_inactive` does to the terminated active ranks `todo`,
whose leaves have the active ranks `vacant`: the replaced ones are filled. -/
structure Replaces (T : Topology) (st : TreeState) (n : Nat) (vacant : Nat → Nat)
    (todo holes : List Nat) (next : TreeState × List Nat) : Prop where
  shape : Shape T next.1
  rearranged : Rearranged st next.1
  sublist : next.2.Sublist todo
  numbering : Numbering (activeNumber next.1) n
    ((todo.filter fun rank => rank ∉ next.2).map vacant ++ holes)

theorem replaceWithInactive_replaces (vacant : Nat → Nat) (todo holes : List Nat)
    (h : Shape T st)
    (htodo : ∀ rank ∈ todo, (st.leaf (st.leafOf rank)).mode = .terminated ∧
      st.activeRankOf (st.leafOf rank) = vacant rank)
    (hnodup : todo.Nodup) (hnumbering : Numbering (activeNumber st) n (todo.map vacant ++ holes)) :
    Replaces T st n vacant todo holes (replaceWithInactive T st todo) := by
  induction todo generalizing st holes with
  | nil => exact ⟨h, Rearranged.refl st, List.Sublist.refl _, hnumbering⟩
  | cons rank rest ih =>
    obtain ⟨hnew, hrest⟩ := nodup_cons.mp hnodup
    have hrank := htodo rank mem_cons_self
    have hlater := fun r hr => htodo r (mem_cons_of_mem rank hr)
    cases hfind : findSpare T st (st.leafOf rank) with
    | none =>
      -- the hole stays, behind those of the ranks still to come
      have hmoved : Numbering (activeNumber st) n
          (rest.map vacant ++ vacant rank :: holes) :=
        hnumbering.perm perm_middle.symm
      have hrun := ih (vacant rank :: holes) h hlater hrest hmoved
      have heq : replaceWithInactive T st (rank :: rest) = replaceWithInactive T st rest := by
        simp only [replaceWithInactive, hfind]
      have hunreplaced : rank ∉ (replaceWithInactive T st rest).2 := fun hmem =>
        hnew (hrun.sublist.subset hmem)
      rw [heq]
      refine ⟨hrun.shape, hrun.rearranged, hrun.sublist.cons rank, ?_⟩
      rw [filter_cons_of_pos (by simpa using hunreplaced)]
      exact hrun.numbering.perm perm_middle
    | some found =>
      obtain ⟨spare, popped⟩ := found
      obtain ⟨hspare, hpopped⟩ := findSpare_eq_some h hfind
      rw [map_cons, ← hrank.2] at hnumbering
      have hstep := rearranged_activate_popped (T := T) hspare hpopped
        (st.activeRankOf (st.leafOf rank))
      have hfilled := numbering_activate_popped (T := T) hspare hpopped hnumbering
      have hlater' : ∀ r ∈ rest,
          let st' := activate T popped spare (st.activeRankOf (st.leafOf rank))
          (st'.leaf (st'.leafOf r)).mode = .terminated ∧
            st'.activeRankOf (st'.leafOf r) = vacant r := by
        intro r hr
        obtain ⟨hmode, hvacant⟩ := hlater r hr
        refine ⟨?_, ?_⟩
        · rw [hstep.leafOf, hstep.terminated]
          exact hmode
        · rw [hstep.leafOf, hstep.activeRankOf hmode]
          exact hvacant
      have hrun := ih holes (h.activate_popped hspare hpopped _) hlater' hrest hfilled
      have heq : replaceWithInactive T st (rank :: rest) =
          ((replaceWithInactive T (activate T popped spare
              (st.activeRankOf (st.leafOf rank))) rest).1,
            rank :: (replaceWithInactive T (activate T popped spare
              (st.activeRankOf (st.leafOf rank))) rest).2) := by
        simp only [replaceWithInactive, hfind]
      rw [heq]
      refine ⟨hrun.shape, hstep.trans hrun.rearranged, hrun.sublist.cons_cons rank, ?_⟩
      rw [filter_cons_of_neg (by simp)]
      have hsame : ∀ r ∈ rest, (r ∉ rank :: (replaceWithInactive T (activate T popped spare
              (st.activeRankOf (st.leafOf rank))) rest).2) ↔
            r ∉ (replaceWithInactive T (activate T popped spare
              (st.activeRankOf (st.leafOf rank))) rest).2 := by
        intro r hr
        have hne : r ≠ rank := fun heq => hnew (heq ▸ hr)
        simp [hne]
      rw [filter_congr fun r hr => decide_eq_decide.mpr (hsame r hr)]
      exact hrun.numbering

end ResiliencyExt.Inprocess
