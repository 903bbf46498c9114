import Mathlib.Data.List.Nodup
import Mathlib.Data.List.Count
import Mathlib.Data.Set.Function

set_option autoImplicit false

/-!
# Foundation: numberings with holes

A partial function numbers the elements on which it is defined.  `Numbering f n
holes` says that it uses every number below `n` exactly once, except for the
numbers listed in `holes`, which nobody has.  Reassignment algorithms move
between such states: elements leave and make holes, elements without a number
take one, elements with a number trade it for a hole, and at the end everybody
moves down past the holes that are left.
-/

namespace ResiliencyExt.Foundation

open List
open Option (some)

variable {A : Type}

/-- `f` numbers elements injectively by the numbers below `n` outside `holes`. -/
structure Numbering (f : A → Option Nat) (n : Nat) (holes : List Nat) : Prop where
  injective : ∀ a b k, f a = some k → f b = some k → a = b
  covers : ∀ k, k < n ↔ (∃ a, f a = some k) ∨ k ∈ holes
  disjoint : ∀ a k, f a = some k → k ∉ holes
  nodup : holes.Nodup

namespace Numbering

variable {f g : A → Option Nat} {n : Nat} {holes : List Nat}

theorem lt (h : Numbering f n holes) {a : A} {k : Nat} (ha : f a = some k) : k < n :=
  (h.covers k).mpr (Or.inl ⟨a, ha⟩)

theorem lt_of_mem (h : Numbering f n holes) {k : Nat} (hk : k ∈ holes) : k < n :=
  (h.covers k).mpr (Or.inr hk)

/-- Without holes the numbering is a bijection onto the numbers below `n`. -/
theorem bijOn (h : Numbering f n []) {s : Set A} {number : A → Nat}
    (hs : ∀ a, a ∈ s ↔ (f a).isSome) (hnumber : ∀ a ∈ s, f a = some (number a)) :
    Set.BijOn number s {k | k < n} := by
  refine ⟨fun a ha => h.lt (hnumber a ha), fun a ha b hb heq => ?_, fun k hk => ?_⟩
  · refine h.injective a b (number a) (hnumber a ha) ?_
    rw [heq]
    exact hnumber b hb
  · obtain ⟨a, ha⟩ | hmem := (h.covers k).mp hk
    · have hmem : a ∈ s := (hs a).mpr (by rw [ha]; rfl)
      exact ⟨a, hmem, some.inj ((hnumber a hmem).symm.trans ha)⟩
    · simp at hmem

/-- Nobody is numbered. -/
theorem empty : Numbering (fun _ : A => none) 0 [] where
  injective := by simp
  covers := by simp
  disjoint := by simp
  nodup := nodup_nil

/-- The order in which holes are listed does not matter. -/
theorem perm {holes' : List Nat} (h : Numbering f n holes) (hperm : holes.Perm holes') :
    Numbering f n holes' where
  injective := h.injective
  covers k := by rw [h.covers k, hperm.mem_iff]
  disjoint a k ha := by
    rw [← hperm.mem_iff]
    exact h.disjoint a k ha
  nodup := hperm.nodup_iff.mp h.nodup

theorem congr (h : Numbering f n holes) (hfg : ∀ a, g a = f a) : Numbering g n holes := by
  have heq : g = f := funext hfg
  rwa [heq]

/-- A new element takes the next number. -/
theorem push (h : Numbering f n []) {a : A} (hnone : f a = none) (hself : g a = some n)
    (hother : ∀ b, b ≠ a → g b = f b) : Numbering g (n + 1) [] where
  injective := by
    intro b c k hb hc
    by_cases hba : b = a
    · by_cases hca : c = a
      · rw [hba, hca]
      · subst hba
        rw [hself] at hb
        rw [hother c hca] at hc
        have hlt := h.lt hc
        have hk := some.inj hb
        omega
    · by_cases hca : c = a
      · subst hca
        rw [hself] at hc
        rw [hother b hba] at hb
        have hlt := h.lt hb
        have hk := some.inj hc
        omega
      · rw [hother b hba] at hb
        rw [hother c hca] at hc
        exact h.injective b c k hb hc
  covers k := by
    constructor
    · intro hk
      left
      by_cases hkn : k = n
      · exact ⟨a, hkn ▸ hself⟩
      · obtain ⟨b, hb⟩ | hmem := (h.covers k).mp (by omega)
        · refine ⟨b, ?_⟩
          rw [hother b (by rintro rfl; simp [hnone] at hb)]
          exact hb
        · simp at hmem
    · rintro (⟨b, hb⟩ | hmem)
      · by_cases hba : b = a
        · subst hba
          rw [hself] at hb
          have hk := some.inj hb
          omega
        · rw [hother b hba] at hb
          have hlt := h.lt hb
          omega
      · simp at hmem
  disjoint := by simp
  nodup := nodup_nil

/-- An element leaves and makes its number a hole. -/
theorem vacate (h : Numbering f n holes) {a : A} {k : Nat} (ha : f a = some k)
    (hself : g a = none) (hother : ∀ b, b ≠ a → g b = f b) :
    Numbering g n (k :: holes) where
  injective := by
    intro b c j hb hc
    have hba : b ≠ a := by
      rintro rfl
      simp [hself] at hb
    have hca : c ≠ a := by
      rintro rfl
      simp [hself] at hc
    rw [hother b hba] at hb
    rw [hother c hca] at hc
    exact h.injective b c j hb hc
  covers j := by
    rw [h.covers j]
    constructor
    · rintro (⟨b, hb⟩ | hmem)
      · by_cases hba : b = a
        · subst hba
          have hjk : j = k := some.inj (hb.symm.trans ha)
          exact Or.inr (hjk ▸ mem_cons_self)
        · exact Or.inl ⟨b, (hother b hba).trans hb⟩
      · exact Or.inr (mem_cons_of_mem k hmem)
    · rintro (⟨b, hb⟩ | hmem)
      · have hba : b ≠ a := by
          rintro rfl
          simp [hself] at hb
        exact Or.inl ⟨b, (hother b hba).symm.trans hb⟩
      · rcases mem_cons.mp hmem with rfl | hmem
        · exact Or.inl ⟨a, ha⟩
        · exact Or.inr hmem
  disjoint b j hb := by
    have hba : b ≠ a := by
      rintro rfl
      simp [hself] at hb
    rw [hother b hba] at hb
    intro hmem
    rcases mem_cons.mp hmem with rfl | hhole
    · exact hba (h.injective b a j hb ha)
    · exact h.disjoint b j hb hhole
  nodup := nodup_cons.mpr ⟨h.disjoint a k ha, h.nodup⟩

/-- An element without a number takes a hole. -/
theorem fill {k : Nat} (h : Numbering f n (k :: holes)) {a : A} (hnone : f a = none)
    (hself : g a = some k) (hother : ∀ b, b ≠ a → g b = f b) : Numbering g n holes where
  injective := by
    have hfresh : ∀ b, f b ≠ some k := fun b hb => h.disjoint b k hb mem_cons_self
    intro b c j hb hc
    by_cases hba : b = a
    · by_cases hca : c = a
      · rw [hba, hca]
      · subst hba
        rw [hother c hca] at hc
        rw [hself] at hb
        exact absurd (hb ▸ hc) (hfresh c)
    · rw [hother b hba] at hb
      by_cases hca : c = a
      · subst hca
        rw [hself] at hc
        exact absurd (hc ▸ hb) (hfresh b)
      · rw [hother c hca] at hc
        exact h.injective b c j hb hc
  covers j := by
    rw [h.covers j]
    constructor
    · rintro (⟨b, hb⟩ | hmem)
      · refine Or.inl ⟨b, ?_⟩
        rw [hother b (by rintro rfl; simp [hnone] at hb)]
        exact hb
      · rcases mem_cons.mp hmem with rfl | hmem
        · exact Or.inl ⟨a, hself⟩
        · exact Or.inr hmem
    · rintro (⟨b, hb⟩ | hmem)
      · by_cases hba : b = a
        · subst hba
          rw [hself] at hb
          exact Or.inr (some.inj hb ▸ mem_cons_self)
        · exact Or.inl ⟨b, (hother b hba).symm.trans hb⟩
      · exact Or.inr (mem_cons_of_mem k hmem)
  disjoint b j hb := by
    have hnodup := nodup_cons.mp h.nodup
    by_cases hba : b = a
    · subst hba
      rw [hself] at hb
      exact some.inj hb ▸ hnodup.1
    · rw [hother b hba] at hb
      exact fun hmem => h.disjoint b j hb (mem_cons_of_mem k hmem)
  nodup := (nodup_cons.mp h.nodup).2

/-- An element trades its number for a hole. -/
theorem transfer [DecidableEq A] {j k : Nat} (h : Numbering f n (k :: holes)) {a : A}
    (ha : f a = some j) (hself : g a = some k) (hother : ∀ b, b ≠ a → g b = f b) :
    Numbering g n (j :: holes) := by
  have hvacated : Numbering (fun b => if b = a then none else f b) n (j :: k :: holes) :=
    h.vacate ha (by simp) (fun b hb => by simp [hb])
  have hswapped := hvacated.perm (List.Perm.swap k j holes)
  have hnone : (if a = a then none else f a) = none := by simp
  refine hswapped.fill hnone hself fun b hb => ?_
  rw [hother b hb, if_neg hb]

/-- Dropping the numbers from `m` on. -/
theorem truncate (h : Numbering f n []) {m : Nat} (hm : m ≤ n)
    (hg : ∀ a, g a = (f a).filter fun k => k < m) : Numbering g m [] where
  injective := by
    intro a b k ha hb
    rw [hg, Option.filter_eq_some_iff] at ha hb
    exact h.injective a b k ha.1 hb.1
  covers k := by
    constructor
    · intro hk
      obtain ⟨a, ha⟩ | hmem := (h.covers k).mp (by omega)
      · refine Or.inl ⟨a, ?_⟩
        rw [hg, ha]
        simp [hk]
      · simp at hmem
    · rintro (⟨a, ha⟩ | hmem)
      · rw [hg, Option.filter_eq_some_iff] at ha
        simpa using ha.2
      · simp at hmem
  disjoint := by simp
  nodup := nodup_nil

end Numbering

/-! ## Closing the holes -/

/-- The holes below a number. -/
def holesBelow (holes : List Nat) (k : Nat) : Nat :=
  holes.countP (· < k)

theorem holesBelow_zero (holes : List Nat) : holesBelow holes 0 = 0 := by
  simp [holesBelow]

/-- Counting one number further adds that number, if it is a hole. -/
theorem holesBelow_succ {holes : List Nat} (hnodup : holes.Nodup) (k : Nat) :
    holesBelow holes (k + 1) = holesBelow holes k + if k ∈ holes then 1 else 0 := by
  induction holes with
  | nil => simp [holesBelow]
  | cons x rest ih =>
    obtain ⟨hx, hrest⟩ := nodup_cons.mp hnodup
    have hstep := ih hrest
    simp only [holesBelow, countP_cons] at hstep ⊢
    rw [hstep]
    by_cases hxk : x = k
    · subst hxk
      simp [hx]
    · have hkx : k ≠ x := fun heq => hxk heq.symm
      have hlt : (x < k + 1) ↔ (x < k) := by omega
      simp only [mem_cons, hkx, false_or, decide_eq_true_eq, hlt]
      omega

theorem holesBelow_le {holes : List Nat} (hnodup : holes.Nodup) (k : Nat) :
    holesBelow holes k ≤ k := by
  induction k with
  | zero => exact Nat.le_of_eq (holesBelow_zero holes)
  | succ k ih =>
    rw [holesBelow_succ hnodup]
    split <;> omega

theorem holesBelow_eq_length {holes : List Nat} {n : Nat} (h : ∀ k ∈ holes, k < n) :
    holesBelow holes n = holes.length := by
  rw [holesBelow, countP_eq_length]
  intro k hk
  simpa using h k hk

/-- Numbers move down without meeting: the gap between two numbers holds at most
the holes in it, and the lower number is not a hole. -/
theorem sub_holesBelow_lt {holes : List Nat} (hnodup : holes.Nodup) {j : Nat}
    (hj : j ∉ holes) (d : Nat) :
    j - holesBelow holes j < (j + d + 1) - holesBelow holes (j + d + 1) := by
  induction d with
  | zero =>
    have hle := holesBelow_le hnodup j
    rw [Nat.add_zero, holesBelow_succ hnodup, if_neg hj]
    omega
  | succ d ih =>
    have hle := holesBelow_le hnodup (j + d + 1)
    have hsucc := holesBelow_succ hnodup (j + d + 1)
    have hshape : j + (d + 1) + 1 = (j + d + 1) + 1 := by omega
    rw [hshape, hsucc]
    split <;> omega

/-- Every number below the count of non-holes is reached. -/
theorem exists_sub_holesBelow_eq {holes : List Nat} (hnodup : holes.Nodup) (n i : Nat)
    (hi : i < n - holesBelow holes n) :
    ∃ k, k < n ∧ k ∉ holes ∧ k - holesBelow holes k = i := by
  induction n with
  | zero => omega
  | succ n ih =>
    rw [holesBelow_succ hnodup] at hi
    by_cases hn : n ∈ holes
    · rw [if_pos hn] at hi
      obtain ⟨k, hk, hmem, heq⟩ := ih (by omega)
      exact ⟨k, by omega, hmem, heq⟩
    · rw [if_neg hn] at hi
      by_cases hlast : i = n - holesBelow holes n
      · exact ⟨n, by omega, hn, hlast.symm⟩
      · have hle := holesBelow_le hnodup n
        obtain ⟨k, hk, hmem, heq⟩ := ih (by omega)
        exact ⟨k, by omega, hmem, heq⟩

/-- Everybody moves down past the holes below them. -/
theorem Numbering.compact {f g : A → Option Nat} {n : Nat} {holes : List Nat}
    (h : Numbering f n holes)
    (hg : ∀ a, g a = (f a).map fun k => k - holesBelow holes k) :
    Numbering g (n - holes.length) [] where
  injective := by
    have hmono : ∀ j k, j ∉ holes → j < k →
        j - holesBelow holes j < k - holesBelow holes k := by
      intro j k hj hjk
      obtain ⟨d, rfl⟩ := Nat.exists_eq_add_of_lt hjk
      exact sub_holesBelow_lt h.nodup hj d
    intro a b i ha hb
    rw [hg] at ha hb
    obtain ⟨j, hj, rfl⟩ := Option.map_eq_some_iff.mp ha
    obtain ⟨k, hk, heq⟩ := Option.map_eq_some_iff.mp hb
    rcases Nat.lt_trichotomy j k with hlt | rfl | hlt
    · have := hmono j k (h.disjoint a j hj) hlt
      omega
    · exact h.injective a b j hj hk
    · have := hmono k j (h.disjoint b k hk) hlt
      omega
  covers i := by
    have hlength := holesBelow_eq_length fun k hk => h.lt_of_mem hk
    constructor
    · intro hi
      rw [← hlength] at hi
      obtain ⟨k, hk, hmem, rfl⟩ := exists_sub_holesBelow_eq h.nodup n i hi
      obtain ⟨a, ha⟩ | hhole := (h.covers k).mp hk
      · exact Or.inl ⟨a, by rw [hg, ha]; rfl⟩
      · exact absurd hhole hmem
    · rintro (⟨a, ha⟩ | hmem)
      · rw [hg] at ha
        obtain ⟨k, hk, rfl⟩ := Option.map_eq_some_iff.mp ha
        obtain ⟨d, hd⟩ := Nat.exists_eq_add_of_lt (h.lt hk)
        have hlt := sub_holesBelow_lt h.nodup (h.disjoint a k hk) d
        rw [← hd, hlength] at hlt
        exact hlt
      · simp at hmem
  disjoint := by simp
  nodup := nodup_nil

end ResiliencyExt.Foundation
