import Mathlib.Data.List.Basic

set_option autoImplicit false

/-!
# Foundation: folds that touch one key at a time

A loop over keyed items often changes a large state at the key of each item only.
`KeyedStep` says so of the body of such a loop, with what it keeps at the key itself; a
loop over items of different keys then keeps it at every key, and leaves all other keys
as they are.
-/

namespace ResiliencyExt.Foundation

open List

variable {α β κ ν : Type}

/-- A loop whose body leaves what is seen as it is. -/
theorem foldl_unchanged (view : β → ν) {f : β → α → β} (h : ∀ b a, view (f b a) = view b)
    (items : List α) : ∀ b, view (items.foldl f b) = view b := by
  induction items with
  | nil => exact fun _ => rfl
  | cons a items ih => exact fun b => (ih _).trans (h b a)

/-- What `f` does at the key of an item, seen through `view`: where `I` and `P` hold, `I` is
kept, and `S` relates what is seen before and after. -/
structure KeyedStep (view : β → κ → ν) (key : α → κ) (I P : ν → Prop) (S : ν → ν → Prop)
    (f : β → α → β) : Prop where
  other : ∀ b a k, k ≠ key a → view (f b a) k = view b k
  own : ∀ b a, I (view b (key a)) → P (view b (key a)) →
    I (view (f b a) (key a)) ∧ S (view b (key a)) (view (f b a) (key a))

namespace KeyedStep

variable {view : β → κ → ν} {key : α → κ} {I P : ν → Prop} {S : ν → ν → Prop} {f : β → α → β}

theorem of_update [DecidableEq κ]
    (h : ∀ b a, ∃ v, view (f b a) = Function.update (view b) (key a) v ∧
      (I (view b (key a)) → P (view b (key a)) → I v ∧ S (view b (key a)) v)) :
    KeyedStep view key I P S f where
  other b a k hk := by
    obtain ⟨v, hview, -⟩ := h b a
    rw [hview, Function.update_of_ne hk]
  own b a hI hP := by
    obtain ⟨v, hview, hkeep⟩ := h b a
    rw [hview, Function.update_self]
    exact hkeep hI hP

theorem foldl_other (h : KeyedStep view key I P S f) (items : List α) :
    ∀ b {k}, k ∉ items.map key → view (items.foldl f b) k = view b k := by
  induction items with
  | nil => exact fun _ _ _ => rfl
  | cons a rest ih =>
    intro b k hnot
    rw [map_cons, mem_cons, not_or] at hnot
    rw [foldl_cons, ih (f b a) hnot.2, h.other b a k hnot.1]

/-- In a loop over different keys the body is run once for each key, when that key is as it was. -/
theorem foldl_at (h : KeyedStep view key I P S f) {items : List α} (hnodup : (items.map key).Nodup)
    {a : α} (ha : a ∈ items) (b : β) : ∃ b', view b' (key a) = view b (key a) ∧
      view (items.foldl f b) (key a) = view (f b' a) (key a) := by
  obtain ⟨front, back, rfl⟩ := append_of_mem ha
  rw [map_append, map_cons] at hnodup
  obtain ⟨-, hback, hdisjoint⟩ := nodup_append.mp hnodup
  refine ⟨front.foldl f b, h.foldl_other front b fun hmem =>
    hdisjoint _ hmem _ mem_cons_self rfl, ?_⟩
  rw [foldl_append, foldl_cons, h.foldl_other back _ (nodup_cons.mp hback).1]

theorem keeps (h : KeyedStep view key I P S f) {b : β} (hI : ∀ k, I (view b k)) {a : α}
    (hP : P (view b (key a))) (k : κ) : I (view (f b a) k) := by
  by_cases hk : k = key a
  · rw [hk]
    exact (h.own b a (hI _) hP).1
  · rw [h.other b a k hk]
    exact hI k

/-- A loop over different keys. -/
theorem foldl (h : KeyedStep view key I P S f) (hrefl : ∀ v, S v v) {items : List α}
    (hnodup : (items.map key).Nodup) :
    ∀ {b}, (∀ k, I (view b k)) → (∀ a ∈ items, P (view b (key a))) →
      ∀ k, I (view (items.foldl f b) k) ∧ S (view b k) (view (items.foldl f b) k) := by
  induction items with
  | nil => exact fun hI _ k => ⟨hI k, hrefl _⟩
  | cons a rest ih =>
    intro b hI hP k
    obtain ⟨hnew, hrest⟩ := nodup_cons.mp hnodup
    have hstep := (h.own b a (hI _) (hP a mem_cons_self)).2
    have hothers : ∀ c ∈ rest, key c ≠ key a := fun c hc heq =>
      hnew (heq ▸ mem_map_of_mem hc)
    have hP' : ∀ c ∈ rest, P (view (f b a) (key c)) := fun c hc => by
      rw [h.other b a _ (hothers c hc)]
      exact hP c (mem_cons_of_mem a hc)
    obtain ⟨hIk, hSk⟩ := ih hrest (h.keeps hI (hP a mem_cons_self)) hP' k
    refine ⟨hIk, ?_⟩
    by_cases hk : k = key a
    · -- the rest of the loop leaves this key as it is
      have hsame := h.foldl_other rest (f b a) (k := k) (hk ▸ hnew)
      rw [foldl_cons, hsame, hk]
      exact hstep
    · rw [← h.other b a k hk]
      exact hSk

/-- A loop over different keys that collects some of them, where `Q` holds when it does. -/
theorem foldl_collected (h : KeyedStep view key I P S f) (out : β → List κ) {Q : ν → Prop}
    (hout : ∀ b a, I (view b (key a)) → P (view b (key a)) →
      out (f b a) = out b ∨ out (f b a) = out b ++ [key a] ∧ Q (view (f b a) (key a)))
    {items : List α} (hnodup : (items.map key).Nodup) :
    ∀ {b}, (∀ k, I (view b k)) → (∀ a ∈ items, P (view b (key a))) →
      ∃ added, out (items.foldl f b) = out b ++ added ∧ added.Sublist (items.map key) ∧
        ∀ k ∈ added, Q (view (items.foldl f b) k) := by
  induction items with
  | nil => exact fun _ _ => ⟨[], (append_nil _).symm, .refl _, fun _ hk => nomatch hk⟩
  | cons a rest ih =>
    intro b hI hP
    obtain ⟨hnew, hrest⟩ := nodup_cons.mp hnodup
    have hothers : ∀ c ∈ rest, key c ≠ key a := fun c hc heq =>
      hnew (heq ▸ mem_map_of_mem hc)
    have hP' : ∀ c ∈ rest, P (view (f b a) (key c)) := fun c hc => by
      rw [h.other b a _ (hothers c hc)]
      exact hP c (mem_cons_of_mem a hc)
    obtain ⟨added, heq, hsub, hQ⟩ := ih hrest (h.keeps hI (hP a mem_cons_self)) hP'
    rcases hout b a (hI _) (hP a mem_cons_self) with hsame | ⟨hmore, hQa⟩
    · exact ⟨added, heq.trans (by rw [hsame]), hsub.cons _, hQ⟩
    · refine ⟨key a :: added, heq.trans (by rw [hmore, append_assoc]; rfl),
        hsub.cons_cons _, ?_⟩
      rintro k hk
      rcases mem_cons.mp hk with rfl | hk
      · rw [foldl_cons, h.foldl_other rest (f b a) hnew]
        exact hQa
      · exact hQ k hk

end KeyedStep

end ResiliencyExt.Foundation
