import Mathlib.Data.List.Sort

set_option autoImplicit false

/-!
# Foundation: the least loaded first

Bins are kept in an order in which a bin with less load never comes after one with more.  The
first bin is taken out, gets some load, and is put back where the order has it.  However often
this is done, no two loads are further apart than the largest load put on.
-/

namespace ResiliencyExt.Foundation

variable {α : Type} {r : α → α → Prop} {load : α → Nat} {bound : Nat}

/-- No two loads are further apart than `bound`. -/
def Spread (load : α → Nat) (bound : Nat) (bins : List α) : Prop :=
  ∀ a ∈ bins, ∀ b ∈ bins, load a ≤ load b + bound

theorem Spread.of_eq {bins : List α} (total : Nat) (h : ∀ a ∈ bins, load a = total) :
    Spread load bound bins := by
  intro a ha b hb
  rw [h a ha, h b hb]
  exact Nat.le_add_right _ _

/-- The first bin is put back with at most `bound` more. -/
theorem Spread.orderedInsert [DecidableRel r] {first loaded : α} {rest : List α}
    (h : Spread load bound (first :: rest)) (hr : ∀ a b : α, r a b → load a ≤ load b)
    (hsorted : (first :: rest).Pairwise r) (hmore : load first ≤ load loaded)
    (hbound : load loaded ≤ load first + bound) :
    Spread load bound (rest.orderedInsert r loaded) := by
  have hleast : ∀ b ∈ rest, load first ≤ load b := fun b hb =>
    hr first b (List.rel_of_pairwise_cons hsorted hb)
  intro a ha b hb
  rcases (List.mem_orderedInsert r).mp ha with rfl | ha' <;>
    rcases (List.mem_orderedInsert r).mp hb with rfl | hb'
  · exact Nat.le_add_right _ _
  · exact hbound.trans (Nat.add_le_add_right (hleast b hb') bound)
  · have hfirst := h a (List.mem_cons_of_mem _ ha') first List.mem_cons_self
    exact hfirst.trans (Nat.add_le_add_right hmore bound)
  · exact h a (List.mem_cons_of_mem _ ha') b (List.mem_cons_of_mem _ hb')

end ResiliencyExt.Foundation
