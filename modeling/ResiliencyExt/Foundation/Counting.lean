import Mathlib.Algebra.Order.BigOperators.Group.Finset

set_option autoImplicit false

/-!
# Foundation: counting agents past a milestone

A counting barrier rests on one number: how many of a fixed set of agents have
got past a milestone.  A step of one agent leaves that number alone or adds one
to it, and when it is the size of the set every agent is past the milestone.
-/

namespace ResiliencyExt.Foundation

open Function

variable {Local : Type}

/-- How many of `members` are past the milestone `P`. -/
def countPast (members : Finset Nat) (P : Nat → Local → Prop) [∀ p l, Decidable (P p l)]
    (agent : Nat → Local) : Nat :=
  (members.filter fun p => P p (agent p)).card

variable {members : Finset Nat} {P : Nat → Local → Prop} [∀ p l, Decidable (P p l)]
  {agent : Nat → Local} {p : Nat} {next : Local}

theorem countPast_le : countPast members P agent ≤ members.card :=
  Finset.card_filter_le _ _

/-- All members are past the milestone exactly when as many are as there are. -/
theorem countPast_eq_card_iff :
    countPast members P agent = members.card ↔ ∀ p ∈ members, P p (agent p) :=
  Finset.card_filter_eq_iff

/-- A step that does not move its agent past the milestone. -/
theorem countPast_update_of_iff (h : p ∈ members → (P p next ↔ P p (agent p))) :
    countPast members P (update agent p next) = countPast members P agent := by
  refine congrArg Finset.card (Finset.filter_congr fun q hq => ?_)
  rcases eq_or_ne q p with rfl | hne
  · rw [update_self]
    exact h hq
  · rw [update_of_ne hne]

/-- A step that does. -/
theorem countPast_update_succ (hp : p ∈ members) (hbefore : ¬ P p (agent p))
    (hafter : P p next) :
    countPast members P (update agent p next) = countPast members P agent + 1 := by
  have hnotMem : p ∉ members.filter fun q => P q (agent q) :=
    fun hmem => hbefore (Finset.mem_filter.mp hmem).2
  rw [countPast, countPast, ← Finset.card_insert_of_notMem hnotMem]
  refine congrArg Finset.card (Finset.ext fun q => ?_)
  rw [Finset.mem_insert, Finset.mem_filter, Finset.mem_filter]
  rcases eq_or_ne q p with rfl | hne
  · simp [hp, hafter]
  · simp [hne]

/-- A step changes a sum over the agents by what it changes for its own. -/
theorem sum_update (w : Local → Nat) (agent : Nat → Local) (next : Local) (hp : p ∈ members) :
    ∑ q ∈ members, w (update agent p next q) + w (agent p) =
      ∑ q ∈ members, w (agent q) + w next := by
  have hafter := Finset.add_sum_erase members (fun q => w (update agent p next q)) hp
  have hbefore := Finset.add_sum_erase members (fun q => w (agent q)) hp
  have hothers : ∑ q ∈ members.erase p, w (update agent p next q) =
      ∑ q ∈ members.erase p, w (agent q) :=
    Finset.sum_congr rfl fun q hq => by rw [update_of_ne (Finset.ne_of_mem_erase hq)]
  rw [update_self, hothers] at hafter
  omega

/-- A step that leaves its agent less to do leaves all of them less to do. -/
theorem sum_update_lt {w : Local → Nat} (hp : p ∈ members) (h : w next < w (agent p)) :
    ∑ q ∈ members, w (update agent p next q) < ∑ q ∈ members, w (agent q) := by
  refine Finset.sum_lt_sum (fun q _ => ?_) ⟨p, hp, by rwa [update_self]⟩
  rcases eq_or_ne q p with rfl | hne
  · rw [update_self]
    exact Nat.le_of_lt h
  · rw [update_of_ne hne]

end ResiliencyExt.Foundation
