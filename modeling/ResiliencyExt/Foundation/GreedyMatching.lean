import Mathlib.Data.List.Pairwise
import ResiliencyExt.Foundation.Dict

set_option autoImplicit false

/-!
# Foundation: greedy matching of weighted pairs

Pairs are taken in the order of their cost.  In a first pass a pair is kept when neither of its
sides is taken yet; in a second pass a left side without a partner gets the first right side it
can have, taken or not.  What comes out is `Stable`: nobody is passed over for something that
costs more, and a right side is shared only where there was no other.
-/

namespace ResiliencyExt.Foundation

open List

/-- A left and a right side that can be matched, and what that costs. -/
structure WeightedPair (α β : Type) where
  left : α
  right : β
  cost : Nat
  deriving DecidableEq, Repr

namespace GreedyMatching

variable {α β : Type} [DecidableEq α] [DecidableEq β]

/-- One pair of the first pass, with the right sides taken so far. -/
def takeFree (acc : Dict α β × List β) (pair : WeightedPair α β) : Dict α β × List β :=
  if pair.left ∉ acc.1.keys ∧ pair.right ∉ acc.2 then
    (acc.1.set pair.left pair.right, pair.right :: acc.2)
  else acc

/-- One pair of the second pass. -/
def takeAny (matching : Dict α β) (pair : WeightedPair α β) : Dict α β :=
  if pair.left ∉ matching.keys then matching.set pair.left pair.right else matching

def firstPass (pairs : List (WeightedPair α β)) : Dict α β × List β :=
  pairs.foldl takeFree (.empty, [])

def greedy (pairs : List (WeightedPair α β)) : Dict α β :=
  pairs.foldl takeAny (firstPass pairs).1

/-- A left side got its partner before another one did. -/
def Earlier (matching : Dict α β) (a b : α) : Prop :=
  matching.keys.idxOf a < matching.keys.idxOf b

/-- What a matching of the pairs with the relation `candidate` is to be. -/
structure Stable (candidate : α → β → Nat → Prop) (matching : Dict α β) : Prop where
  /-- Who can have a partner has one it can have. -/
  complete : ∀ a b cost, candidate a b cost →
    ∃ partner cost', matching.get? a = some partner ∧ candidate a partner cost'
  /-- A pair that is not matched has a side with a partner that costs no more. -/
  settled : ∀ a b cost, candidate a b cost →
    (∃ partner cost', matching.get? a = some partner ∧ candidate a partner cost' ∧ cost' ≤ cost) ∨
      ∃ owner cost', matching.get? owner = some b ∧ candidate owner b cost' ∧ cost' ≤ cost
  /-- Who shares its partner with an earlier one found all it can have taken, and has a partner
  of the least cost. -/
  shared : ∀ a a' b, Earlier matching a a' → matching.get? a = some b →
    matching.get? a' = some b →
    (∀ other cost, candidate a' other cost →
      ∃ owner, Earlier matching owner a' ∧ matching.get? owner = some other) ∧
    ∃ cost, candidate a' b cost ∧ ∀ other cost', candidate a' other cost' → cost ≤ cost'

/-! ## The first pass -/

/-- One side of the pair has a partner by one of the pairs `seen`, which costs no more. -/
def Settled (seen : List (WeightedPair α β)) (matching : Dict α β) (pair : WeightedPair α β) :
    Prop :=
  (∃ partner cost, matching.get? pair.left = some partner ∧ ⟨pair.left, partner, cost⟩ ∈ seen ∧
    cost ≤ pair.cost) ∨
    ∃ owner cost, matching.get? owner = some pair.right ∧ ⟨owner, pair.right, cost⟩ ∈ seen ∧
      cost ≤ pair.cost

omit [DecidableEq β] in
theorem Settled.mono {seen more : List (WeightedPair α β)} {matching matching' : Dict α β}
    {pair : WeightedPair α β} (h : Settled seen matching pair)
    (hkept : ∀ a b, matching.get? a = some b → matching'.get? a = some b)
    (hmem : ∀ p ∈ seen, p ∈ more) : Settled more matching' pair := by
  rcases h with ⟨partner, cost, hget, hseen, hle⟩ | ⟨owner, cost, hget, hseen, hle⟩
  · exact .inl ⟨partner, cost, hkept _ _ hget, hmem _ hseen, hle⟩
  · exact .inr ⟨owner, cost, hkept _ _ hget, hmem _ hseen, hle⟩

/-- What the first pass has done after the pairs `seen`. -/
structure FirstPass (seen : List (WeightedPair α β)) (acc : Dict α β × List β) : Prop where
  /-- Who has a partner has it from one of the pairs. -/
  known : ∀ a b, acc.1.get? a = some b → ∃ cost, ⟨a, b, cost⟩ ∈ seen
  taken : ∀ b, b ∈ acc.2 ↔ ∃ a, acc.1.get? a = some b
  injective : ∀ a a' b, acc.1.get? a = some b → acc.1.get? a' = some b → a = a'
  settled : ∀ pair ∈ seen, Settled seen acc.1 pair

omit [DecidableEq β] in
theorem FirstPass.nil : FirstPass ([] : List (WeightedPair α β)) (.empty, []) where
  known _ _ h := nomatch h
  taken _ := ⟨nofun, fun ⟨_, h⟩ => nomatch h⟩
  injective _ _ _ h := nomatch h
  settled _ h := nomatch h

/-- One more pair, which costs at least as much as those before it. -/
theorem FirstPass.takeFree {seen : List (WeightedPair α β)} {acc : Dict α β × List β}
    (h : FirstPass seen acc) {pair : WeightedPair α β}
    (hcost : ∀ before ∈ seen, before.cost ≤ pair.cost) :
    FirstPass (seen ++ [pair]) (takeFree acc pair) := by
  unfold GreedyMatching.takeFree
  split
  · next hfree =>
    obtain ⟨hleft, hright⟩ := hfree
    have hnone : ∀ a, acc.1.get? a ≠ some pair.right := fun a ha =>
      hright ((h.taken _).mpr ⟨a, ha⟩)
    -- nobody loses a partner
    have hkept : ∀ a b, acc.1.get? a = some b →
      (acc.1.set pair.left pair.right).get? a = some b := by
      intro a b hab
      have hne : a ≠ pair.left := fun heq => hleft (heq ▸ Dict.mem_keys_of_get? hab)
      rw [Dict.get?_set_of_ne _ _ hne]
      exact hab
    refine ⟨?_, ?_, ?_, ?_⟩
    · intro a b hab
      rw [Dict.get?_set] at hab
      split at hab
      · next heq =>
        cases hab
        exact ⟨pair.cost, mem_append_right _ (heq ▸ mem_singleton.mpr rfl)⟩
      · obtain ⟨cost, hmem⟩ := h.known a b hab
        exact ⟨cost, mem_append_left _ hmem⟩
    · intro b
      refine mem_cons.trans ⟨?_, ?_⟩
      · rintro (rfl | hb)
        · exact ⟨pair.left, Dict.get?_set_self _ _ _⟩
        · obtain ⟨a, ha⟩ := (h.taken b).mp hb
          exact ⟨a, hkept a b ha⟩
      · rintro ⟨a, ha⟩
        rw [Dict.get?_set] at ha
        split at ha
        · exact .inl (Option.some.inj ha).symm
        · exact .inr ((h.taken b).mpr ⟨a, ha⟩)
    · intro a a' b ha ha'
      rw [Dict.get?_set] at ha ha'
      split at ha <;> split at ha'
      · next heq heq' => exact heq.trans heq'.symm
      · cases ha
        exact absurd ha' (hnone a')
      · cases ha'
        exact absurd ha (hnone a)
      · exact h.injective a a' b ha ha'
    · intro p hp
      rcases mem_append.mp hp with hp | hp
      · exact (h.settled p hp).mono hkept fun _ => mem_append_left _
      · obtain rfl := mem_singleton.mp hp
        exact .inl ⟨p.right, p.cost, Dict.get?_set_self _ _ _,
          mem_append_right _ (mem_singleton.mpr rfl), Nat.le_refl _⟩
  · next htaken =>
    refine ⟨?_, h.taken, h.injective, ?_⟩
    · intro a b hab
      obtain ⟨cost, hmem⟩ := h.known a b hab
      exact ⟨cost, mem_append_left _ hmem⟩
    · intro p hp
      rcases mem_append.mp hp with hp | hp
      · exact (h.settled p hp).mono (fun _ _ => id) fun _ => mem_append_left _
      · obtain rfl := mem_singleton.mp hp
        -- one of its sides is taken, by a pair from before
        by_cases hleft : p.left ∈ acc.1.keys
        · obtain ⟨partner, hget⟩ := Dict.exists_get?_of_mem hleft
          obtain ⟨cost, hmem⟩ := h.known _ _ hget
          exact .inl ⟨partner, cost, hget, mem_append_left _ hmem, hcost _ hmem⟩
        · have hright : p.right ∈ acc.2 := by
            by_contra hright
            exact htaken ⟨hleft, hright⟩
          obtain ⟨owner, hget⟩ := (h.taken _).mp hright
          obtain ⟨cost, hmem⟩ := h.known _ _ hget
          exact .inr ⟨owner, cost, hget, mem_append_left _ hmem, hcost _ hmem⟩

theorem FirstPass.foldl {pairs : List (WeightedPair α β)} :
    ∀ {seen : List (WeightedPair α β)} {acc : Dict α β × List β}, FirstPass seen acc →
      (seen ++ pairs).Pairwise (fun p q => p.cost ≤ q.cost) →
      FirstPass (seen ++ pairs) (pairs.foldl GreedyMatching.takeFree acc) := by
  induction pairs with
  | nil =>
    intro seen acc h _
    rw [append_nil]
    exact h
  | cons pair pairs ih =>
    intro seen acc h hsorted
    have hcost : ∀ before ∈ seen, before.cost ≤ pair.cost := fun before hbefore =>
      (pairwise_append.mp hsorted).2.2 before hbefore pair mem_cons_self
    have hassoc : seen ++ pair :: pairs = (seen ++ [pair]) ++ pairs := by
      rw [append_assoc, singleton_append]
    rw [hassoc] at hsorted ⊢
    exact ih (h.takeFree hcost) hsorted

/-! ## The second pass -/

omit [DecidableEq β] in
/-- The second pass puts those who had no partner behind the others, each with its first pair. -/
theorem entries_foldl_takeAny (pairs : List (WeightedPair α β)) (matching : Dict α β) :
    (∃ more, (pairs.foldl takeAny matching).keys = matching.keys ++ more) ∧
      ∀ a, (pairs.foldl takeAny matching).get? a =
        (matching.get? a).or ((pairs.find? fun pair => pair.left = a).map WeightedPair.right) := by
  induction pairs generalizing matching with
  | nil => exact ⟨⟨[], (append_nil _).symm⟩, fun a => (Option.or_none).symm⟩
  | cons pair pairs ih =>
    rw [foldl_cons]
    obtain ⟨⟨more, hkeys⟩, hget⟩ := ih (takeAny matching pair)
    unfold takeAny at hkeys hget ⊢
    split at hkeys
    · next hfree =>
      rw [if_pos hfree]
      rw [if_pos hfree] at hget
      rw [Dict.keys_set_of_not_mem _ hfree, append_assoc] at hkeys
      refine ⟨⟨_, hkeys⟩, fun a => ?_⟩
      rw [hget, Dict.get?_set, find?_cons]
      by_cases heq : a = pair.left
      · have hnone : matching.get? pair.left = none := by
          rw [← Option.not_isSome_iff_eq_none, Dict.get?_isSome_iff]
          exact hfree
        subst heq
        simp [hnone]
      · rw [if_neg heq, decide_eq_false fun h => heq h.symm]
    · next htaken =>
      rw [if_neg htaken]
      rw [if_neg htaken] at hget
      refine ⟨⟨more, hkeys⟩, fun a => ?_⟩
      rw [hget, find?_cons]
      by_cases heq : pair.left = a
      · obtain ⟨partner, hpartner⟩ := Dict.exists_get?_of_mem (not_not.mp htaken)
        rw [← heq, hpartner]
        rfl
      · rw [decide_eq_false heq]

omit [DecidableEq β] in
/-- The first pair of a left side costs no more than its others. -/
theorem cost_le_of_find? {pairs : List (WeightedPair α β)} {a : α} {first : WeightedPair α β}
    (hsorted : pairs.Pairwise fun p q => p.cost ≤ q.cost)
    (hfirst : (pairs.find? fun pair => pair.left = a) = some first) :
    ∀ pair ∈ pairs, pair.left = a → first.cost ≤ pair.cost := by
  obtain ⟨_, before, after, rfl, hbefore⟩ := find?_eq_some_iff_append.mp hfirst
  intro pair hmem hleft
  rcases mem_append.mp hmem with hmem | hmem
  · have hne := hbefore pair hmem
    rw [decide_eq_true hleft] at hne
    cases hne
  · rcases mem_cons.mp hmem with rfl | hmem
    · exact Nat.le_refl _
    · exact rel_of_pairwise_cons (pairwise_append.mp hsorted).2.1 hmem

/-! ## Both passes -/

omit [DecidableEq β] in
/-- Who has a partner after the first pass is before all that got theirs in the second. -/
theorem earlier_of_append {matching : Dict α β} {first more : List α} {a b : α}
    (hkeys : matching.keys = first ++ more) (ha : a ∈ first) (hb : b ∉ first) :
    Earlier matching a b := by
  unfold Earlier
  rw [hkeys, idxOf_append_of_mem ha, idxOf_append_of_notMem hb]
  exact Nat.lt_of_lt_of_le (idxOf_lt_length_iff.mpr ha) (Nat.le_add_right _ _)

omit [DecidableEq β] in
theorem mem_of_earlier {matching : Dict α β} {first more : List α} {a b : α}
    (hkeys : matching.keys = first ++ more) (hb : b ∈ first) (h : Earlier matching a b) :
    a ∈ first := by
  by_contra ha
  exact absurd (earlier_of_append hkeys hb ha) (Nat.lt_asymm h)

theorem stable_greedy {pairs : List (WeightedPair α β)}
    (hsorted : pairs.Pairwise fun p q => p.cost ≤ q.cost) :
    Stable (fun a b cost => (⟨a, b, cost⟩ : WeightedPair α β) ∈ pairs) (greedy pairs) := by
  have hfirst : FirstPass pairs (firstPass pairs) := FirstPass.nil.foldl hsorted
  obtain ⟨⟨more, hkeys⟩, hget⟩ := entries_foldl_takeAny pairs (firstPass pairs).1
  change (greedy pairs).keys = _ at hkeys
  change ∀ a, (greedy pairs).get? a = _ at hget
  have hkept : ∀ a b, (firstPass pairs).1.get? a = some b → (greedy pairs).get? a = some b := by
    intro a b hab
    rw [hget, hab]
    rfl
  -- who is left over has its first pair
  have hleft : ∀ a, a ∉ (firstPass pairs).1.keys →
      (greedy pairs).get? a =
        (pairs.find? fun pair => pair.left = a).map WeightedPair.right := by
    intro a ha
    have hnone : (firstPass pairs).1.get? a = none := by
      rw [← Option.not_isSome_iff_eq_none, Dict.get?_isSome_iff]
      exact ha
    rw [hget, hnone]
    rfl
  refine ⟨?_, ?_, ?_⟩
  · intro a b cost hmem
    by_cases ha : a ∈ (firstPass pairs).1.keys
    · obtain ⟨partner, hpartner⟩ := Dict.exists_get?_of_mem ha
      obtain ⟨cost', hmem'⟩ := hfirst.known a partner hpartner
      exact ⟨partner, cost', hkept a partner hpartner, hmem'⟩
    · have hsome : ((pairs.find? fun pair => pair.left = a)).isSome :=
        find?_isSome.mpr ⟨_, hmem, decide_eq_true rfl⟩
      obtain ⟨pair, hpair⟩ := Option.isSome_iff_exists.mp hsome
      have hpa : pair.left = a := by simpa using find?_some hpair
      refine ⟨pair.right, pair.cost, ?_, ?_⟩
      · rw [hleft a ha, hpair]
        rfl
      · rw [← hpa]
        exact mem_of_find?_eq_some hpair
  · exact fun a b cost hmem => (hfirst.settled _ hmem).mono hkept fun _ => id
  · intro a a' b hearlier ha ha'
    -- the later one has no partner from the first pass, where partners are not shared
    have hlate : a' ∉ (firstPass pairs).1.keys := by
      intro hmem'
      have hmem := mem_of_earlier hkeys hmem' hearlier
      obtain ⟨partner, hpartner⟩ := Dict.exists_get?_of_mem hmem
      obtain ⟨partner', hpartner'⟩ := Dict.exists_get?_of_mem hmem'
      rw [hkept _ _ hpartner] at ha
      rw [hkept _ _ hpartner'] at ha'
      cases ha
      cases ha'
      have heq := hfirst.injective a a' b hpartner hpartner'
      rw [heq] at hearlier
      exact absurd hearlier (Nat.lt_irrefl _)
    refine ⟨fun other cost hmem => ?_, ?_⟩
    · rcases hfirst.settled _ hmem with ⟨partner, _, hp, _, _⟩ | ⟨owner, _, ho, _, _⟩
      · exact absurd (Dict.mem_keys_of_get? hp) hlate
      · exact ⟨owner, earlier_of_append hkeys (Dict.mem_keys_of_get? ho) hlate, hkept _ _ ho⟩
    · rw [hleft a' hlate] at ha'
      obtain ⟨pair, hpair, rfl⟩ := Option.map_eq_some_iff.mp ha'
      have hpa : pair.left = a' := by simpa using find?_some hpair
      refine ⟨pair.cost, ?_, fun other cost' hmem => ?_⟩
      · rw [← hpa]
        exact mem_of_find?_eq_some hpair
      · exact cost_le_of_find? hsorted hpair _ hmem rfl

end GreedyMatching

end ResiliencyExt.Foundation
