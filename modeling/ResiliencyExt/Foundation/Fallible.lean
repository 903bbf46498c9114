set_option autoImplicit false

/-!
# Foundation: computations that may fail

What a computation in `Except` has done when it succeeds: its first part has succeeded,
and a loop keeps what every round keeps.
-/

namespace ResiliencyExt.Foundation.Fallible

variable {ε α β : Type}

/-- A computation that succeeds has a first part that succeeds. -/
theorem exists_of_bind_eq_ok {x : Except ε α} {f : α → Except ε β} {b : β}
    (h : x >>= f = .ok b) : ∃ a, x = .ok a ∧ f a = .ok b := by
  cases x with
  | error e => cases h
  | ok a => exact ⟨a, rfl, h⟩

theorem exists_bind_iff {x : Except ε α} {f : α → Except ε β} :
    (∃ b, x >>= f = .ok b) ↔ ∃ a, x = .ok a ∧ ∃ b, f a = .ok b := by
  constructor
  · rintro ⟨b, h⟩
    obtain ⟨a, ha, hb⟩ := exists_of_bind_eq_ok h
    exact ⟨a, ha, b, hb⟩
  · rintro ⟨a, rfl, b, hb⟩
    exact ⟨b, hb⟩

/-- A loop that succeeds keeps what every round keeps. -/
theorem foldlM_invariant {f : β → α → Except ε β} {P : β → Prop} {items : List α}
    (step : ∀ b, ∀ a ∈ items, ∀ next, P b → f b a = .ok next → P next) :
    ∀ {b result : β}, P b → items.foldlM f b = .ok result → P result := by
  induction items with
  | nil =>
    intro b result hb h
    cases h
    exact hb
  | cons item items ih =>
    intro b result hb h
    rw [List.foldlM_cons] at h
    obtain ⟨next, hnext, hrest⟩ := exists_of_bind_eq_ok h
    refine ih (fun b a ha => step b a (List.mem_cons_of_mem item ha)) ?_ hrest
    exact step b item List.mem_cons_self next hb hnext

end ResiliencyExt.Foundation.Fallible
