set_option autoImplicit false

/-!
# Foundation: compare-and-set registers

A register of a key-value store holds nothing until its key is first written.
`compareSet` is the atomic operation that such stores offer: the desired value
replaces the expected one, an absent key counts as holding the distinguished
empty value, and the caller learns the value the register holds afterwards.

When every value carries a version, a swap from a value to one that is not
older can only move the register forward.  `CellLE` is that order on contents,
and `compareSet_cellLE` is the monotonicity every fenced protocol rests on.
-/

namespace ResiliencyExt.Foundation

variable {V : Type}

/-- The register holds `expected`; an absent key is taken to hold `empty`. -/
def Holds (empty : V) (cell : Option V) (expected : V) : Prop :=
  cell = some expected ∨ (cell = none ∧ expected = empty)

instance [DecidableEq V] (empty : V) (cell : Option V) (expected : V) :
    Decidable (Holds empty cell expected) :=
  inferInstanceAs (Decidable (_ ∨ _))

/-- Atomic compare-and-set: the content afterwards and the value returned. -/
def compareSet [DecidableEq V] (empty : V) (cell : Option V) (expected desired : V) :
    Option V × V :=
  match cell with
  | none => if expected = empty then (some desired, desired) else (none, expected)
  | some v => if v = expected then (some desired, desired) else (some v, v)

variable {empty expected : V} {cell : Option V} {version : V → Int} (desired : V)

theorem compareSet_of_holds [DecidableEq V] (h : Holds empty cell expected) :
    compareSet empty cell expected desired = (some desired, desired) := by
  rcases h with rfl | ⟨rfl, rfl⟩
  · simp [compareSet]
  · simp [compareSet]

/-- A failed swap leaves the register alone. -/
theorem compareSet_fst_of_not_holds [DecidableEq V] (h : ¬ Holds empty cell expected) :
    (compareSet empty cell expected desired).1 = cell := by
  cases cell with
  | none =>
    have hne : expected ≠ empty := fun he => h (Or.inr ⟨rfl, he⟩)
    simp [compareSet, hne]
  | some v =>
    have hne : v ≠ expected := fun he => h (Or.inl (congrArg some he))
    simp [compareSet, hne]

/-- A failed swap on a present key reports what the key holds. -/
theorem compareSet_snd_of_ne [DecidableEq V] {v : V} (h : v ≠ expected) :
    (compareSet empty (some v) expected desired).2 = v := by
  simp [compareSet, h]

/-! ## Versioned contents -/

/-- The content did not go back in version; an absent key is before all. -/
def CellLE (version : V → Int) (before after : Option V) : Prop :=
  ∀ v, before = some v → ∃ w, after = some w ∧ version v ≤ version w

theorem CellLE.refl (version : V → Int) (cell : Option V) : CellLE version cell cell :=
  fun v h => ⟨v, h, Int.le_refl _⟩

theorem CellLE.trans {a b c : Option V} (hab : CellLE version a b) (hbc : CellLE version b c) :
    CellLE version a c := by
  intro v hv
  obtain ⟨w, hw, hvw⟩ := hab v hv
  obtain ⟨x, hx, hwx⟩ := hbc w hw
  exact ⟨x, hx, Int.le_trans hvw hwx⟩

/-- Writing over contents that are all no newer than the new value. -/
theorem CellLE.write {before : Option V} {w : V}
    (h : ∀ v, before = some v → version v ≤ version w) : CellLE version before (some w) :=
  fun v hv => ⟨w, rfl, h v hv⟩

/-- A swap whose expectation is no newer than its desired value is monotone. -/
theorem compareSet_cellLE [DecidableEq V] {desired : V} (h : version expected ≤ version desired) :
    CellLE version cell (compareSet empty cell expected desired).1 := by
  by_cases hholds : Holds empty cell expected
  · rw [compareSet_of_holds desired hholds]
    refine CellLE.write ?_
    rintro v rfl
    rcases hholds with hv | ⟨hnone, _⟩
    · rw [Option.some.inj hv]
      exact h
    · simp at hnone
  · rw [compareSet_fst_of_not_holds desired hholds]
    exact CellLE.refl version cell

end ResiliencyExt.Foundation
