import Mathlib.Data.List.Basic

set_option autoImplicit false

/-!
# Local checkpointing: popping and inserting tensors

`BasicTensorAwareStateDict` of `basic_state_dict.py`, over trees of dicts and lists that share no
container.  One traversal, `nested_values`, lists the tensors, another one,
`dict_list_map_inplace`, puts placeholders in their place and later takes tensors off a stack for
the placeholders.
-/

namespace ResiliencyExt.Checkpointing.Local.BasicStateDict

open List

/-- A container: a dict, by its keys in insertion order, or a list. -/
inductive Container (K : Type) where
  | dict (keys : List K)
  | list
  deriving DecidableEq, Repr

/-- Nested containers with leaves; `children` are the values of the dict or the elements of the
list, in order. -/
inductive Tree (K L : Type) where
  | leaf (value : L)
  | node (container : Container K) (children : List (Tree K L))

/-- A leaf of the user's state dict. -/
inductive Leaf (T V : Type) where
  | tensor (t : T)
  | other (v : V)
  deriving DecidableEq, Repr

/-- A leaf when the tensors have been extracted; a `TensorPlaceholder` keeps a tensor's metadata. -/
inductive HollowLeaf (P V : Type) where
  | placeholder (p : P)
  | other (v : V)
  deriving DecidableEq, Repr

variable {K L L' T P V : Type}

/-! ## The two traversals -/

mutual
/-- `nested_values` -/
def nestedValues : Tree K L → List L
  | .leaf value => [value]
  | .node _ children => nestedValuesAll children

def nestedValuesAll : List (Tree K L) → List L
  | [] => []
  | child :: children => nestedValues child ++ nestedValuesAll children
end

mutual
/-- `dict_list_map_inplace` for a function with effects. -/
def mapInplace {m : Type → Type} [Monad m] (f : L → m L') : Tree K L → m (Tree K L')
  | .leaf value => do return .leaf (← f value)
  | .node container children => do return .node container (← mapAllInplace f children)

def mapAllInplace {m : Type → Type} [Monad m] (f : L → m L') :
    List (Tree K L) → m (List (Tree K L'))
  | [] => return []
  | child :: children => do
    let child ← mapInplace f child
    let children ← mapAllInplace f children
    return child :: children
end

/-! ## The state dict -/

/-- A state dict with its tensors, or a hollow one. -/
inductive BasicTensorAwareStateDict (K T P V : Type) where
  | full (stateDict : Tree K (Leaf T V))
  | hollow (stateDict : Tree K (HollowLeaf P V))

def Leaf.tensor? : Leaf T V → Option T
  | tensor t => some t
  | other _ => none

/-- `tensors` -/
def tensors (stateDict : Tree K (Leaf T V)) : List T :=
  (nestedValues stateDict).filterMap Leaf.tensor?

/-- The leaf with a placeholder for a tensor; `describe` is `TensorPlaceholder`. -/
def Leaf.pop (describe : T → P) : Leaf T V → HollowLeaf P V
  | tensor t => .placeholder (describe t)
  | other v => .other v

/-- The leaf with the tensor from the top of `tensor_stack` for a placeholder. -/
def HollowLeaf.insert : HollowLeaf P V → StateT (List T) Option (Leaf T V)
  | placeholder _ => fun stack => stack.getLast?.map fun t => (.tensor t, stack.dropLast)
  | other v => return .other v

namespace BasicTensorAwareStateDict

/-- `pop_tensors`; `none` is a failed assertion. -/
def popTensors (describe : T → P) :
    BasicTensorAwareStateDict K T P V → Option (List T × BasicTensorAwareStateDict K T P V)
  | full stateDict =>
    some (tensors stateDict, hollow (mapInplace (m := Id) (Leaf.pop describe) stateDict))
  | hollow _ => none

/-- `insert_tensors`; `none` is a failed assertion or a stack that has run out. -/
def insertTensors (tensorData : List T) :
    BasicTensorAwareStateDict K T P V → Option (BasicTensorAwareStateDict K T P V)
  | full _ => none
  | hollow stateDict =>
    ((mapInplace HollowLeaf.insert stateDict).run tensorData.reverse).map fun inserted =>
      full inserted.1

end BasicTensorAwareStateDict

/-! ## What is inserted where -/

mutual
/-- The containers of a tree, without the leaves. -/
def structureOf : Tree K L → Tree K Unit
  | .leaf _ => .leaf ()
  | .node container children => .node container (structuresOf children)

def structuresOf : List (Tree K L) → List (Tree K Unit)
  | [] => []
  | child :: children => structureOf child :: structuresOf children
end

/-- The leaves with other tensors, the first for the first. -/
def refill : List (Leaf T V) → List T → List (Leaf T V)
  | .tensor _ :: leaves, t :: data => .tensor t :: refill leaves data
  | .other v :: leaves, data => .other v :: refill leaves data
  | leaves, _ => leaves

theorem refill_append (first second : List (Leaf T V)) {data more : List T}
    (h : data.length = (first.filterMap Leaf.tensor?).length) :
    refill (first ++ second) (data ++ more) = refill first data ++ refill second more := by
  induction first generalizing data with
  | nil =>
    rw [length_eq_zero_iff.mp h]
    cases second <;> rfl
  | cons leaf first ih =>
    cases leaf with
    | other v => exact congrArg _ (ih h)
    | tensor t =>
      cases data with
      | nil => cases h
      | cons u data => exact congrArg _ (ih (Nat.succ.inj h))

theorem refill_tensors (leaves : List (Leaf T V)) :
    refill leaves (leaves.filterMap Leaf.tensor?) = leaves := by
  induction leaves with
  | nil => rfl
  | cons leaf leaves ih => cases leaf <;> exact congrArg _ ih

/-- The hollow tree that `pop_tensors` leaves. -/
def hollowed (describe : T → P) (stateDict : Tree K (Leaf T V)) : Tree K (HollowLeaf P V) :=
  mapInplace (m := Id) (Leaf.pop describe) stateDict

def hollowedAll (describe : T → P) (stateDicts : List (Tree K (Leaf T V))) :
    List (Tree K (HollowLeaf P V)) :=
  mapAllInplace (m := Id) (Leaf.pop describe) stateDicts

variable (describe : T → P)

theorem insert_pop (leaf : Leaf T V) {data : List T} (rest : List T)
    (h : data.length = leaf.tensor?.toList.length) :
    ∃ filled, (leaf.pop describe).insert.run (data ++ rest).reverse =
        some (filled, rest.reverse) ∧ refill [leaf] data = [filled] := by
  cases leaf with
  | other v =>
    rw [length_eq_zero_iff.mp h]
    exact ⟨.other v, rfl, rfl⟩
  | tensor t =>
    obtain ⟨u, rfl⟩ := length_eq_one_iff.mp h
    refine ⟨.tensor u, ?_, rfl⟩
    simp [Leaf.pop, HollowLeaf.insert, StateT.run]

mutual
/-- Inserting takes from the stack what the tree has tensors, and leaves what is below. -/
theorem insert_hollowed : ∀ (stateDict : Tree K (Leaf T V)) {data : List T} (rest : List T),
    data.length = (tensors stateDict).length →
    ∃ inserted, (mapInplace HollowLeaf.insert (hollowed describe stateDict)).run
        (data ++ rest).reverse = some (inserted, rest.reverse) ∧
      structureOf inserted = structureOf stateDict ∧
      nestedValues inserted = refill (nestedValues stateDict) data
  | .leaf leaf, data, rest, h => by
    have hone : data.length = leaf.tensor?.toList.length := by
      cases leaf <;> exact h
    obtain ⟨filled, hinsert, hrefill⟩ := insert_pop describe leaf rest hone
    refine ⟨.leaf filled, ?_, rfl, hrefill.symm⟩
    have hhollow : hollowed describe (.leaf leaf : Tree K _) = .leaf (leaf.pop describe) := rfl
    rw [hhollow, mapInplace, StateT.run_bind, hinsert]
    rfl
  | .node container children, data, rest, h => by
    obtain ⟨inserted, hinsert, hstructure, hvalues⟩ := insertAll_hollowed children rest h
    refine ⟨.node container inserted, ?_, by rw [structureOf, hstructure, structureOf], hvalues⟩
    have hhollow : hollowed describe (.node container children) =
      .node container (hollowedAll describe children) := rfl
    rw [hhollow, mapInplace, StateT.run_bind, hinsert]
    rfl

theorem insertAll_hollowed : ∀ (stateDicts : List (Tree K (Leaf T V))) {data : List T}
    (rest : List T), data.length = ((nestedValuesAll stateDicts).filterMap Leaf.tensor?).length →
    ∃ inserted, (mapAllInplace HollowLeaf.insert (hollowedAll describe stateDicts)).run
        (data ++ rest).reverse = some (inserted, rest.reverse) ∧
      structuresOf inserted = structuresOf stateDicts ∧
      nestedValuesAll inserted = refill (nestedValuesAll stateDicts) data
  | [], data, rest, h => by
    rw [length_eq_zero_iff.mp h]
    exact ⟨[], rfl, rfl, rfl⟩
  | child :: children, data, rest, h => by
    rw [nestedValuesAll, filterMap_append, length_append] at h
    obtain ⟨first, second, rfl, hfirst⟩ : ∃ first second, data = first ++ second ∧
        first.length = (tensors child).length :=
      ⟨_, _, (take_append_drop (tensors child).length data).symm, by
        rw [length_take, tensors]
        omega⟩
    have hsecond : second.length = ((nestedValuesAll children).filterMap Leaf.tensor?).length := by
      rw [length_append, hfirst, tensors] at h
      omega
    obtain ⟨inserted, hinsert, hstructure, hvalues⟩ :=
      insert_hollowed child (second ++ rest) hfirst
    obtain ⟨others, hothers, hstructures, hall⟩ := insertAll_hollowed children rest hsecond
    refine ⟨inserted :: others, ?_, ?_, ?_⟩
    · have hhollow : hollowedAll describe (child :: children) =
        hollowed describe child :: hollowedAll describe children := rfl
      rw [hhollow, mapAllInplace, StateT.run_bind, append_assoc, hinsert]
      simp only [Option.bind_eq_bind, Option.bind_some, StateT.run_bind, hothers]
      rfl
    · rw [structuresOf, hstructure, hstructures, structuresOf]
    · rw [nestedValuesAll, hvalues, hall, nestedValuesAll, refill_append _ _ hfirst]
end

mutual
/-- Containers and leaves in order are all there is to a tree. -/
theorem tree_ext : ∀ {first second : Tree K L} {more others : List L},
    structureOf first = structureOf second →
    nestedValues first ++ more = nestedValues second ++ others → first = second ∧ more = others
  | .leaf _, .leaf _, _, _, _, h => ⟨congrArg _ (cons.inj h).1, (cons.inj h).2⟩
  | .leaf _, .node _ _, _, _, h, _ => nomatch h
  | .node _ _, .leaf _, _, _, h, _ => nomatch h
  | .node _ _, .node _ _, _, _, hstructure, h => by
    injection hstructure with hcontainer hchildren
    obtain ⟨rfl, hmore⟩ := trees_ext hchildren h
    exact ⟨by rw [hcontainer], hmore⟩

theorem trees_ext : ∀ {first second : List (Tree K L)} {more others : List L},
    structuresOf first = structuresOf second →
    nestedValuesAll first ++ more = nestedValuesAll second ++ others →
    first = second ∧ more = others
  | [], [], _, _, _, h => ⟨rfl, h⟩
  | [], _ :: _, _, _, h, _ => nomatch h
  | _ :: _, [], _, _, h, _ => nomatch h
  | _ :: _, _ :: _, _, _, hstructure, h => by
    injection hstructure with hfirst hrest
    rw [nestedValuesAll, nestedValuesAll, append_assoc, append_assoc] at h
    obtain ⟨rfl, htail⟩ := tree_ext hfirst h
    obtain ⟨rfl, hmore⟩ := trees_ext hrest htail
    exact ⟨rfl, hmore⟩
end

namespace BasicTensorAwareStateDict

/-- As many tensors as there were go to the places of the tensors, in order. -/
theorem insertTensors_hollowed (stateDict : Tree K (Leaf T V)) {data : List T}
    (h : data.length = (tensors stateDict).length) :
    ∃ inserted,
      (hollow (hollowed describe stateDict)).insertTensors data = some (full inserted) ∧
      structureOf inserted = structureOf stateDict ∧
      nestedValues inserted = refill (nestedValues stateDict) data := by
  obtain ⟨inserted, hinsert, hplaces⟩ := insert_hollowed describe stateDict [] h
  rw [append_nil] at hinsert
  exact ⟨inserted, by rw [insertTensors, hinsert]; rfl, hplaces⟩

/-- Popping the tensors and inserting them restores the state dict, and any list of as many
tensors goes to the places of the tensors in the order of `nested_values`. -/
theorem pop_then_insert (stateDict : Tree K (Leaf T V)) :
    ∃ popped : BasicTensorAwareStateDict K T P V,
      (full stateDict).popTensors describe = some (tensors stateDict, popped) ∧
      popped.insertTensors (tensors stateDict) = some (full stateDict) ∧
      ∀ data, data.length = (tensors stateDict).length →
        ∃ inserted, popped.insertTensors data = some (full inserted) ∧
          structureOf inserted = structureOf stateDict ∧
          nestedValues inserted = refill (nestedValues stateDict) data := by
  refine ⟨_, rfl, ?_, fun data => insertTensors_hollowed describe stateDict⟩
  obtain ⟨inserted, hinsert, hstructure, hvalues⟩ :=
    insertTensors_hollowed describe stateDict rfl
  rw [tensors, refill_tensors] at hvalues
  rw [(tree_ext hstructure (congrArg (· ++ []) hvalues)).1] at hinsert
  exact hinsert

end BasicTensorAwareStateDict

end ResiliencyExt.Checkpointing.Local.BasicStateDict
