import Mathlib.Data.List.Sort
import ResiliencyExt.Foundation.Dict

set_option autoImplicit false

/-!
# Write items and the buckets of a save

`preload_tensors` splits the items of a save into buckets, one for each file, and puts the
data to each item.  It finds the data by the identity of the item, so here an item goes
through the split together with its data.
-/

namespace ResiliencyExt.Checkpointing.AsyncCkpt

open Foundation List

inductive WriteItemType where
  | tensor
  | shard
  | byteIo
  deriving DecidableEq, Repr

structure Dtype where
  name : String
  elementSize : Nat
  deriving DecidableEq, Repr

structure Chunk where
  offsets : List Nat
  sizes : List Nat
  deriving DecidableEq, Repr

structure TensorWriteData where
  chunk : Chunk
  dtype : Dtype
  deriving DecidableEq, Repr

/-- A `WriteItem`.  Its `index` is the name with the offsets of the chunk. -/
structure WriteItem where
  fqn : String
  type : WriteItemType
  tensorData : Option TensorWriteData
  tensorData_eq_none_iff : tensorData = none ↔ type = .byteIo
  deriving DecidableEq

namespace WriteItem

def isBytes (item : WriteItem) : Bool :=
  item.type = .byteIo

def chunk (item : WriteItem) : Option Chunk :=
  item.tensorData.map TensorWriteData.chunk

/-- `_item_size` -/
def itemSize (item : WriteItem) : Nat :=
  match item.tensorData with
  | none => 0
  | some tensorData => tensorData.chunk.sizes.foldl (· * ·) 1 * tensorData.dtype.elementSize

end WriteItem

/-! ## Splitting -/

variable {Data : Type}

/-- Buckets of items with their data. -/
abbrev Buckets (Data : Type) : Type :=
  List (List (WriteItem × Data))

/-- `buckets[i].append(item)` -/
def appendTo (buckets : Buckets Data) (i : Nat) (entry : WriteItem × Data) : Buckets Data :=
  buckets.modify i fun bucket => bucket ++ [entry]

/-- Python's order on the pairs in the heap. -/
def heapLE (a b : Nat × Nat) : Prop :=
  a.1 < b.1 ∨ (a.1 = b.1 ∧ a.2 ≤ b.2)

instance : DecidableRel heapLE := fun a b =>
  inferInstanceAs (Decidable (a.1 < b.1 ∨ (a.1 = b.1 ∧ a.2 ≤ b.2)))

/-- One tensor of the loop: it goes to the bin that has the least so far. -/
def assignTensor (state : List (Nat × Nat) × Buckets Data) (entry : WriteItem × Data) :
    List (Nat × Nat) × Buckets Data :=
  match state.1 with
  | [] => state
  | (totalBinSize, binIdx) :: heap =>
    (heap.orderedInsert heapLE (totalBinSize + entry.1.itemSize, binIdx),
      appendTo state.2 binIdx entry)

/-- Larger items come first, items of one size stay in order. -/
def largerFirst (a b : WriteItem × Data) : Prop :=
  b.1.itemSize ≤ a.1.itemSize

instance : DecidableRel (@largerFirst Data) := fun a b =>
  inferInstanceAs (Decidable (b.1.itemSize ≤ a.1.itemSize))

/-- `_split_by_size_and_type` -/
def splitBySizeAndType (bins : Nat) (entries : List (WriteItem × Data)) : Buckets Data :=
  if bins = 1 then [entries]
  else
    let bytesItems := entries.filter fun e => e.1.isBytes
    let tensorItems := entries.filter fun e => !e.1.isBytes
    let buckets := bytesItems.zipIdx.foldl (fun buckets e => appendTo buckets (e.2 % bins) e.1)
      (replicate bins [])
    let heap := (List.range bins).map fun i => (0, i)
    ((tensorItems.insertionSort largerFirst).foldl assignTensor (heap, buckets)).2

/-- `fqn.startswith(separation_hint)` -/
def startsWith (separationHint : String) (entry : WriteItem × Data) : Bool :=
  separationHint.toList.isPrefixOf entry.1.fqn.toList

/-- `_split_by_separation_hint` -/
def splitBySeparationHint (buckets : Buckets Data) :
    Option String → Dict String (Buckets Data)
  | none => Dict.empty.set "" buckets
  | some separationHint =>
    (Dict.empty.set "" (buckets.map (List.filter fun e => !startsWith separationHint e))).set
      separationHint (buckets.map (List.filter (startsWith separationHint)))

/-- What is written to one file. -/
structure WriteBucket (Data : Type) where
  bytesData : List (WriteItem × Data)
  tensorData : List (WriteItem × Data)

def WriteBucket.ofList (bucket : List (WriteItem × Data)) : WriteBucket Data :=
  ⟨bucket.filter fun e => e.1.isBytes, bucket.filter fun e => !e.1.isBytes⟩

/-- The buckets with something in them. -/
def writeBuckets (buckets : Buckets Data) (separationHint : Option String) :
    List (WriteBucket Data) :=
  ((splitBySeparationHint buckets separationHint).entries.flatMap fun group =>
      group.2.map WriteBucket.ofList).filter fun bucket =>
    0 < bucket.bytesData.length || 0 < bucket.tensorData.length

/-! ## Every item is in one bucket -/

variable {bins : Nat} (buckets : Buckets Data)

theorem flatten_appendTo_perm {buckets : Buckets Data} {i : Nat} (hi : i < buckets.length)
    (entry : WriteItem × Data) :
    (appendTo buckets i entry).flatten.Perm (entry :: buckets.flatten) := by
  unfold appendTo
  induction buckets generalizing i with
  | nil => exact absurd hi (Nat.not_lt_zero i)
  | cons bucket buckets ih =>
    cases i with
    | zero =>
      rw [modify_zero_cons, flatten_cons, flatten_cons, append_assoc]
      exact perm_middle
    | succ i =>
      rw [modify_succ_cons, flatten_cons, flatten_cons]
      exact ((ih (Nat.lt_of_succ_lt_succ hi)).append_left bucket).trans perm_middle

@[simp]
theorem length_appendTo (i : Nat) (entry : WriteItem × Data) :
    (appendTo buckets i entry).length = buckets.length :=
  List.length_modify _ _ _

/-- The round robin of the byte items. -/
theorem flatten_roundRobin_perm (hbins : 0 < bins) (entries : List ((WriteItem × Data) × Nat))
    {buckets : Buckets Data} (hlength : buckets.length = bins) :
    (entries.foldl (fun buckets e => appendTo buckets (e.2 % bins) e.1) buckets).length = bins ∧
      (entries.foldl (fun buckets e => appendTo buckets (e.2 % bins) e.1) buckets).flatten.Perm
        (entries.map Prod.fst ++ buckets.flatten) := by
  induction entries generalizing buckets with
  | nil => exact ⟨hlength, .refl _⟩
  | cons e entries ih =>
    have hi : e.2 % bins < buckets.length := by
      rw [hlength]
      exact Nat.mod_lt _ hbins
    obtain ⟨hlen, hperm⟩ := ih ((length_appendTo buckets (e.2 % bins) e.1).trans hlength)
    refine ⟨hlen, hperm.trans ?_⟩
    exact ((flatten_appendTo_perm hi e.1).append_left _).trans perm_middle

/-- The bins of the heap. -/
def HeapOf (bins : Nat) (heap : List (Nat × Nat)) : Prop :=
  heap ≠ [] ∧ ∀ e ∈ heap, e.2 < bins

theorem HeapOf.push {heap : List (Nat × Nat)} {e : Nat × Nat} (h : HeapOf bins (e :: heap))
    (size : Nat) : HeapOf bins (heap.orderedInsert heapLE (size, e.2)) := by
  constructor
  · intro hnil
    have hmem : (size, e.2) ∈ heap.orderedInsert heapLE (size, e.2) :=
      mem_orderedInsert heapLE |>.mpr (.inl rfl)
    rw [hnil] at hmem
    cases hmem
  · intro e' he'
    rcases (mem_orderedInsert heapLE).mp he' with rfl | hold
    · exact h.2 e mem_cons_self
    · exact h.2 e' (mem_cons_of_mem _ hold)

/-- The loop over the tensors. -/
theorem flatten_assignTensors_perm (entries : List (WriteItem × Data)) {heap : List (Nat × Nat)}
    {buckets : Buckets Data} (hheap : HeapOf bins heap) (hlength : buckets.length = bins) :
    (entries.foldl assignTensor (heap, buckets)).2.flatten.Perm (entries ++ buckets.flatten) := by
  induction entries generalizing heap buckets with
  | nil => exact .refl _
  | cons entry entries ih =>
    cases heap with
    | nil => exact absurd rfl hheap.1
    | cons e heap =>
      have hi : e.2 < buckets.length := hlength ▸ hheap.2 e mem_cons_self
      have hperm := ih (hheap.push (e.1 + entry.1.itemSize))
        ((length_appendTo buckets e.2 entry).trans hlength)
      exact hperm.trans
        (((flatten_appendTo_perm hi entry).append_left _).trans perm_middle)

theorem flatten_splitBySizeAndType_perm (hbins : 0 < bins) (entries : List (WriteItem × Data)) :
    (splitBySizeAndType bins entries).flatten.Perm entries := by
  unfold splitBySizeAndType
  split
  · rw [flatten_singleton]
  · have hempty : (replicate bins ([] : List (WriteItem × Data))).flatten = [] :=
      flatten_replicate_nil
    obtain ⟨hlength, hbytes⟩ := flatten_roundRobin_perm hbins
      (entries.filter fun e => e.1.isBytes).zipIdx
      (length_replicate : (replicate bins ([] : List (WriteItem × Data))).length = bins)
    rw [hempty, append_nil, zipIdx_map_fst] at hbytes
    have hheap : HeapOf bins ((List.range bins).map fun i => (0, i)) := by
      constructor
      · intro hnil
        have hlen := congrArg List.length hnil
        rw [length_map, length_range] at hlen
        exact absurd hlen (Nat.ne_of_gt hbins)
      · intro e he
        obtain ⟨i, hi, rfl⟩ := mem_map.mp he
        exact mem_range.mp hi
    refine (flatten_assignTensors_perm _ hheap hlength).trans ?_
    refine ((perm_insertionSort largerFirst _).append hbytes).trans ?_
    exact (perm_append_comm).trans (filter_append_perm _ entries)

theorem flatMap_filter_eq {α β : Type} {p : α → Bool} {f : α → List β} {items : List α}
    (h : ∀ a ∈ items, p a = false → f a = []) : (items.filter p).flatMap f = items.flatMap f := by
  induction items with
  | nil => rfl
  | cons a items ih =>
    have hrest := ih fun b hb => h b (mem_cons_of_mem _ hb)
    rw [filter_cons, flatMap_cons]
    split
    · rw [flatMap_cons, hrest]
    · rename_i hfalse
      rw [h a mem_cons_self (Bool.eq_false_iff.mpr hfalse), nil_append, hrest]

theorem flatMap_tensorData_ofList :
    (buckets.map WriteBucket.ofList).flatMap WriteBucket.tensorData =
      buckets.flatten.filter fun e => !e.1.isBytes := by
  induction buckets with
  | nil => rfl
  | cons bucket buckets ih =>
    rw [map_cons, flatMap_cons, ih, flatten_cons, filter_append]
    rfl

theorem flatten_map_filter (p : WriteItem × Data → Bool) :
    (buckets.map (List.filter p)).flatten = buckets.flatten.filter p := by
  rw [filter_flatten]

/-- The groups of the hint have every item once. -/
theorem flatten_splitBySeparationHint_perm (separationHint : Option String) :
    ((splitBySeparationHint buckets separationHint).entries.flatMap fun group =>
      group.2.flatten).Perm buckets.flatten := by
  cases separationHint with
  | none =>
    change (buckets.flatten ++ []).Perm buckets.flatten
    rw [append_nil]
  | some separationHint =>
    by_cases hempty : separationHint = ""
    · -- The second group takes the place of the first, and every name starts with the hint.
      subst hempty
      have hall : @startsWith Data "" = fun _ => true := rfl
      change (flatMap _ (Dict.alter (Dict.set _ _ _) _ _ _).entries).Perm _
      rw [Dict.entries_alter_of_mem _ _ (Dict.mem_keys_set.mpr (.inl rfl)), hall]
      change ((buckets.map (List.filter fun _ => true)).flatten ++ []).Perm buckets.flatten
      rw [append_nil, flatten_map_filter, filter_true]
    · have hnew : separationHint ∉ (Dict.empty.set ""
          (buckets.map (List.filter fun e => !startsWith separationHint e))).keys := by
        intro hmem
        rcases Dict.mem_keys_set.mp hmem with heq | hnone
        · exact hempty heq
        · cases hnone
      change (flatMap _ (Dict.alter (Dict.set _ _ _) _ _ _).entries).Perm _
      rw [Dict.entries_alter_of_not_mem _ _ hnew]
      change ((buckets.map (List.filter fun e => !startsWith separationHint e)).flatten ++
        ((buckets.map (List.filter (startsWith separationHint))).flatten ++ [])).Perm
        buckets.flatten
      rw [append_nil, flatten_map_filter, flatten_map_filter]
      exact perm_append_comm.trans (filter_append_perm _ _)

/-- The tensors that are written. -/
theorem tensorData_writeBuckets_perm (hbins : 0 < bins) (entries : List (WriteItem × Data))
    (separationHint : Option String) :
    ((writeBuckets (splitBySizeAndType bins entries) separationHint).flatMap
      WriteBucket.tensorData).Perm (entries.filter fun e => !e.1.isBytes) := by
  unfold writeBuckets
  rw [flatMap_filter_eq]
  · rw [flatMap_assoc]
    simp only [flatMap_tensorData_ofList]
    rw [← filter_flatMap]
    exact ((flatten_splitBySeparationHint_perm _ separationHint).trans
      (flatten_splitBySizeAndType_perm hbins entries)).filter _
  · intro bucket _ hempty
    rw [Bool.or_eq_false_iff, decide_eq_false_iff_not, decide_eq_false_iff_not] at hempty
    exact eq_nil_of_length_eq_zero (Nat.eq_zero_of_not_pos hempty.2)

end ResiliencyExt.Checkpointing.AsyncCkpt
