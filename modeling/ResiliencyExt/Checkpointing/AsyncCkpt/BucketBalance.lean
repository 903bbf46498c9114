import Mathlib.Algebra.GroupWithZero.Nat
import ResiliencyExt.Checkpointing.AsyncCkpt.WriteBuckets
import ResiliencyExt.Foundation.LeastLoaded

set_option autoImplicit false

/-!
# The bins of a save are balanced

`_split_by_size_and_type` gives each tensor to the bin that is at the top of a heap.  The heap
has one pair for each bin, the tensor size of the bin with its index.
-/

namespace ResiliencyExt.Checkpointing.AsyncCkpt

open Foundation List

variable {Data : Type}

/-- The tensors among the items. -/
def tensorEntries (entries : List (WriteItem × Data)) : List (WriteItem × Data) :=
  entries.filter fun e => !e.1.isBytes

/-- The total tensor size of a bin. -/
def binSize (bucket : List (WriteItem × Data)) : Nat :=
  ((tensorEntries bucket).map fun e => e.1.itemSize).sum

/-- The size of the largest tensor. -/
def largestTensor (entries : List (WriteItem × Data)) : Nat :=
  ((tensorEntries entries).map fun e => e.1.itemSize).foldr max 0

variable {entries : List (WriteItem × Data)} {entry : WriteItem × Data} {buckets : Buckets Data}
    {bound : Nat} {heap : List (Nat × Nat)}

theorem itemSize_le_largestTensor (h : entry ∈ tensorEntries entries) :
    entry.1.itemSize ≤ largestTensor entries := by
  unfold largestTensor
  generalize tensorEntries entries = tensors at h
  induction tensors with
  | nil => cases h
  | cons first rest ih =>
    rw [map_cons, foldr_cons]
    rcases mem_cons.mp h with rfl | hrest
    · exact Nat.le_max_left _ _
    · exact (ih hrest).trans (Nat.le_max_right _ _)

theorem getElem?_appendTo (buckets : Buckets Data) (i j : Nat) (entry : WriteItem × Data) :
    (appendTo buckets i entry)[j]? =
      if i = j then (buckets[j]?).map (· ++ [entry]) else buckets[j]? := by
  rw [appendTo, getElem?_modify]
  cases buckets[j]? <;> split <;> rfl

theorem binSize_append (bucket : List (WriteItem × Data)) (entry : WriteItem × Data) :
    binSize (bucket ++ [entry]) = binSize bucket + binSize [entry] := by
  simp only [binSize, tensorEntries, filter_append, map_append, sum_append]

theorem binSize_of_tensor (h : entry.1.isBytes = false) :
    binSize [entry] = entry.1.itemSize := by
  simp [binSize, tensorEntries, h]

theorem binSize_of_bytes (h : entry.1.isBytes = true) : binSize [entry] = 0 := by
  simp [binSize, tensorEntries, h]

/-! ## The heap -/

instance : Std.Total heapLE where
  total a b := by
    unfold heapLE
    omega

instance : IsTrans (Nat × Nat) heapLE where
  trans a b c hab hbc := by
    unfold heapLE at *
    omega

theorem fst_le_of_heapLE {a b : Nat × Nat} (h : heapLE a b) : a.1 ≤ b.1 :=
  h.elim Nat.le_of_lt fun heq => Nat.le_of_eq heq.1

/-- The heap has the tensor size of each bin, and they are at most `bound` apart. -/
structure Balanced (bound : Nat) (heap : List (Nat × Nat)) (buckets : Buckets Data) : Prop where
  sorted : heap.Pairwise heapLE
  spread : Spread Prod.fst bound heap
  indices : (heap.map Prod.snd).Perm (List.range buckets.length)
  total : ∀ e ∈ heap, (buckets[e.2]?).map binSize = some e.1

/-- One tensor goes to the bin at the top. -/
theorem Balanced.assignTensor (h : Balanced bound heap buckets)
    (htensor : entry.1.isBytes = false) (hsize : entry.1.itemSize ≤ bound) :
    Balanced bound (AsyncCkpt.assignTensor (heap, buckets) entry).1
      (AsyncCkpt.assignTensor (heap, buckets) entry).2 := by
  cases heap with
  | nil => exact h
  | cons e heap =>
    have hnodup : ((e :: heap).map Prod.snd).Nodup :=
      (h.indices.nodup_iff).mpr nodup_range
    refine ⟨h.sorted.of_cons.orderedInsert _ _, ?_, ?_, ?_⟩
    · refine h.spread.orderedInsert (fun a b => fst_le_of_heapLE) h.sorted ?_ ?_
      · exact Nat.le_add_right e.1 entry.1.itemSize
      · exact Nat.add_le_add_left hsize e.1
    · change (map Prod.snd (heap.orderedInsert heapLE _)).Perm _
      rw [AsyncCkpt.assignTensor, length_appendTo]
      exact ((perm_orderedInsert heapLE _ heap).map Prod.snd).trans h.indices
    · intro e' he'
      change ((appendTo buckets e.2 entry)[e'.2]?).map binSize = some e'.1
      rw [getElem?_appendTo]
      rcases (mem_orderedInsert heapLE).mp he' with rfl | hold
      · -- The bin that was at the top.
        obtain ⟨bucket, hbucket, hbin⟩ :=
          Option.map_eq_some_iff.mp (h.total e mem_cons_self)
        rw [if_pos rfl, hbucket, Option.map_some, Option.map_some, binSize_append, hbin,
          binSize_of_tensor htensor]
      · have hne : e.2 ≠ e'.2 := fun heq =>
          (nodup_cons.mp hnodup).1 (heq ▸ mem_map_of_mem hold)
        rw [if_neg hne]
        exact h.total e' (mem_cons_of_mem _ hold)

/-- The loop over the tensors. -/
theorem Balanced.assignTensors (h : Balanced bound heap buckets)
    (hentries : ∀ entry ∈ entries, entry.1.isBytes = false ∧ entry.1.itemSize ≤ bound) :
    Balanced bound (entries.foldl AsyncCkpt.assignTensor (heap, buckets)).1
      (entries.foldl AsyncCkpt.assignTensor (heap, buckets)).2 := by
  induction entries generalizing heap buckets with
  | nil => exact h
  | cons entry entries ih =>
    obtain ⟨htensor, hsize⟩ := hentries entry mem_cons_self
    exact ih (h.assignTensor htensor hsize) fun entry hmem =>
      hentries entry (mem_cons_of_mem _ hmem)

/-- Every bin has its pair in the heap. -/
theorem Balanced.binSize_le (h : Balanced bound heap buckets)
    {bin bin' : List (WriteItem × Data)} (hbin : bin ∈ buckets) (hbin' : bin' ∈ buckets) :
    binSize bin ≤ binSize bin' + bound := by
  have hpair : ∀ bucket ∈ buckets, ∃ e ∈ heap, e.1 = binSize bucket := by
    intro bucket hbucket
    obtain ⟨i, hi, rfl⟩ := mem_iff_getElem.mp hbucket
    obtain ⟨e, he, rfl⟩ := mem_map.mp
      (h.indices.mem_iff.mpr (mem_range.mpr hi))
    have htotal := h.total e he
    rw [getElem?_eq_getElem hi, Option.map_some] at htotal
    exact ⟨e, he, (Option.some.inj htotal).symm⟩
  obtain ⟨e, he, heq⟩ := hpair bin hbin
  obtain ⟨e', he', heq'⟩ := hpair bin' hbin'
  rw [← heq, ← heq']
  exact h.spread e he e' he'

/-! ## The bins -/

theorem length_assignTensors :
    (entries.foldl assignTensor (heap, buckets)).2.length = buckets.length := by
  induction entries generalizing heap buckets with
  | nil => rfl
  | cons entry entries ih =>
    cases heap with
    | nil => exact ih
    | cons e heap => exact ih.trans (length_appendTo buckets e.2 entry)

theorem length_splitBySizeAndType {bins : Nat} (hbins : 0 < bins)
    (entries : List (WriteItem × Data)) : (splitBySizeAndType bins entries).length = bins := by
  unfold splitBySizeAndType
  split
  · next heq => exact heq.symm
  · exact length_assignTensors.trans
      (flatten_roundRobin_perm hbins _ length_replicate).1

/-- Before the tensors, every bin has only byte items. -/
theorem binSize_of_roundRobin (bins : Nat) (entries : List ((WriteItem × Data) × Nat))
    (buckets : Buckets Data) (hentries : ∀ e ∈ entries, e.1.1.isBytes = true)
    (hempty : ∀ bucket ∈ buckets, binSize bucket = 0) :
    ∀ bucket ∈ entries.foldl (fun buckets e => appendTo buckets (e.2 % bins) e.1) buckets,
      binSize bucket = 0 := by
  induction entries generalizing buckets with
  | nil => exact hempty
  | cons e entries ih =>
    refine ih _ (fun e he => hentries e (mem_cons_of_mem _ he)) fun bucket hbucket => ?_
    obtain ⟨i, hi, rfl⟩ := mem_iff_getElem.mp hbucket
    have hold : i < buckets.length := length_appendTo buckets (e.2 % bins) e.1 ▸ hi
    have hzero := hempty buckets[i] (getElem_mem hold)
    simp only [appendTo, getElem_modify]
    split
    · rw [binSize_append, hzero, binSize_of_bytes (hentries e mem_cons_self)]
    · exact hzero

/-- The total tensor sizes of two bins differ by at most the size of the largest tensor. -/
theorem binSize_splitBySizeAndType_le {bins : Nat} (hbins : 1 < bins)
    (entries : List (WriteItem × Data)) {bin bin' : List (WriteItem × Data)}
    (hbin : bin ∈ splitBySizeAndType bins entries)
    (hbin' : bin' ∈ splitBySizeAndType bins entries) :
    binSize bin ≤ binSize bin' + largestTensor entries := by
  unfold splitBySizeAndType at hbin hbin'
  rw [if_neg (Nat.ne_of_gt hbins)] at hbin hbin'
  refine Balanced.binSize_le (Balanced.assignTensors ?_ ?_) hbin hbin'
  · have hlength := (flatten_roundRobin_perm (Nat.lt_of_succ_lt hbins)
      (entries.filter fun e => e.1.isBytes).zipIdx
      (length_replicate : (replicate bins ([] : List (WriteItem × Data))).length = bins)).1
    have hzero := binSize_of_roundRobin bins (entries.filter fun e => e.1.isBytes).zipIdx
      (replicate bins []) ?_ ?_
    · refine ⟨?_, Spread.of_eq 0 ?_, ?_, ?_⟩
      · refine pairwise_map.mpr (pairwise_lt_range.imp fun hlt => ?_)
        exact .inr ⟨rfl, Nat.le_of_lt hlt⟩
      · intro e he
        obtain ⟨i, _, rfl⟩ := mem_map.mp he
        rfl
      · rw [hlength, map_map]
        exact .of_eq (map_id _)
      · intro e he
        obtain ⟨i, hi, rfl⟩ := mem_map.mp he
        have hi' := hlength.symm ▸ mem_range.mp hi
        rw [getElem?_eq_getElem hi', Option.map_some, hzero _ (getElem_mem hi')]
    · intro e he
      exact (mem_filter.mp (fst_mem_of_mem_zipIdx he)).2
    · intro bucket hbucket
      rw [eq_of_mem_replicate hbucket]
      rfl
  · intro entry hentry
    have hmem : entry ∈ tensorEntries entries := (mem_insertionSort largerFirst).mp hentry
    exact ⟨Bool.not_eq_true' _ ▸ (mem_filter.mp hmem).2, itemSize_le_largestTensor hmem⟩

end ResiliencyExt.Checkpointing.AsyncCkpt
