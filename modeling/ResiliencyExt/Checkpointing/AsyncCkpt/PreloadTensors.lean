import Mathlib.Data.List.Perm.Basic
import ResiliencyExt.Checkpointing.AsyncCkpt.BucketBalance
import ResiliencyExt.Checkpointing.AsyncCkpt.TensorCaches
import ResiliencyExt.Foundation.Text

set_option autoImplicit false

/-!
# The files of a save

`preload_tensors` has the items of a save in up to three lists, each with the list of their
data.  It splits the items into buckets, finds the data of an item by the identity of the
object, and gives each bucket that is not empty the name of a file.  Of the GPU tensors the
buckets get the copy in host memory.
-/

namespace ResiliencyExt.Checkpointing.AsyncCkpt

open Foundation List

variable {Data : Type}

/-- A `WriteItem` object: the item and its `id`. -/
abbrev PlanItem : Type :=
  WriteItem × Nat

/-- A list of items and the list of their data. -/
structure ResolvedData (Data : Type) where
  items : List PlanItem
  data : List Data
  length_eq : items.length = data.length

namespace ResolvedData

def pairs (resolved : ResolvedData Data) : List (PlanItem × Data) :=
  resolved.items.zip resolved.data

end ResolvedData

/-- The pairs of the lists that are not `None`. -/
def pairsOf (lists : List (Option (ResolvedData Data))) : List (PlanItem × Data) :=
  lists.reduceOption.flatMap ResolvedData.pairs

/-- `resolved_plan_data`.  The cached tensors are those the worker uses, sent with the call or
kept from an earlier one. -/
structure ResolvedPlan (Data : Type) where
  checkpointDir : List Char
  separationHint : Option String
  cachedTensorData : Option (ResolvedData Data)
  uncachedTensorData : Option (ResolvedData Data)
  byteIoData : Option (ResolvedData Data)
  threadCount : Nat
  /-- `storage_plan.prefix` -/
  storagePrefix : List Char
  /-- One identity is one object, and an object has one data. -/
  own : ∀ a ∈ pairsOf [cachedTensorData, uncachedTensorData, byteIoData],
    ∀ b ∈ pairsOf [cachedTensorData, uncachedTensorData, byteIoData], a.1.2 = b.1.2 → a = b

/-- An element of `write_buckets`. -/
structure FileBucket (Data : Type) where
  path : List Char
  fileName : List Char
  bytesData : List (PlanItem × Data)
  tensorData : List (PlanItem × Data)

/-- The bytes of the file, then its tensors. -/
def FileBucket.entries (bucket : FileBucket Data) : List (PlanItem × Data) :=
  bucket.bytesData ++ bucket.tensorData

/-- `bucket` with its tensors in host memory. -/
def hosted (toHost : Data → Data) (bucket : FileBucket Data) : FileBucket Data :=
  { bucket with tensorData := bucket.tensorData.map fun e => (e.1, toHost e.2) }

/-- `os.path.join(path, name)` -/
def joinPath (path name : List Char) : List Char :=
  if name.head? = some '/' then name
  else if path = [] ∨ path.getLast? = some '/' then path ++ name
  else path ++ '/' :: name

namespace ResolvedPlan

variable (plan : ResolvedPlan Data)

def lists : List (Option (ResolvedData Data)) :=
  [plan.cachedTensorData, plan.uncachedTensorData, plan.byteIoData]

/-- Every item with its own data. -/
def pairs : List (PlanItem × Data) :=
  pairsOf plan.lists

/-- `combine_data` -/
def combineData : List PlanItem × List Data :=
  plan.lists.foldl (fun combined data =>
    match data with
    | none => combined
    | some data => (combined.1 ++ data.items, combined.2 ++ data.data)) ([], [])

def bins : Nat :=
  binsOf plan.separationHint plan.threadCount

/-- `item_to_data` -/
def itemToData : Dict Nat Data :=
  (plan.combineData.1.zip plan.combineData.2).foldl (fun d e => d.set e.1.2 e.2) Dict.empty

/-- `gen_file` -/
def genFile (groupName : String) (fileCount : Nat) : List Char :=
  groupName.toList ++ plan.storagePrefix ++ Text.decimal fileCount ++ ".distcp".toList

/-- `(item, item_to_data[id(item)])` -/
def withData (item : PlanItem) : Option (PlanItem × Data) :=
  (plan.itemToData.get? item.2).map fun data => (item, data)

/-- The loop over the buckets of all groups. -/
def buildBuckets : List (String × List PlanItem) → Nat → Option (List (FileBucket Data))
  | [], _ => some []
  | (groupName, bucket) :: rest, fileCount => do
    let bytesData ← (bucket.filter fun e => e.1.isBytes).mapM plan.withData
    let tensorData ← (bucket.filter fun e => !e.1.isBytes).mapM plan.withData
    if 0 < bytesData.length ∨ 0 < tensorData.length then
      let fileName := plan.genFile groupName fileCount
      let buckets ← buildBuckets rest (fileCount + 1)
      some (⟨joinPath plan.checkpointDir fileName, fileName, bytesData, tensorData⟩ :: buckets)
    else
      buildBuckets rest fileCount

/-- The buckets in the order of the loop, with the names of their groups. -/
def namedBuckets (buckets : Buckets Nat) : List (String × List PlanItem) :=
  (splitBySeparationHint buckets plan.separationHint).entries.flatMap fun group =>
    group.2.map fun bucket => (group.1, bucket)

/-- `preload_tensors`.  `toHost` is the move of a tensor to the CPU, for a GPU tensor
`tensor.to("cpu")`. -/
def preloadTensors (toHost : Data → Data) : Option (List (FileBucket Data)) :=
  (plan.buildBuckets (plan.namedBuckets (splitBySizeAndType plan.bins plan.combineData.1)) 0).map
    (map (hosted toHost))

end ResolvedPlan

/-! ## Every item has its own data -/

namespace ResolvedData

theorem map_fst_pairs (resolved : ResolvedData Data) :
    resolved.pairs.map Prod.fst = resolved.items :=
  map_fst_zip (Nat.le_of_eq resolved.length_eq)

theorem map_snd_pairs (resolved : ResolvedData Data) :
    resolved.pairs.map Prod.snd = resolved.data :=
  map_snd_zip (Nat.le_of_eq resolved.length_eq.symm)

end ResolvedData

namespace ResolvedPlan

variable (plan : ResolvedPlan Data)

theorem foldl_combineData (lists : List (Option (ResolvedData Data)))
    (combined : List PlanItem × List Data) :
    lists.foldl (fun combined data =>
      match data with
      | none => combined
      | some data => (combined.1 ++ data.items, combined.2 ++ data.data)) combined =
    (combined.1 ++ (pairsOf lists).map Prod.fst, combined.2 ++ (pairsOf lists).map Prod.snd) := by
  induction lists generalizing combined with
  | nil =>
    have hnil : pairsOf ([] : List (Option (ResolvedData Data))) = [] := rfl
    simp [hnil]
  | cons data lists ih =>
    rw [foldl_cons, ih]
    cases data with
    | none => rfl
    | some data =>
      have hpairs : pairsOf (some data :: lists) = data.pairs ++ pairsOf lists := rfl
      rw [hpairs, map_append, map_append, data.map_fst_pairs, data.map_snd_pairs,
        append_assoc, append_assoc]

theorem combineData_eq :
    plan.combineData = (plan.pairs.map Prod.fst, plan.pairs.map Prod.snd) :=
  foldl_combineData plan.lists ([], [])

theorem get?_itemToData {e : PlanItem × Data} (h : e ∈ plan.pairs) :
    plan.itemToData.get? e.1.2 = some e.2 := by
  unfold itemToData
  rw [combineData_eq, zip_map', map_id'' fun _ => rfl]
  refine Dict.get?_foldl_set (fun e : PlanItem × Data => e.1.2) Prod.snd ?_ (.inl ⟨e, h, rfl⟩)
  intro e' he' heq
  exact congrArg Prod.snd (plan.own e' he' e h heq)

theorem withData_of_mem {e : PlanItem × Data} (h : e ∈ plan.pairs) :
    plan.withData e.1 = some e := by
  rw [withData, plan.get?_itemToData h]
  rfl

/-- The items of the plan with what `item_to_data` has for them. -/
theorem filterMap_withData : (plan.pairs.map Prod.fst).filterMap plan.withData = plan.pairs := by
  rw [filterMap_map]
  refine (filterMap_congr fun e he => ?_).trans filterMap_some
  exact plan.withData_of_mem he

/-! ## The files -/

/-- What the loop makes of a bucket. -/
def fileBucket (groupName : String) (bucket : List PlanItem) (fileCount : Nat) :
    FileBucket Data where
  path := joinPath plan.checkpointDir (plan.genFile groupName fileCount)
  fileName := plan.genFile groupName fileCount
  bytesData := (bucket.filter fun e => e.1.isBytes).filterMap plan.withData
  tensorData := (bucket.filter fun e => !e.1.isBytes).filterMap plan.withData

/-- The items are in the plan. -/
def Known (bucket : List PlanItem) : Prop :=
  ∀ item ∈ bucket, item ∈ plan.pairs.map Prod.fst

variable {plan}

variable {bucket : List PlanItem} {groupName : String} {e : PlanItem × Data}

variable {item : PlanItem} {separationHint : String} {buckets : Buckets Nat}
    (groups : List (String × List PlanItem)) (fileCount : Nat) (toHost : Data → Data)

theorem Known.filter (h : plan.Known bucket) (p : PlanItem → Bool) :
    plan.Known (bucket.filter p) := fun item hmem =>
  h item (mem_filter.mp hmem).1

theorem Known.exists_withData (h : plan.Known bucket) (hmem : item ∈ bucket) :
    ∃ data, plan.withData item = some (item, data) := by
  obtain ⟨e, he, rfl⟩ := mem_map.mp (h item hmem)
  exact ⟨e.2, plan.withData_of_mem he⟩

/-- No item of the plan misses its data. -/
theorem Known.mapM_withData (h : plan.Known bucket) :
    bucket.mapM plan.withData = some (bucket.filterMap plan.withData) := by
  induction bucket with
  | nil => rfl
  | cons item bucket ih =>
    obtain ⟨data, hdata⟩ := h.exists_withData mem_cons_self
    rw [mapM_cons, hdata, ih fun item hmem => h item (mem_cons_of_mem _ hmem),
      filterMap_cons_some hdata]
    rfl

theorem Known.map_fst (h : plan.Known bucket) :
    (bucket.filterMap plan.withData).map Prod.fst = bucket := by
  induction bucket with
  | nil => rfl
  | cons item bucket ih =>
    obtain ⟨data, hdata⟩ := h.exists_withData mem_cons_self
    rw [filterMap_cons_some hdata, map_cons,
      ih fun item hmem => h item (mem_cons_of_mem _ hmem)]

theorem Known.length_filterMap (h : plan.Known bucket) :
    (bucket.filterMap plan.withData).length = bucket.length := by
  rw [← length_map Prod.fst, h.map_fst]

/-- The loop names the buckets that are not empty, one after another. -/
theorem buildBuckets_eq (h : ∀ group ∈ groups, plan.Known group.2) :
    plan.buildBuckets groups fileCount =
      some (((groups.filter fun group => !group.2.isEmpty).zipIdx fileCount).map fun e =>
        plan.fileBucket e.1.1 e.1.2 e.2) := by
  induction groups generalizing fileCount with
  | nil => rfl
  | cons group groups ih =>
    have hknown : plan.Known group.2 := h group mem_cons_self
    have hrest := fun count => ih count fun group hmem => h group (mem_cons_of_mem _ hmem)
    have hcond : (0 < (group.2.filter fun e => e.1.isBytes).length ∨
        0 < (group.2.filter fun e => !e.1.isBytes).length) ↔ (!group.2.isEmpty) = true := by
      have hlength := (filter_append_perm (fun e : PlanItem => e.1.isBytes) group.2).length_eq
      rw [length_append] at hlength
      rw [Bool.not_eq_true', isEmpty_eq_false_iff, ← length_pos_iff, ← hlength]
      exact Nat.add_pos_iff_pos_or_pos.symm
    rw [buildBuckets, (hknown.filter _).mapM_withData, (hknown.filter _).mapM_withData]
    simp only [Option.bind_eq_bind, Option.bind_some, (hknown.filter _).length_filterMap, hcond,
      hrest]
    rw [filter_cons]
    split <;> rfl

/-! ## The names of the files -/

theorem genFile_ne {groupName' : String} {i j : Nat} (hlt : i < j)
    (hgroup : groupName = groupName' ∨ groupName = "") :
    plan.genFile groupName i ≠ plan.genFile groupName' j := by
  intro heq
  have heq' := append_cancel_right heq
  have hlength : groupName.toList.length + (Text.decimal i).length =
      groupName'.toList.length + (Text.decimal j).length := by
    have := congrArg List.length heq'
    simp only [length_append] at this
    omega
  have hmono := Text.length_decimal_mono (Nat.le_of_lt hlt)
  have hsame : groupName.toList = groupName'.toList := by
    rcases hgroup with rfl | rfl
    · rfl
    · -- The number that comes later is no shorter, so no hint stands before it.
      have hzero : groupName'.toList.length = 0 := by
        have hempty : "".toList.length = 0 := rfl
        omega
      rw [eq_nil_of_length_eq_zero hzero]
      rfl
  rw [hsame, append_assoc, append_assoc] at heq'
  exact Nat.ne_of_lt hlt
    (Text.decimal_injective (append_cancel_left (append_cancel_left heq')))

/-- The groups are the default one, then that of the hint. -/
def InOrder (groups : List (String × List PlanItem)) : Prop :=
  groups.Pairwise fun a b => a.1 = b.1 ∨ a.1 = ""

theorem nodup_fileNames {groups : List (String × List PlanItem)} (h : InOrder groups)
    (fileCount : Nat) :
    (((groups.zipIdx fileCount).map fun e => plan.fileBucket e.1.1 e.1.2 e.2).map
      FileBucket.fileName).Nodup := by
  rw [map_map]
  induction groups generalizing fileCount with
  | nil => exact nodup_nil
  | cons group groups ih =>
    rw [zipIdx_cons, map_cons]
    refine nodup_cons.mpr ⟨?_, ih h.of_cons (fileCount + 1)⟩
    intro hmem
    obtain ⟨e, he, heq⟩ := mem_map.mp hmem
    have hle := le_snd_of_mem_zipIdx he
    exact genFile_ne hle (rel_of_pairwise_cons h (fst_mem_of_mem_zipIdx he)) heq.symm

/-! ## The groups -/

theorem namedBuckets_of_default (h : plan.separationHint = none ∨ plan.separationHint = some "")
    (buckets : Buckets Nat) :
    plan.namedBuckets buckets = buckets.map fun bucket => ("", bucket) := by
  have hentries : (splitBySeparationHint buckets plan.separationHint).entries =
      [("", buckets)] := by
    rcases h with h | h <;> rw [h]
    · rfl
    · change (Dict.alter (Dict.set _ _ _) _ _ _).entries = _
      have hall : @startsWith Nat "" = fun _ => true := rfl
      rw [Dict.entries_alter_of_mem _ _ (Dict.mem_keys_set.mpr (.inl rfl)), hall]
      change [("", buckets.map (List.filter fun _ => true))] = _
      have hid : List.filter (fun _ : PlanItem => true) = id :=
        funext fun bucket => filter_true bucket
      rw [hid, map_id]
  rw [namedBuckets, hentries, flatMap_singleton]

theorem namedBuckets_of_hint (h : plan.separationHint = some separationHint)
    (hne : separationHint ≠ "") (buckets : Buckets Nat) :
    plan.namedBuckets buckets =
      (buckets.map fun bucket => ("", bucket.filter fun e => !startsWith separationHint e)) ++
        buckets.map fun bucket => (separationHint, bucket.filter (startsWith separationHint)) := by
  have hnew : separationHint ∉ (Dict.empty.set ""
      (buckets.map (List.filter fun e => !startsWith separationHint e))).keys := by
    intro hmem
    exact (Dict.mem_keys_set.mp hmem).elim hne nofun
  have hentries : (splitBySeparationHint buckets (some separationHint)).entries =
      [("", buckets.map (List.filter fun e => !startsWith separationHint e)),
        (separationHint, buckets.map (List.filter (startsWith separationHint)))] := by
    change (Dict.alter (Dict.set _ _ _) _ _ _).entries = _
    rw [Dict.entries_alter_of_not_mem _ _ hnew]
    rfl
  rw [namedBuckets, h, hentries, flatMap_cons, flatMap_singleton, map_map,
    map_map]
  rfl

theorem default_or_hint (plan : ResolvedPlan Data) :
    (plan.separationHint = none ∨ plan.separationHint = some "") ∨
      ∃ separationHint, plan.separationHint = some separationHint ∧ separationHint ≠ "" := by
  cases plan.separationHint with
  | none => exact .inl (.inl rfl)
  | some separationHint =>
    by_cases hempty : separationHint = ""
    · exact .inl (.inr (congrArg some hempty))
    · exact .inr ⟨separationHint, rfl, hempty⟩

/-- A bucket of the loop is of one kind. -/
theorem unmixed_namedBuckets (hhint : plan.separationHint = some separationHint)
    {group : String × List PlanItem} (hmem : group ∈ plan.namedBuckets buckets) :
    (∀ item ∈ group.2, startsWith separationHint item = true) ∨
      ∀ item ∈ group.2, startsWith separationHint item = false := by
  by_cases hempty : separationHint = ""
  · subst hempty
    exact .inl fun _ _ => rfl
  · rw [namedBuckets_of_hint hhint hempty] at hmem
    rcases mem_append.mp hmem with hmem | hmem
    · obtain ⟨bucket, _, rfl⟩ := mem_map.mp hmem
      exact .inr fun item hitem => Bool.not_eq_true' _ ▸ (mem_filter.mp hitem).2
    · obtain ⟨bucket, _, rfl⟩ := mem_map.mp hmem
      exact .inl fun item hitem => (mem_filter.mp hitem).2

theorem inOrder_namedBuckets (buckets : Buckets Nat) : InOrder (plan.namedBuckets buckets) := by
  rcases default_or_hint plan with h | ⟨separationHint, h, hne⟩
  · rw [namedBuckets_of_default h]
    exact pairwise_map.mpr (pairwise_of_forall fun _ _ => .inl rfl)
  · rw [namedBuckets_of_hint h hne]
    refine pairwise_append.mpr ⟨?_, ?_, fun a ha b _ => .inr ?_⟩
    · exact pairwise_map.mpr (pairwise_of_forall fun _ _ => .inl rfl)
    · exact pairwise_map.mpr (pairwise_of_forall fun _ _ => .inl rfl)
    · obtain ⟨bucket, _, rfl⟩ := mem_map.mp ha
      rfl

/-- There are no more buckets than threads. -/
theorem length_namedBuckets_le (hlength : buckets.length = plan.bins) :
    (plan.namedBuckets buckets).length ≤ plan.threadCount := by
  have hbins : plan.bins ≤ plan.threadCount := by
    unfold bins binsOf
    split
    · exact Nat.div_le_self _ _
    · exact Nat.le_refl _
  rcases default_or_hint plan with h | ⟨separationHint, h, hne⟩
  · rwa [namedBuckets_of_default h, length_map, hlength]
  · rw [namedBuckets_of_hint h hne, length_append, length_map, length_map, hlength,
      bins, h]
    change plan.threadCount / 2 + plan.threadCount / 2 ≤ plan.threadCount
    omega

theorem flatMap_namedBuckets_perm (buckets : Buckets Nat) :
    ((plan.namedBuckets buckets).flatMap Prod.snd).Perm buckets.flatten := by
  refine .trans (.of_eq ?_) (flatten_splitBySeparationHint_perm buckets plan.separationHint)
  rw [namedBuckets, flatMap_assoc]
  refine congrArg (flatMap · _) (funext fun group => ?_)
  rw [flatMap_map]
  exact flatMap_id'

/-! ## The save -/

theorem withData_fst (h : plan.withData item = some e) : e.1 = item := by
  obtain ⟨data, _, rfl⟩ := Option.map_eq_some_iff.mp h
  rfl

/-- What is written of an item: its bytes, or its tensor in host memory. -/
def written (toHost : Data → Data) (e : PlanItem × Data) : PlanItem × Data :=
  if e.1.1.isBytes then e else (e.1, toHost e.2)

/-- The buckets save the plan. -/
structure SavedIn (plan : ResolvedPlan Data) (toHost : Data → Data)
    (buckets : List (FileBucket Data)) : Prop where
  /-- Every item is there once, with its own data. -/
  own : (buckets.flatMap FileBucket.entries).Perm (plan.pairs.map (written toHost))
  apart : ∀ bucket ∈ buckets, (∀ e ∈ bucket.bytesData, e.1.1.isBytes = true) ∧
    ∀ e ∈ bucket.tensorData, e.1.1.isBytes = false
  distinct : (buckets.map FileBucket.fileName).Nodup
  length_le : buckets.length ≤ plan.threadCount
  not_empty : ∀ bucket ∈ buckets, bucket.entries ≠ []
  /-- The items of a bucket all have the hint, or none has it. -/
  unmixed : ∀ separationHint, plan.separationHint = some separationHint → ∀ bucket ∈ buckets,
    (∀ e ∈ bucket.entries, startsWith separationHint e.1 = true) ∨
      ∀ e ∈ bucket.entries, startsWith separationHint e.1 = false

theorem mem_bytesData {fileCount : Nat}
    (h : e ∈ (plan.fileBucket groupName bucket fileCount).bytesData) :
    e.1 ∈ bucket ∧ e.1.1.isBytes = true := by
  obtain ⟨item, hitem, hdata⟩ := mem_filterMap.mp h
  rw [withData_fst hdata]
  exact mem_filter.mp hitem

theorem mem_tensorData {fileCount : Nat}
    (h : e ∈ (plan.fileBucket groupName bucket fileCount).tensorData) :
    e.1 ∈ bucket ∧ e.1.1.isBytes = false := by
  obtain ⟨item, hitem, hdata⟩ := mem_filterMap.mp h
  rw [withData_fst hdata]
  exact (mem_filter.mp hitem).imp id fun htensor => Bool.not_eq_true' _ ▸ htensor

theorem entries_hosted (groupName : String) (bucket : List PlanItem) (fileCount : Nat) :
    (hosted toHost (plan.fileBucket groupName bucket fileCount)).entries =
      (plan.fileBucket groupName bucket fileCount).entries.map (written toHost) := by
  unfold FileBucket.entries
  rw [map_append]
  have hbytes : ∀ e ∈ (plan.fileBucket groupName bucket fileCount).bytesData,
      written toHost e = e := fun e he => if_pos (mem_bytesData he).2
  have htensors : ∀ e ∈ (plan.fileBucket groupName bucket fileCount).tensorData,
      written toHost e = (e.1, toHost e.2) := fun e he =>
    if_neg (Bool.eq_false_iff.mp (mem_tensorData he).2)
  rw [map_congr_left hbytes, map_congr_left htensors, map_id'']
  · rfl
  · exact fun _ => rfl

theorem entries_fileBucket_perm (groupName : String) (bucket : List PlanItem) (fileCount : Nat) :
    (plan.fileBucket groupName bucket fileCount).entries.Perm
      (bucket.filterMap plan.withData) := by
  unfold FileBucket.entries fileBucket
  rw [← filterMap_append]
  exact (filter_append_perm _ bucket).filterMap _

theorem mem_entries_hosted {toHost : Data → Data} {fileCount : Nat}
    (h : e ∈ (hosted toHost (plan.fileBucket groupName bucket fileCount)).entries) :
    e.1 ∈ bucket := by
  rw [entries_hosted] at h
  obtain ⟨e, he, rfl⟩ := mem_map.mp h
  have hfst : (written toHost e).1 = e.1 := by
    unfold written
    split <;> rfl
  rw [hfst]
  exact (mem_append.mp he).elim (fun h => (mem_bytesData h).1) fun h => (mem_tensorData h).1

/-- The files of a list of groups, from the number `0` on. -/
def filesOf (plan : ResolvedPlan Data) (toHost : Data → Data)
    (groups : List (String × List PlanItem)) : List (FileBucket Data) :=
  (groups.zipIdx.map fun e => plan.fileBucket e.1.1 e.1.2 e.2).map (hosted toHost)

theorem exists_of_mem_filesOf {toHost : Data → Data} {groups : List (String × List PlanItem)}
    {bucket : FileBucket Data} (h : bucket ∈ plan.filesOf toHost groups) :
    ∃ group ∈ groups, ∃ fileCount,
      bucket = hosted toHost (plan.fileBucket group.1 group.2 fileCount) := by
  obtain ⟨_, hmem, rfl⟩ := mem_map.mp h
  obtain ⟨e, he, rfl⟩ := mem_map.mp hmem
  exact ⟨e.1, fst_mem_of_mem_zipIdx he, e.2, rfl⟩

theorem entries_filesOf_perm (groups : List (String × List PlanItem)) :
    ((plan.filesOf toHost groups).flatMap FileBucket.entries).Perm
      (((groups.flatMap Prod.snd).filterMap plan.withData).map (written toHost)) := by
  unfold filesOf
  rw [flatMap_map, flatMap_map, filterMap_flatMap, map_flatMap]
  simp only [entries_hosted]
  have hgroups : groups.zipIdx.map Prod.fst = groups := zipIdx_map_fst 0 groups
  conv => rhs; rw [← hgroups, flatMap_map]
  exact List.Perm.flatMap_left _ fun e _ => (entries_fileBucket_perm _ _ _).map _

/-- The buckets that `preload_tensors` builds save every item once and with its own data, in
files with different names, and the bins that they come from are balanced. -/
theorem preloadTensors_partition (toHost : Data → Data) (plan : ResolvedPlan Data)
    (hthreads : 1 ≤ plan.threadCount)
    (hhint : plan.separationHint.isSome = true → 2 ≤ plan.threadCount) :
    (∃ buckets, plan.preloadTensors toHost = some buckets ∧ plan.SavedIn toHost buckets) ∧
      (1 < plan.bins → ∀ bin ∈ splitBySizeAndType plan.bins plan.combineData.1,
        ∀ bin' ∈ splitBySizeAndType plan.bins plan.combineData.1,
          binSize bin ≤ binSize bin' + largestTensor plan.combineData.1) := by
  have hbins : 0 < plan.bins := by
    unfold bins binsOf
    split
    · next hsome => exact Nat.div_pos (hhint hsome) Nat.two_pos
    · exact hthreads
  refine ⟨?_, fun hmany bin hbin bin' hbin' => binSize_splitBySizeAndType_le hmany _ hbin hbin'⟩
  let groups := plan.namedBuckets (splitBySizeAndType plan.bins plan.combineData.1)
  let kept := groups.filter fun group => !group.2.isEmpty
  have hperm : (groups.flatMap Prod.snd).Perm (plan.pairs.map Prod.fst) := by
    refine (flatMap_namedBuckets_perm _).trans ((flatten_splitBySizeAndType_perm hbins _).trans ?_)
    rw [combineData_eq]
  have hknown : ∀ group ∈ groups, plan.Known group.2 := fun group hmem item hitem =>
    hperm.mem_iff.mp (mem_flatMap.mpr ⟨group, hmem, hitem⟩)
  have hkept : ∀ group ∈ kept, group ∈ groups ∧ group.2 ≠ [] := fun group hmem =>
    (mem_filter.mp hmem).imp id fun h => isEmpty_eq_false_iff.mp (Bool.not_eq_true' _ ▸ h)
  refine ⟨plan.filesOf toHost kept, ?_, ?_⟩
  · rw [preloadTensors, buildBuckets_eq groups 0 hknown]
    rfl
  · refine ⟨?_, ?_, ?_, ?_, ?_, ?_⟩
    · have hsame : kept.flatMap Prod.snd = groups.flatMap Prod.snd := by
        refine flatMap_filter_eq fun group _ hempty => ?_
        exact List.isEmpty_iff.mp (Bool.not_eq_false' _ ▸ hempty)
      refine (entries_filesOf_perm toHost kept).trans (.map _ ?_)
      rw [hsame, ← plan.filterMap_withData]
      exact hperm.filterMap _
    · intro bucket hmem
      obtain ⟨group, _, fileCount, rfl⟩ := exists_of_mem_filesOf hmem
      refine ⟨fun e he => ?_, fun e he => ?_⟩
      · have hbytes : e ∈ (plan.fileBucket group.1 group.2 fileCount).bytesData := he
        exact (mem_bytesData hbytes).2
      · obtain ⟨e', he', rfl⟩ := mem_map.mp he
        exact (mem_tensorData he').2
    · have horder : InOrder kept := (inOrder_namedBuckets _).sublist filter_sublist
      rw [filesOf, map_map]
      exact nodup_fileNames horder 0
    · rw [filesOf, length_map, length_map, length_zipIdx]
      exact (length_filter_le _ _).trans
        (length_namedBuckets_le (length_splitBySizeAndType hbins _))
    · intro bucket hmem hnil
      obtain ⟨group, hgroup, fileCount, rfl⟩ := exists_of_mem_filesOf hmem
      rw [entries_hosted, map_eq_nil_iff] at hnil
      have hlength := (@entries_fileBucket_perm _ plan group.1 group.2 fileCount).length_eq
      rw [hnil, (hknown group (hkept group hgroup).1).length_filterMap] at hlength
      exact (hkept group hgroup).2 (eq_nil_of_length_eq_zero hlength.symm)
    · intro separationHint hsome bucket hmem
      obtain ⟨group, hgroup, fileCount, rfl⟩ := exists_of_mem_filesOf hmem
      refine (unmixed_namedBuckets hsome (hkept group hgroup).1).imp ?_ ?_
      · exact fun h e he => h e.1 (mem_entries_hosted he)
      · exact fun h e he => h e.1 (mem_entries_hosted he)

end ResolvedPlan

/-- A tensor of `size` bytes. -/
def byteTensor (fqn : String) (size : Nat) : WriteItem where
  fqn := fqn
  type := .tensor
  tensorData := some ⟨⟨[0], [size]⟩, ⟨"uint8", 1⟩⟩
  tensorData_eq_none_iff := by simp

/-- A save with the four threads of a writer, two of them for the optimizer. -/
def separatedPlan : ResolvedPlan Nat where
  checkpointDir := "/ckpt".toList
  separationHint := some "optimizer"
  cachedTensorData := some ⟨[(byteTensor "weight" 6, 0), (byteTensor "optimizer.step" 4, 1)],
    [10, 11], rfl⟩
  uncachedTensorData := some ⟨[(byteTensor "bias" 3, 2)], [12], rfl⟩
  byteIoData := some ⟨[(⟨"args", .byteIo, none, by decide⟩, 3)], [13], rfl⟩
  threadCount := 4
  storagePrefix := "__0_".toList
  own := by decide

/-- The four items are in three files, the third one that of the hint. -/
theorem preloadTensors_partition_separated :
    (separatedPlan.preloadTensors (· + 100)).map
      (map fun bucket => (String.ofList bucket.fileName, bucket.entries.map Prod.snd)) =
        some [("__0_0.distcp", [13, 110]), ("__0_1.distcp", [112]),
          ("optimizer__0_2.distcp", [111])] ∧
      ((∃ buckets, separatedPlan.preloadTensors (· + 100) = some buckets ∧
        separatedPlan.SavedIn (· + 100) buckets) ∧
      (1 < separatedPlan.bins →
        ∀ bin ∈ splitBySizeAndType separatedPlan.bins separatedPlan.combineData.1,
        ∀ bin' ∈ splitBySizeAndType separatedPlan.bins separatedPlan.combineData.1,
          binSize bin ≤ binSize bin' + largestTensor separatedPlan.combineData.1)) :=
  ⟨by decide, ResolvedPlan.preloadTensors_partition (· + 100) separatedPlan (by decide)
    (by decide)⟩

end ResiliencyExt.Checkpointing.AsyncCkpt
