import ResiliencyExt.Checkpointing.AsyncCkpt.PreloadTensors
import ResiliencyExt.Foundation.Fallible

set_option autoImplicit false

/-!
# The write of a bucket

`_write_bucket_to_storage` writes the items of a bucket to one file.  The storage, with
`_write_item` of PyTorch, is a parameter: any of its operations may raise.
-/

namespace ResiliencyExt.Checkpointing.AsyncCkpt

open Foundation

variable {Data Stream WriteResult Exc : Type}

/-- Operations on an open file, which raise or not. -/
abbrev Writing (Stream Exc : Type) : Type → Type :=
  ExceptT Exc (StateM Stream)

/-- The storage while a bucket is written. -/
structure Storage (Data Stream WriteResult Exc : Type) where
  /-- `open_file(file_name, "wb")` -/
  openFile : List Char → Except Exc Stream
  /-- `_write_item` with the transforms -/
  writeItem : Data → PlanItem → List Char → Writing Stream Exc WriteResult
  /-- `tensor.is_cpu` -/
  isCpu : Data → Bool
  assertionError : Exc
  fsync : Writing Stream Exc Unit
  close : Stream → Except Exc Unit

namespace Storage

variable (storage : Storage Data Stream WriteResult Exc)

/-- The body of the `with` block. -/
def writeStream (bucket : FileBucket Data) : Writing Stream Exc (List WriteResult) := do
  let bytesResults ← bucket.bytesData.mapM fun entry =>
    storage.writeItem entry.2 entry.1 bucket.fileName
  let tensorResults ← bucket.tensorData.mapM fun entry =>
    if storage.isCpu entry.2 then storage.writeItem entry.2 entry.1 bucket.fileName
    else throw storage.assertionError
  storage.fsync
  return bytesResults ++ tensorResults

/-- `_write_bucket_to_storage` -/
def writeBucketToStorage (bucket : FileBucket Data) : Except Exc (List WriteResult) := do
  let stream ← storage.openFile bucket.path
  let (localResults, stream) := (storage.writeStream bucket).run stream
  -- the file is closed on every way out of the `with` block
  storage.close stream
  localResults

/-- One result for each item, each of a write of that item. -/
def Wrote (bucket : FileBucket Data) (results : List WriteResult) : Prop :=
  List.Forall₂ (fun entry result => ∃ stream next,
    (storage.writeItem entry.2 entry.1 bucket.fileName).run stream = (.ok result, next))
    bucket.entries results

end Storage

/-! ## Results of the items -/

namespace Writing

variable {α β : Type}

/-- What succeeds in two parts has a first part that succeeds. -/
theorem exists_of_bind {first : Writing Stream Exc α} {rest : α → Writing Stream Exc β}
    {stream next : Stream} {b : β} (h : (first >>= rest).run stream = (.ok b, next)) :
    ∃ a middle, first.run stream = (.ok a, middle) ∧ (rest a).run middle = (.ok b, next) := by
  have hrun : (first >>= rest).run stream =
      match first.run stream with
      | (.ok a, middle) => (rest a).run middle
      | (.error e, middle) => (.error e, middle) := by
    rw [ExceptT.run_bind]
    cases hfirst : first.run stream with
    | mk result middle =>
      cases result with
      | ok a => simp only [bind, StateT.bind, hfirst]
      | error e =>
        simp only [bind, StateT.bind, hfirst]
        rfl
  rw [hrun] at h
  split at h
  · next a middle hfirst => exact ⟨a, middle, hfirst, h⟩
  · cases h

/-- A loop over items that succeeds has one result for each of them. -/
theorem forall₂_of_mapM {f : α → Writing Stream Exc β} :
    ∀ {items : List α} {results : List β} {stream next : Stream},
      (items.mapM f).run stream = (.ok results, next) →
      List.Forall₂ (fun item result => ∃ before after,
        (f item).run before = (.ok result, after)) items results := by
  intro items
  induction items with
  | nil =>
    intro results stream next h
    rw [List.mapM_nil] at h
    cases h
    exact .nil
  | cons item items ih =>
    intro results stream next h
    rw [List.mapM_cons] at h
    obtain ⟨result, middle, hitem, h⟩ := exists_of_bind h
    obtain ⟨rest, last, hrest, h⟩ := exists_of_bind h
    cases h
    exact .cons ⟨stream, middle, hitem⟩ (ih hrest)

end Writing

namespace Storage

variable {storage : Storage Data Stream WriteResult Exc}

/-- A tensor that is written is in host memory. -/
theorem exists_writeItem {bucket : FileBucket Data} {entry : PlanItem × Data}
    {result : WriteResult} {before after : Stream}
    (h : ExceptT.run (if storage.isCpu entry.2 then
        storage.writeItem entry.2 entry.1 bucket.fileName
      else throw storage.assertionError) before = (.ok result, after)) :
    (storage.writeItem entry.2 entry.1 bucket.fileName).run before = (.ok result, after) := by
  split at h
  · exact h
  · cases h

/-- A bucket that is written has the result of every item. -/
theorem wrote_of_ok {bucket : FileBucket Data} {results : List WriteResult}
    (h : storage.writeBucketToStorage bucket = .ok results) : storage.Wrote bucket results := by
  unfold writeBucketToStorage at h
  obtain ⟨stream, _, h⟩ := Fallible.exists_of_bind_eq_ok h
  obtain ⟨_, _, hresults⟩ := Fallible.exists_of_bind_eq_ok h
  have hwritten : (storage.writeStream bucket).run stream =
      (.ok results, ((storage.writeStream bucket).run stream).2) :=
    Prod.ext hresults rfl
  unfold writeStream at hwritten
  obtain ⟨bytesResults, afterBytes, hbytes, hwritten⟩ := Writing.exists_of_bind hwritten
  obtain ⟨tensorResults, afterTensors, htensors, hwritten⟩ := Writing.exists_of_bind hwritten
  obtain ⟨_, afterFsync, _, hreturn⟩ := Writing.exists_of_bind hwritten
  have hall : bytesResults ++ tensorResults = results := by
    injection hreturn with hreturn
    injection hreturn
  rw [← hall]
  refine List.rel_append (Writing.forall₂_of_mapM hbytes) ?_
  refine (Writing.forall₂_of_mapM htensors).imp fun entry result hentry => ?_
  obtain ⟨before, after, hrun⟩ := hentry
  exact ⟨before, after, exists_writeItem hrun⟩

end Storage

end ResiliencyExt.Checkpointing.AsyncCkpt
