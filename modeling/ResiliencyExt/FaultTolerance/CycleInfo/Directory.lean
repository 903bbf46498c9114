import ResiliencyExt.Foundation.Text

set_option autoImplicit false

/-!
# Cycle info: the files

`_do_create` and `_do_update` on the cycle info directory.  Each cycle has a file of its
own, and each job a symlink to the file of its most recent cycle.  A name ends in a
cycle number, in `current` or in `tmp`, so that names of different kinds never meet.
-/

namespace ResiliencyExt.FaultTolerance.CycleInfo

open Foundation List

/-- `(job_id, attempt_index, cycle_number)` -/
structure CycleId where
  jobId : String
  attemptIndex : Int
  cycleNumber : Int
  deriving DecidableEq

/-- A time as `utc_iso_now` writes it. -/
abbrev IsoTime :=
  {text : String // text ≠ ""}

/-- What `write_cycle_start` is called with. -/
structure CyclePayload where
  id : CycleId
  cycleStartTime : IsoTime
  cycleLogFile : String
  activeNodes : String
  standbyNodes : String
  activeRanks : String

/-- `NVRxCycleInfo` -/
structure NVRxCycleInfo where
  id : CycleId
  cycleStartTime : String
  cycleEndTime : String
  cycleLogFile : String
  activeNodes : String
  standbyNodes : String
  generation : Nat
  activeRanks : String

/-- The message of a cycle that has not ended. -/
def CyclePayload.message (p : CyclePayload) : NVRxCycleInfo where
  id := p.id
  cycleStartTime := p.cycleStartTime
  cycleEndTime := ""
  cycleLogFile := p.cycleLogFile
  activeNodes := p.activeNodes
  standbyNodes := p.standbyNodes
  generation := 0
  activeRanks := p.activeRanks

/-- The message after the update of the end time. -/
def NVRxCycleInfo.ended (msg : NVRxCycleInfo) (cycleEndTime : IsoTime) : NVRxCycleInfo :=
  { msg with cycleEndTime := cycleEndTime, generation := msg.generation + 1 }

/-- The numbers below `2 ^ 32`, which a `uint32` field takes; the others raise `ValueError`. -/
def inUint32 (n : Int) : Prop :=
  0 ≤ n ∧ n < 4294967296

instance (n : Int) : Decidable (inUint32 n) :=
  inferInstanceAs (Decidable (_ ∧ _))

/-- The message can hold the numbers of the cycle. -/
def CycleId.Fits (id : CycleId) : Prop :=
  inUint32 id.attemptIndex ∧ inUint32 id.cycleNumber

instance (id : CycleId) : Decidable id.Fits :=
  inferInstanceAs (Decidable (_ ∧ _))

/-! ## Names -/

abbrev Name :=
  List Char

/-- `str(n)` -/
def integer : Int → List Char
  | .ofNat n => Text.decimal n
  | .negSucc n => '-' :: Text.decimal (n + 1)

/-- `_cycle_info_filename` -/
def cycleInfoFilename (id : CycleId) : Name :=
  ("cycle_info.".toList ++ id.jobId.toList ++ '.' :: integer id.attemptIndex) ++
    '.' :: integer id.cycleNumber

/-- `_current_symlink_name` -/
def currentSymlinkName (jobId : String) : Name :=
  ("cycle_info.".toList ++ jobId.toList) ++ '.' :: "current".toList

/-- `path + ".tmp"` -/
def tmpName (name : Name) : Name :=
  name ++ '.' :: "tmp".toList

/-- Two names with the same last part have the same front. -/
theorem append_cons_inj {sep : Char} {front front' last last' : List Char} (h : sep ∉ last)
    (h' : sep ∉ last') (heq : front ++ sep :: last = front' ++ sep :: last') :
    front = front' ∧ last = last' := by
  have hlonger : ∀ {middle last last' : List Char}, sep ∉ last →
      sep :: last = middle ++ sep :: last' → middle = [] ∧ last = last' := by
    intro middle last last' hsep heq
    cases middle with
    | nil => exact ⟨rfl, (List.cons.inj heq).2⟩
    | cons c rest =>
      have hlast : last = rest ++ sep :: last' := (List.cons.inj heq).2
      exact absurd (hlast ▸ mem_append_right rest mem_cons_self) hsep
  rcases append_eq_append_iff.mp heq with ⟨middle, hfront, hlast⟩ | ⟨middle, hfront, hlast⟩
  · obtain ⟨rfl, hsame⟩ := hlonger h hlast
    exact ⟨by simpa using hfront.symm, hsame⟩
  · obtain ⟨rfl, hsame⟩ := hlonger h' hlast
    exact ⟨by simpa using hfront, hsame.symm⟩

theorem mem_integer {n : Int} {c : Char} (h : c ∈ integer n) : c = '-' ∨ c.isDigit = true := by
  cases n with
  | ofNat n => exact .inr (Text.isDigit_of_mem_decimal h)
  | negSucc n => exact (mem_cons.mp h).imp id Text.isDigit_of_mem_decimal

theorem dot_not_mem_integer (n : Int) : '.' ∉ integer n := fun h =>
  (mem_integer h).elim (by decide) (by decide)

theorem integer_injective {m n : Int} (h : integer m = integer n) : m = n := by
  have hminus : ∀ {k : Nat} {rest : List Char}, Text.decimal k ≠ '-' :: rest := by
    intro k rest heq
    have hmem : '-' ∈ Text.decimal k := heq ▸ mem_cons_self
    exact absurd (Text.isDigit_of_mem_decimal hmem) (by decide)
  cases m with
  | ofNat m =>
    cases n with
    | ofNat n => exact congrArg _ (Text.decimal_injective h)
    | negSucc n => exact absurd h hminus
  | negSucc m =>
    cases n with
    | ofNat n => exact absurd h.symm hminus
    | negSucc n => exact congrArg _ (Nat.succ.inj (Text.decimal_injective (List.cons.inj h).2))

/-- A number is no word that has another character. -/
theorem integer_ne {word : List Char} (c : Char) (hmem : c ∈ word)
    (hc : ¬ (c = '-' ∨ c.isDigit = true)) (n : Int) : integer n ≠ word := by
  rintro rfl
  exact hc (mem_integer hmem)

theorem integer_ne_current (n : Int) : integer n ≠ "current".toList :=
  integer_ne 'c' (by decide) (by decide) n

theorem integer_ne_tmp (n : Int) : integer n ≠ "tmp".toList :=
  integer_ne 't' (by decide) (by decide) n

theorem cycleInfoFilename_injective {id id' : CycleId}
    (h : cycleInfoFilename id = cycleInfoFilename id') : id = id' := by
  obtain ⟨hfront, hcycle⟩ :=
    append_cons_inj (dot_not_mem_integer _) (dot_not_mem_integer _) h
  obtain ⟨hjob, hattempt⟩ :=
    append_cons_inj (dot_not_mem_integer _) (dot_not_mem_integer _) hfront
  obtain ⟨jobId, attemptIndex, cycleNumber⟩ := id
  obtain ⟨jobId', attemptIndex', cycleNumber'⟩ := id'
  obtain rfl : jobId = jobId' := String.toList_inj.mp (append_cancel_left hjob)
  obtain rfl : attemptIndex = attemptIndex' := integer_injective hattempt
  obtain rfl : cycleNumber = cycleNumber' := integer_injective hcycle
  rfl

theorem currentSymlinkName_injective {jobId jobId' : String}
    (h : currentSymlinkName jobId = currentSymlinkName jobId') : jobId = jobId' :=
  String.toList_inj.mp (append_cancel_left (append_cancel_right h))

theorem filename_ne_symlink (id : CycleId) (jobId : String) :
    cycleInfoFilename id ≠ currentSymlinkName jobId := fun h =>
  integer_ne_current _ (append_cons_inj (dot_not_mem_integer _) (by decide) h).2

theorem filename_ne_tmp (id : CycleId) (name : Name) : cycleInfoFilename id ≠ tmpName name :=
  fun h => integer_ne_tmp _ (append_cons_inj (dot_not_mem_integer _) (by decide) h).2

theorem symlink_ne_tmp (jobId : String) (name : Name) : currentSymlinkName jobId ≠ tmpName name :=
  fun h => absurd (append_cons_inj (by decide) (by decide) h).2 (by decide)

/-! ## The directory -/

inductive Entry where
  /-- The file with the JSON of the message. -/
  | cycleInfo (msg : NVRxCycleInfo)
  | symlink (target : Name)
  /-- A file that holds no such JSON. -/
  | other

abbrev Directory :=
  Name → Option Entry

def Directory.set (dir : Directory) (name : Name) (entry : Option Entry) : Directory :=
  fun other => if other = name then entry else dir other

@[simp] theorem Directory.set_self (dir : Directory) (name : Name) (entry : Option Entry) :
    dir.set name entry name = entry := if_pos rfl

theorem Directory.set_of_ne (dir : Directory) {name other : Name} (entry : Option Entry)
    (h : other ≠ name) : dir.set name entry other = dir other := if_neg h

/-- `os.replace` -/
def Directory.replace (dir : Directory) (src dst : Name) : Directory :=
  (dir.set dst (dir src)).set src none

/-- What the thread has written to the file of a cycle. -/
inductive Write where
  | created (p : CyclePayload)
  | updated (id : CycleId) (cycleEndTime : IsoTime)

/-- `_do_create`, with what it has written.  The symlink is made under a temporary name, which
raises `FileExistsError` where that name is there. -/
def doCreate (dir : Directory) (p : CyclePayload) : Directory × List Write :=
  if p.id.Fits then
    let filename := cycleInfoFilename p.id
    let written := dir.set filename (some (.cycleInfo p.message))
    let symlinkPath := currentSymlinkName p.id.jobId
    let tmpSymlinkPath := tmpName symlinkPath
    if (written tmpSymlinkPath).isSome then (written.set tmpSymlinkPath none, [.created p])
    else
      ((written.set tmpSymlinkPath (some (.symlink filename))).replace tmpSymlinkPath symlinkPath,
        [.created p])
  else (dir, [])

/-- `_do_update`, with what it has written; no symlink has the name of a cycle's file. -/
def doUpdate (dir : Directory) (id : CycleId) (cycleEndTime : IsoTime) :
    Directory × List Write :=
  let path := cycleInfoFilename id
  let tmpPath := tmpName path
  match dir path with
  | some (.cycleInfo msg) =>
    -- the field of the generation is a `uint64`
    if msg.generation + 1 < 18446744073709551616 then
      ((dir.set tmpPath (some (.cycleInfo (msg.ended cycleEndTime)))).replace tmpPath path,
        [.updated id cycleEndTime])
    else (dir, [])
  | some .other => (dir.set tmpPath none, [])
  | some (.symlink _) => (dir, [])
  | none => (dir, [])

/-! ## What the operations do -/

theorem replace_set_apply (dir : Directory) {src dst name : Name} (entry : Entry)
    (hname : name ≠ src) :
    ((dir.set src (some entry)).replace src dst) name =
      if name = dst then some entry else dir name := by
  rw [Directory.replace, Directory.set_of_ne _ _ hname, Directory.set_self]
  by_cases hdst : name = dst
  · rw [hdst, Directory.set_self, if_pos rfl]
  · rw [Directory.set_of_ne _ _ hdst, Directory.set_of_ne _ _ hname, if_neg hdst]

section

variable {dir : Directory} {p : CyclePayload} (hfits : p.id.Fits)
    (htmp : dir (tmpName (currentSymlinkName p.id.jobId)) = none)
include hfits htmp

/-- A creation that finds no temporary symlink. -/
theorem doCreate_eq :
    doCreate dir p =
      (((dir.set (cycleInfoFilename p.id) (some (.cycleInfo p.message))).set
        (tmpName (currentSymlinkName p.id.jobId))
          (some (.symlink (cycleInfoFilename p.id)))).replace
          (tmpName (currentSymlinkName p.id.jobId)) (currentSymlinkName p.id.jobId),
        [.created p]) := by
  have hwritten : ¬ ((dir.set (cycleInfoFilename p.id) (some (.cycleInfo p.message)))
      (tmpName (currentSymlinkName p.id.jobId))).isSome = true := by
    rw [Directory.set_of_ne _ _ (filename_ne_tmp _ _).symm, htmp]
    exact nofun
  rw [doCreate, if_pos hfits, if_neg hwritten]

/-- The files after such a creation. -/
theorem doCreate_filename (id : CycleId) :
    (doCreate dir p).1 (cycleInfoFilename id) =
      if id = p.id then some (.cycleInfo p.message) else dir (cycleInfoFilename id) := by
  rw [doCreate_eq hfits htmp]
  dsimp only
  rw [replace_set_apply _ _ (filename_ne_tmp _ _),
    if_neg (filename_ne_symlink _ _)]
  by_cases hid : id = p.id
  · rw [hid, Directory.set_self, if_pos rfl]
  · rw [Directory.set_of_ne _ _ (mt cycleInfoFilename_injective hid), if_neg hid]

/-- The symlinks after such a creation. -/
theorem doCreate_symlink (jobId : String) :
    (doCreate dir p).1 (currentSymlinkName jobId) =
      if jobId = p.id.jobId then some (.symlink (cycleInfoFilename p.id))
      else dir (currentSymlinkName jobId) := by
  rw [doCreate_eq hfits htmp]
  dsimp only
  rw [replace_set_apply _ _ (symlink_ne_tmp _ _)]
  by_cases hjob : jobId = p.id.jobId
  · rw [hjob, if_pos rfl, if_pos rfl]
  · rw [if_neg (mt currentSymlinkName_injective hjob), if_neg hjob,
      Directory.set_of_ne _ _ (filename_ne_symlink _ _).symm]

end

section

variable {dir : Directory} {id : CycleId} {msg : NVRxCycleInfo}
    (hfile : dir (cycleInfoFilename id) = some (.cycleInfo msg))
    (hgeneration : msg.generation + 1 < 18446744073709551616) (cycleEndTime : IsoTime)
include hfile hgeneration

/-- An update of a file with a message. -/
theorem doUpdate_eq :
    doUpdate dir id cycleEndTime =
      ((dir.set (tmpName (cycleInfoFilename id))
        (some (.cycleInfo (msg.ended cycleEndTime)))).replace (tmpName (cycleInfoFilename id))
          (cycleInfoFilename id), [.updated id cycleEndTime]) := by
  rw [doUpdate]
  simp only [hfile]
  rw [if_pos hgeneration]

theorem doUpdate_filename (other : CycleId) :
    (doUpdate dir id cycleEndTime).1 (cycleInfoFilename other) =
      if other = id then some (.cycleInfo (msg.ended cycleEndTime))
      else dir (cycleInfoFilename other) := by
  rw [doUpdate_eq hfile hgeneration]
  dsimp only
  rw [replace_set_apply _ _ (filename_ne_tmp _ _)]
  by_cases hid : other = id
  · rw [if_pos (congrArg _ hid), if_pos hid]
  · rw [if_neg (mt cycleInfoFilename_injective hid), if_neg hid]

theorem doUpdate_symlink (jobId : String) :
    (doUpdate dir id cycleEndTime).1 (currentSymlinkName jobId) =
      dir (currentSymlinkName jobId) := by
  rw [doUpdate_eq hfile hgeneration]
  dsimp only
  rw [replace_set_apply _ _ (symlink_ne_tmp _ _),
    if_neg (filename_ne_symlink _ _).symm]

end

end ResiliencyExt.FaultTolerance.CycleInfo
