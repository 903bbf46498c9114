import Mathlib.Data.List.Induction
import Mathlib.Data.Nat.ModEq
import ResiliencyExt.Foundation.Dict

set_option autoImplicit false

/-!
# Straggler detection: durations of kernels

`CircularBuffer.h`, and what `CuptiProfiler.cpp` keeps of the activity records: the durations of
each kernel in a ring of limited length.  An index that is out of range is undefined behaviour in
the source and makes the operation `none` here.
-/

namespace ResiliencyExt.Attribution.Straggler

open Foundation List

structure CircularBuffer (T : Type) where
  buffer : List T
  head : Nat
  tail : Nat
  size : Nat
  capacity : Nat
  deriving DecidableEq, Repr

namespace CircularBuffer

variable {T : Type}

def new [Inhabited T] (capacity : Nat) : CircularBuffer T where
  buffer := replicate capacity default
  head := 0
  tail := 0
  size := 0
  capacity := capacity

def full (b : CircularBuffer T) : Bool :=
  decide (b.size = b.capacity)

def pushBack (b : CircularBuffer T) (value : T) : Option (CircularBuffer T) :=
  if b.tail < b.buffer.length ∧ 0 < b.capacity then
    let next := { b with
      buffer := b.buffer.set b.tail value
      tail := (b.tail + 1) % b.capacity }
    if b.full then some { next with head := (b.head + 1) % b.capacity }
    else some { next with size := b.size + 1 }
  else none

def linearize (b : CircularBuffer T) : Option (List T) :=
  (range b.size).mapM fun linearIndex => b.buffer[(b.head + linearIndex) % b.capacity]?

/-! ## The ring as a bounded queue -/

/-- The last `limit` of what was recorded. -/
def latest (limit : Nat) (recorded : List T) : List T :=
  recorded.drop (recorded.length - limit)

/-- The ring holds the latest of what was pushed, in order from `head` on. -/
structure Holds (b : CircularBuffer T) (limit : Nat) (recorded : List T) : Prop where
  positive : 0 < limit
  capacity : b.capacity = limit
  length : b.buffer.length = limit
  head_lt : b.head < limit
  size : b.size = (latest limit recorded).length
  tail : b.tail = (b.head + b.size) % limit
  cell : ∀ i < b.size, b.buffer[(b.head + i) % limit]? = (latest limit recorded)[i]?

theorem length_latest (limit : Nat) (recorded : List T) :
    (latest limit recorded).length = min recorded.length limit := by
  rw [latest, length_drop]
  omega

theorem holds_new [Inhabited T] {limit : Nat} (h : 0 < limit) :
    (new limit : CircularBuffer T).Holds limit [] where
  positive := h
  capacity := rfl
  length := length_replicate
  head_lt := h
  size := by rw [length_latest]; exact (Nat.zero_min limit).symm
  tail := (Nat.zero_mod limit).symm
  cell _ hi := absurd hi (Nat.not_lt_zero _)

/-- Different places of a ring are different cells. -/
theorem cell_ne (head : Nat) {limit i j : Nat} (hi : i < limit) (hj : j < limit) (hne : i ≠ j) :
    (head + i) % limit ≠ (head + j) % limit := fun heq =>
  hne ((Nat.ModEq.add_left_cancel' head heq).eq_of_lt_of_lt hi hj)

variable {b : CircularBuffer T} {limit : Nat} {recorded : List T}

theorem Holds.tail_lt (h : b.Holds limit recorded) : b.tail < limit :=
  h.tail ▸ Nat.mod_lt _ h.positive

/-- A push that finds room appends. -/
theorem Holds.append (h : b.Holds limit recorded) (value : T) (hroom : b.size < limit) :
    Holds { b with
      buffer := b.buffer.set b.tail value
      tail := (b.tail + 1) % b.capacity
      size := b.size + 1 } limit (recorded ++ [value]) := by
  have hsize := h.size
  rw [length_latest] at hsize
  have hkept : latest limit recorded = recorded := by
    rw [latest, Nat.sub_eq_zero_of_le (by omega), drop_zero]
  have hkept' : latest limit (recorded ++ [value]) = recorded ++ [value] := by
    rw [latest, length_append, length_singleton, Nat.sub_eq_zero_of_le (by omega), drop_zero]
  refine ⟨h.positive, h.capacity, by simp [h.length], h.head_lt, ?_, ?_, fun i hi => ?_⟩
  · rw [hkept', length_append, h.size, hkept]
    rfl
  · rw [h.capacity, h.tail, Nat.mod_add_mod, Nat.add_assoc]
  · have hcell := h.cell
    rw [hkept] at hcell
    have hlength : recorded.length = b.size := by omega
    rw [hkept']
    rcases Nat.lt_or_eq_of_le (Nat.le_of_lt_succ hi) with hlt | heq
    · have hne : b.tail ≠ (b.head + i) % limit := by
        rw [h.tail]
        exact cell_ne _ hroom (by omega) (by omega)
      rw [getElem?_set_ne hne, hcell i hlt, getElem?_append_left (by omega)]
    · rw [heq, ← h.tail, getElem?_set_self (h.length ▸ h.tail_lt), ← hlength,
        getElem?_concat_length]

/-- A push on a full ring drops the oldest. -/
theorem Holds.rotate (h : b.Holds limit recorded) (value : T) (hfull : b.size = limit) :
    Holds { b with
      buffer := b.buffer.set b.tail value
      tail := (b.tail + 1) % b.capacity
      head := (b.head + 1) % b.capacity } limit (recorded ++ [value]) := by
  have hsize := h.size
  have hpositive := h.positive
  rw [length_latest] at hsize
  have htail : b.tail = b.head := by
    rw [h.tail, hfull, Nat.add_mod_right, Nat.mod_eq_of_lt h.head_lt]
  refine ⟨h.positive, h.capacity, by simp [h.length], ?_, ?_, ?_, fun i hi => ?_⟩
  · rw [h.capacity]
    exact Nat.mod_lt _ h.positive
  · rw [length_latest, length_append]
    simp only [length_singleton]
    omega
  · simp only [h.capacity, hfull]
    rw [htail, Nat.add_mod_right, Nat.mod_mod]
  · simp only [hfull] at hi
    simp only [h.capacity, Nat.mod_add_mod, latest, getElem?_drop, length_append,
      length_singleton]
    have hnext : b.head + 1 + i = b.head + (i + 1) := by omega
    rw [hnext]
    rcases Nat.lt_or_eq_of_le (Nat.succ_le_of_lt hi) with hlt | heq
    · have hne : b.tail ≠ (b.head + (i + 1)) % limit := by
        rw [htail]
        have hzero := cell_ne b.head h.positive hlt (Nat.succ_ne_zero i).symm
        rwa [Nat.add_zero, Nat.mod_eq_of_lt h.head_lt] at hzero
      rw [getElem?_set_ne hne, h.cell (i + 1) (by omega), latest, getElem?_drop,
        getElem?_append_left (by omega)]
      congr 1
      omega
    · rw [show i + 1 = limit from heq, Nat.add_mod_right, Nat.mod_eq_of_lt h.head_lt, ← htail,
        getElem?_set_self (h.length ▸ h.tail_lt)]
      have hlast : recorded.length + 1 - limit + i = recorded.length := by omega
      rw [hlast, getElem?_concat_length]

theorem Holds.pushBack (h : b.Holds limit recorded) (value : T) :
    ∃ next, b.pushBack value = some next ∧ next.Holds limit (recorded ++ [value]) := by
  have hok : b.tail < b.buffer.length ∧ 0 < b.capacity :=
    ⟨h.length ▸ h.tail_lt, h.capacity ▸ h.positive⟩
  rw [CircularBuffer.pushBack, if_pos hok]
  by_cases hfull : b.size = b.capacity
  · exact ⟨_, if_pos (decide_eq_true hfull), h.rotate value (hfull.trans h.capacity)⟩
  · refine ⟨_, if_neg (by simpa [full] using hfull), h.append value ?_⟩
    have hle := h.size
    rw [length_latest] at hle
    have hcapacity := h.capacity
    omega

/-- Reading a list place by place reads all of it. -/
theorem mapM_range (items : List T) {f : Nat → Option T}
    (h : ∀ i < items.length, f i = items[i]?) : (range items.length).mapM f = some items := by
  induction items generalizing f with
  | nil => rfl
  | cons item items ih =>
    have hfirst : f 0 = some item := h 0 (Nat.succ_pos _)
    have hrest : (range items.length).mapM (f ∘ Nat.succ) = some items :=
      ih fun i hi => h (i + 1) (Nat.succ_lt_succ hi)
    rw [length_cons, range_succ_eq_map, mapM_cons, hfirst, mapM_map, hrest]
    rfl

theorem Holds.linearize (h : b.Holds limit recorded) :
    b.linearize = some (latest limit recorded) := by
  rw [CircularBuffer.linearize, h.size]
  refine mapM_range _ fun i hi => ?_
  rw [h.capacity, h.cell i (h.size ▸ hi)]

end CircularBuffer

/-! ## The profiler -/

/-- `CUpti_ActivityKernel4`, with the dimensions of block and grid. -/
structure KernelRecord where
  start : UInt64
  stop : UInt64
  name : List Char
  block : Int × Int × Int
  grid : Int × Int × Int
  deriving DecidableEq, Repr

inductive Activity where
  | concurrentKernel (kernel : KernelRecord)
  | other

/-- What `snprintf` writes into `kernel_name_and_dims`, a buffer of 4096 characters. -/
def KernelRecord.nameAndDims (kernel : KernelRecord) : List Char :=
  let dims (d : Int × Int × Int) : List Char :=
    (toString d.1 ++ "_" ++ toString d.2.1 ++ "_" ++ toString d.2.2).toList
  (kernel.name ++ "_blk_".toList ++ dims kernel.block ++ "_grid_".toList ++ dims kernel.grid).take
    4095

variable {Duration : Type} [Inhabited Duration]

structure CuptiProfiler (Duration : Type) where
  kernelDurations : Dict (List Char) (CircularBuffer Duration)
  statsMaxLenPerKernel : Nat

namespace CuptiProfiler

variable (toMicros : UInt64 → Duration)

/-- One record of a completed buffer.  `toMicros` is the division by `1000.0f`. -/
def onRecord (p : CuptiProfiler Duration) : Activity → Option (CuptiProfiler Duration)
  | .other => some p
  | .concurrentKernel kernel =>
    if kernel.start = 0 ∨ kernel.stop = 0 then some p
    else
      let entry := (p.kernelDurations.get? kernel.nameAndDims).getD (.new p.statsMaxLenPerKernel)
      (entry.pushBack (toMicros (kernel.stop - kernel.start))).map fun pushed =>
        { p with kernelDurations := p.kernelDurations.set kernel.nameAndDims pushed }

def bufferCompleted (p : CuptiProfiler Duration) (records : List Activity) :
    Option (CuptiProfiler Duration) :=
  records.foldlM (onRecord toMicros) p

def reset (p : CuptiProfiler Duration) : CuptiProfiler Duration :=
  { p with kernelDurations := .empty }

/-- The samples that `getStats` gives to `computeStats`, by kernel name. -/
def samples (p : CuptiProfiler Duration) : Option (List (List Char × List Duration)) :=
  p.kernelDurations.entries.mapM fun entry => entry.2.linearize.map (entry.1, ·)

/-- What happens to the profiler.  The buffers that a flush completes are completed before the
reset or the reading of the statistics that flushes. -/
inductive Event where
  | bufferCompleted (records : List Activity)
  | reset
  | getStats

def step (p : CuptiProfiler Duration) : Event → Option (CuptiProfiler Duration)
  | .bufferCompleted records => p.bufferCompleted toMicros records
  | .reset => some p.reset
  | .getStats => p.samples.map fun _ => p

/-- The profiler after some events, from its construction on. -/
def run (limit : Nat) (events : List Event) : Option (CuptiProfiler Duration) :=
  events.foldlM (step toMicros) ⟨.empty, limit⟩

/-! ## What is recorded under a name -/

/-- The duration that a record has for a kernel name, if it has one. -/
def durationOf (name : List Char) : Activity → Option Duration
  | .other => none
  | .concurrentKernel kernel =>
    if kernel.start = 0 ∨ kernel.stop = 0 ∨ kernel.nameAndDims ≠ name then none
    else some (toMicros (kernel.stop - kernel.start))

/-- The durations under a name since the last reset. -/
def recorded (name : List Char) (events : List Event) : List Duration :=
  events.foldl (fun before event =>
    match event with
    | .bufferCompleted records => before ++ records.filterMap (durationOf toMicros name)
    | .reset => []
    | .getStats => before) []

/-- The ring of each name holds the latest of what was recorded under it. -/
structure Keeps (limit : Nat) (p : CuptiProfiler Duration)
    (recorded : List Char → List Duration) : Prop where
  maxLen : p.statsMaxLenPerKernel = limit
  absent : ∀ name, p.kernelDurations.get? name = none ↔ recorded name = []
  holds : ∀ name b, p.kernelDurations.get? name = some b → b.Holds limit (recorded name)

variable {limit : Nat} {p : CuptiProfiler Duration}

omit [Inhabited Duration] in
theorem keeps_reset (h : p.statsMaxLenPerKernel = limit) : Keeps limit p.reset fun _ => [] where
  maxLen := h
  absent _ := iff_of_true rfl rfl
  holds _ _ h := by cases h

theorem Keeps.onRecord {recorded : List Char → List Duration} (h : Keeps limit p recorded)
    (hlimit : 0 < limit) (record : Activity) :
    ∃ next, p.onRecord toMicros record = some next ∧
      Keeps limit next fun name => recorded name ++ (durationOf toMicros name record).toList := by
  cases record with
  | other => exact ⟨p, rfl, by simpa [durationOf] using h⟩
  | concurrentKernel kernel =>
    by_cases hzero : kernel.start = 0 ∨ kernel.stop = 0
    · refine ⟨p, if_pos hzero, ?_⟩
      have hnone : ∀ name, durationOf toMicros name (.concurrentKernel kernel) = none :=
        fun name => if_pos (or_assoc.mp (.inl hzero))
      simpa [hnone] using h
    · obtain ⟨hstart, hstop⟩ := not_or.mp hzero
      have hentry : ((p.kernelDurations.get? kernel.nameAndDims).getD
          (.new p.statsMaxLenPerKernel)).Holds limit (recorded kernel.nameAndDims) := by
        cases hget : p.kernelDurations.get? kernel.nameAndDims with
        | none =>
          rw [(h.absent _).mp hget, h.maxLen]
          exact CircularBuffer.holds_new hlimit
        | some b => exact h.holds _ b hget
      obtain ⟨pushed, hpush, hholds⟩ :=
        hentry.pushBack (toMicros (kernel.stop - kernel.start))
      refine ⟨_, (if_neg hzero).trans (congrArg _ hpush), h.maxLen, fun name => ?_,
        fun name b hget => ?_⟩
      · by_cases hname : name = kernel.nameAndDims
        · subst hname
          simp [Dict.get?_set_self, durationOf, hstart, hstop]
        · rw [Dict.get?_set_of_ne _ _ hname, h.absent]
          simp [durationOf, Ne.symm hname]
      · by_cases hname : name = kernel.nameAndDims
        · subst hname
          rw [Dict.get?_set_self] at hget
          cases hget
          simpa [durationOf, hstart, hstop] using hholds
        · rw [Dict.get?_set_of_ne _ _ hname] at hget
          simpa [durationOf, Ne.symm hname] using h.holds name b hget

theorem Keeps.bufferCompleted (hlimit : 0 < limit) (records : List Activity) :
    ∀ {p : CuptiProfiler Duration} {recorded : List Char → List Duration},
      Keeps limit p recorded → ∃ next, p.bufferCompleted toMicros records = some next ∧
        Keeps limit next fun name =>
          recorded name ++ records.filterMap (durationOf toMicros name) := by
  induction records with
  | nil => exact fun {p recorded} h => ⟨p, rfl, by simpa using h⟩
  | cons record records ih =>
    intro p recorded h
    obtain ⟨middle, hmiddle, hkeeps⟩ := h.onRecord toMicros hlimit record
    obtain ⟨next, hnext, hlast⟩ := ih hkeeps
    refine ⟨next, ?_, ?_⟩
    · rw [CuptiProfiler.bufferCompleted, foldlM_cons, hmiddle]
      exact hnext
    · have hsplit : ∀ name,
          recorded name ++ (record :: records).filterMap (durationOf toMicros name) =
            recorded name ++ (durationOf toMicros name record).toList ++
              records.filterMap (durationOf toMicros name) := by
        intro name
        rw [append_assoc]
        cases hduration : durationOf toMicros name record <;> simp [hduration]
      simpa only [hsplit] using hlast

omit [Inhabited Duration] in
/-- All rings can be read, and each gives the latest durations of its kernel. -/
theorem Keeps.samples {recorded : List Char → List Duration} (h : Keeps limit p recorded) :
    ∃ stats, p.samples = some stats ∧ ∀ name sample, (name, sample) ∈ stats ↔
      recorded name ≠ [] ∧ sample = CircularBuffer.latest limit (recorded name) := by
  have hread : ∀ entry ∈ p.kernelDurations.entries, entry.2.linearize =
      some (CircularBuffer.latest limit (recorded entry.1)) := fun entry hentry =>
    (h.holds _ _ (Dict.get?_eq_some_of_mem hentry)).linearize
  have hmap : ∀ entries : List (List Char × CircularBuffer Duration),
      (∀ entry ∈ entries, entry.2.linearize =
        some (CircularBuffer.latest limit (recorded entry.1))) →
      entries.mapM (fun entry => entry.2.linearize.map (entry.1, ·)) =
        some (entries.map fun entry =>
          (entry.1, CircularBuffer.latest limit (recorded entry.1))) := by
    intro entries hall
    induction entries with
    | nil => rfl
    | cons entry entries ih =>
      rw [mapM_cons, hall entry mem_cons_self,
        ih fun other hother => hall other (mem_cons_of_mem _ hother)]
      rfl
  refine ⟨_, hmap _ hread, fun name sample => ?_⟩
  rw [mem_map]
  constructor
  · rintro ⟨entry, hentry, heq⟩
    cases heq
    refine ⟨fun hnil => ?_, rfl⟩
    have hget := Dict.get?_eq_some_of_mem hentry
    rw [(h.absent _).mpr hnil] at hget
    cases hget
  · rintro ⟨hne, rfl⟩
    obtain ⟨b, hb⟩ := Option.ne_none_iff_exists'.mp (mt (h.absent name).mp hne)
    exact ⟨_, Dict.mem_of_get?_eq_some hb, rfl⟩

theorem run_keeps (hlimit : 0 < limit) (events : List Event) :
    ∃ p : CuptiProfiler Duration, run toMicros limit events = some p ∧
      Keeps limit p fun name => recorded toMicros name events := by
  induction events using List.reverseRecOn with
  | nil => exact ⟨_, rfl, keeps_reset (p := ⟨.empty, limit⟩) rfl⟩
  | append_singleton events event ih =>
    obtain ⟨p, hrun, hkeeps⟩ := ih
    have hstep : run toMicros limit (events ++ [event]) = p.step toMicros event := by
      rw [run, foldlM_append, ← run, hrun]
      exact bind_pure (p.step toMicros event)
    rw [hstep]
    simp only [recorded, foldl_append, foldl_cons, foldl_nil]
    cases event with
    | bufferCompleted records => exact hkeeps.bufferCompleted toMicros hlimit records
    | reset => exact ⟨_, rfl, keeps_reset hkeeps.maxLen⟩
    | getStats =>
      obtain ⟨stats, hstats, -⟩ := hkeeps.samples
      exact ⟨p, congrArg (Option.map _) hstats, hkeeps⟩

/-- After any events no index has been out of range, and the statistics are made of the latest
durations of each kernel that has been recorded since the last reset. -/
theorem samples_latest (hlimit : 1 ≤ limit) (events : List Event) :
    ∃ (p : CuptiProfiler Duration) (stats : List (List Char × List Duration)),
      run toMicros limit events = some p ∧ p.samples = some stats ∧
        ∀ name sample, (name, sample) ∈ stats ↔ recorded toMicros name events ≠ [] ∧
          sample = CircularBuffer.latest limit (recorded toMicros name events) := by
  obtain ⟨p, hrun, hkeeps⟩ := run_keeps toMicros hlimit events
  obtain ⟨stats, hstats, hsamples⟩ := hkeeps.samples
  exact ⟨p, stats, hrun, hstats, hsamples⟩

/-- A record of a kernel that runs from time 1 on. -/
def kernelUntil (stop : UInt64) : Activity :=
  .concurrentKernel ⟨1, stop, "gemm".toList, (1, 1, 1), (2, 1, 1)⟩

theorem samples_latest_wrapped :
    ∃ (p : CuptiProfiler UInt64) (stats : List (List Char × List UInt64)),
      run id 2 [.bufferCompleted [kernelUntil 4, kernelUntil 6, kernelUntil 9], .getStats] =
          some p ∧
        p.samples = some stats ∧ ("gemm_blk_1_1_1_grid_2_1_1".toList, [5, 8]) ∈ stats := by
  obtain ⟨p, stats, hrun, hstats, hmem⟩ := samples_latest id (show 1 ≤ 2 by decide)
    [.bufferCompleted [kernelUntil 4, kernelUntil 6, kernelUntil 9], .getStats]
  exact ⟨p, stats, hrun, hstats, (hmem _ _).mpr ⟨by decide, by decide⟩⟩

end CuptiProfiler

end ResiliencyExt.Attribution.Straggler
