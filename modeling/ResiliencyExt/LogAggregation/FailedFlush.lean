import ResiliencyExt.LogAggregation.RootServer
set_option autoImplicit false

/-!
# Log aggregation: a flush that raises

`_flush_file_buffer_locked` on one file whose I/O may fail.  The handle is a buffered
binary writer: what a `write` that returned was given stays in the handle until a `flush`
that returns has put it into the file, and a `flush` that raises leaves it there.  A
`write` that raises took nothing.

The buffer is copied and cleared before the first write, and the error path puts nothing
back.  Handlers append while the I/O runs; they touch nothing that it reads, so only what
they appended matters.
-/

namespace ResiliencyExt.LogAggregation

open List

/-- Where the I/O of a flush raises. -/
inductive IoFault
  | none
  /-- At the write of the chunk with this number. -/
  | write (index : Nat)
  /-- At `file_handle.flush()`. -/
  | flush
  deriving DecidableEq, Repr

/-- A file and what its handle has not put into it yet. -/
structure OpenFile where
  state : FileState
  pending : List Received
  deriving DecidableEq, Repr

/-- How a call of `_flush_file_buffer_locked` ends. -/
inductive Flushed
  /-- Nothing to flush, or the file was closed. -/
  | skipped (file : OpenFile)
  | done (file : OpenFile)
  | raised (file : OpenFile)
  deriving DecidableEq, Repr

namespace OpenFile

/-- What the handle was given, the oldest first. -/
def handed (file : OpenFile) : List Received :=
  file.state.written ++ file.pending

/-- `file_state['buffer'].append(data)`, for each of the chunks. -/
def append (file : OpenFile) (chunks : List Received) : OpenFile :=
  { file with state := chunks.foldl FileState.append file.state }

/-- `file_handle.write(data)` that returns. -/
def give (file : OpenFile) (data : Received) : OpenFile :=
  { file with pending := file.pending ++ [data] }

/-- `for data in buffer_copy`, from the chunk with the number `index` on, and whether it
raised. -/
def writeChunks (fault : IoFault) : Nat → OpenFile → List Received → Bool × OpenFile
  | _, file, [] => (false, file)
  | index, file, data :: rest =>
    if fault = .write index then (true, file)
    else writeChunks fault (index + 1) (file.give data) rest

/-- `file_handle.flush()` that returns. -/
def sync (file : OpenFile) : OpenFile where
  state := { file.state with written := file.state.written ++ file.pending }
  pending := []

/-- `_flush_file_buffer_locked`; the handlers append `meanwhile` after its first section. -/
def flushFileBufferLocked (file : OpenFile) (fault : IoFault) (meanwhile : List Received) :
    Flushed :=
  if file.state.buffer = [] then .skipped (file.append meanwhile)
  else
    let cleared := OpenFile.append { file with state := file.state.clear } meanwhile
    if file.state.fileHandle = true then
      match writeChunks fault 0 cleared file.state.buffer with
      | (true, written) => .raised written
      | (false, written) => if fault = .flush then .raised written else .done written.sync
    else .skipped cleared

/-! ## Lemmas -/

variable {file : OpenFile} {fault : IoFault} {meanwhile : List Received}

variable (chunks : List Received)

theorem buffer_foldl_append :
    ∀ state : FileState, (chunks.foldl FileState.append state).buffer = state.buffer ++ chunks := by
  induction chunks with
  | nil => exact fun state => (append_nil _).symm
  | cons chunk chunks ih =>
    intro state
    rw [foldl_cons, ih, FileState.append, append_assoc]
    rfl

theorem foldl_append_same :
    ∀ state : FileState, (chunks.foldl FileState.append state).fileHandle = state.fileHandle ∧
      (chunks.foldl FileState.append state).written = state.written := by
  induction chunks with
  | nil => exact fun _ => ⟨rfl, rfl⟩
  | cons chunk chunks ih => exact fun state => ih (state.append chunk)

@[simp] theorem buffer_append (file : OpenFile) (chunks : List Received) :
    (file.append chunks).state.buffer = file.state.buffer ++ chunks :=
  buffer_foldl_append chunks file.state

@[simp] theorem fileHandle_append (file : OpenFile) (chunks : List Received) :
    (file.append chunks).state.fileHandle = file.state.fileHandle :=
  (foldl_append_same chunks file.state).1

@[simp] theorem handed_append (file : OpenFile) (chunks : List Received) :
    (file.append chunks).handed = file.handed :=
  congrArg (· ++ file.pending) (foldl_append_same chunks file.state).2

/-- Writes that all return give the handle every chunk. -/
theorem writeChunks_of_return :
    ∀ (index : Nat) (file : OpenFile),
      (∀ k, k < chunks.length → fault ≠ .write (index + k)) →
        writeChunks fault index file chunks =
          (false, { file with pending := file.pending ++ chunks }) := by
  induction chunks with
  | nil =>
    intro index file _
    rw [append_nil]
    rfl
  | cons data rest ih =>
    intro index file hreturn
    have hfirst : fault ≠ .write index := hreturn 0 (Nat.zero_lt_succ _)
    rw [writeChunks, if_neg hfirst]
    rw [ih (index + 1) (file.give data) fun k hk => ?_]
    · rw [give, append_assoc, singleton_append]
    · have := hreturn (k + 1) (Nat.succ_lt_succ hk)
      rwa [Nat.add_comm k 1, ← Nat.add_assoc] at this

/-- A write that raises leaves the handle with the chunks before it. -/
theorem writeChunks_of_raise :
    ∀ (index k : Nat) (file : OpenFile), k < chunks.length →
      writeChunks (.write (index + k)) index file chunks =
        (true, { file with pending := file.pending ++ chunks.take k }) := by
  induction chunks with
  | nil => exact fun _ k _ hk => absurd hk (Nat.not_lt_zero k)
  | cons data rest ih =>
    intro index k file hk
    cases k with
    | zero =>
      rw [Nat.add_zero, writeChunks, if_pos rfl, take_zero, append_nil]
    | succ k =>
      have hne : IoFault.write (index + (k + 1)) ≠ .write index := by
        intro heq
        have := IoFault.write.inj heq
        omega
      rw [writeChunks, if_neg hne, Nat.add_comm k 1, ← Nat.add_assoc,
        ih (index + 1) k (file.give data) (Nat.lt_of_succ_lt_succ hk), give, Nat.add_comm 1 k,
        take_succ_cons, append_assoc, singleton_append]

/-! ## What a call that raised leaves -/

/-- The writes of the flush all return. -/
def WritesReturn (file : OpenFile) (fault : IoFault) : Prop :=
  file.state.fileHandle = true → ∀ index, index < file.state.buffer.length → fault ≠ .write index

/-- The file while the I/O of a flush runs, of whose chunks the first `k` are written. -/
def during (file : OpenFile) (meanwhile : List Received) (k : Nat) : OpenFile :=
  let cleared := OpenFile.append { file with state := file.state.clear } meanwhile
  { cleared with pending := cleared.pending ++ file.state.buffer.take k }

@[simp] theorem buffer_during (file : OpenFile) (meanwhile : List Received) (k : Nat) :
    (file.during meanwhile k).state.buffer = meanwhile :=
  buffer_foldl_append meanwhile file.state.clear

@[simp] theorem fileHandle_during (file : OpenFile) (meanwhile : List Received) (k : Nat) :
    (file.during meanwhile k).state.fileHandle = file.state.fileHandle :=
  (foldl_append_same meanwhile file.state.clear).1

@[simp] theorem pending_during (file : OpenFile) (meanwhile : List Received) (k : Nat) :
    (file.during meanwhile k).pending = file.pending ++ file.state.buffer.take k :=
  rfl

theorem handed_during (file : OpenFile) (meanwhile : List Received) (k : Nat) :
    (file.during meanwhile k).handed = file.handed ++ file.state.buffer.take k := by
  unfold handed
  rw [pending_during, ← append_assoc]
  congr 2
  exact (foldl_append_same meanwhile file.state.clear).2

/-- A flush whose writes return. -/
theorem flush_of_writesReturn (h : file.WritesReturn fault) (hbuffer : file.state.buffer ≠ [])
    (hopen : file.state.fileHandle = true) :
    file.flushFileBufferLocked fault meanwhile =
      if fault = .flush then .raised (file.during meanwhile file.state.buffer.length)
      else .done (file.during meanwhile file.state.buffer.length).sync := by
  unfold flushFileBufferLocked
  rw [if_neg hbuffer]
  dsimp only
  rw [if_pos hopen, writeChunks_of_return _ 0 _ fun k hk => by
    rw [Nat.zero_add]
    exact h hopen k hk]
  unfold during
  rw [take_length]

/-- A flush of which a write raises. -/
theorem flush_of_write_raises {index : Nat} (hopen : file.state.fileHandle = true)
    (hindex : index < file.state.buffer.length) :
    file.flushFileBufferLocked (.write index) meanwhile =
      .raised (file.during meanwhile index) := by
  have hbuffer : file.state.buffer ≠ [] := ne_nil_of_length_pos (Nat.zero_lt_of_lt hindex)
  have hwrites := writeChunks_of_raise file.state.buffer 0 index
    (OpenFile.append { file with state := file.state.clear } meanwhile) hindex
  rw [Nat.zero_add] at hwrites
  unfold flushFileBufferLocked
  rw [if_neg hbuffer]
  dsimp only
  rw [if_pos hopen, hwrites]
  rfl

/-- Where nothing is to flush no flush raises. -/
theorem flush_of_skip (fault : IoFault) (meanwhile : List Received)
    (h : file.state.buffer = [] ∨ file.state.fileHandle = false) :
    ∃ skipped, file.flushFileBufferLocked fault meanwhile = .skipped skipped := by
  unfold flushFileBufferLocked
  by_cases hbuffer : file.state.buffer = []
  · exact ⟨_, if_pos hbuffer⟩
  · have hclosed := h.resolve_left hbuffer
    refine ⟨_, (if_neg hbuffer).trans (if_neg ?_)⟩
    rw [hclosed]
    exact Bool.false_ne_true

/-- After a call that raised, the chunks that were not handed to the file handle are in the
buffer, ahead of those that arrived meanwhile, and the next flush that succeeds completes the
file. -/
def LosesNothing (file : OpenFile) (fault : IoFault) (meanwhile : List Received) : Prop :=
  ∀ raised, file.flushFileBufferLocked fault meanwhile = .raised raised →
    raised.state.buffer =
        file.state.buffer.drop (raised.pending.length - file.pending.length) ++ meanwhile ∧
      ∀ more meanwhile' later,
        (raised.append more).flushFileBufferLocked .none meanwhile' = .done later →
          later.state.written = file.handed ++ file.state.buffer ++ meanwhile ++ more

/-- A flush that succeeds puts what the handle was given and what was in the buffer into the
file. -/
theorem written_of_done {fault : IoFault} {later : OpenFile}
    (h : file.flushFileBufferLocked fault meanwhile = .done later) :
    later.handed = file.handed ++ file.state.buffer ∧ later.pending = [] ∧
      later.state.buffer = meanwhile ∧ later.state.fileHandle = file.state.fileHandle := by
  by_cases hskip : file.state.buffer = [] ∨ file.state.fileHandle = false
  · obtain ⟨skipped, heq⟩ := flush_of_skip fault meanwhile hskip
    rw [heq] at h
    cases h
  · obtain ⟨hbuffer, hclosed⟩ := not_or.mp hskip
    have hopen : file.state.fileHandle = true := Bool.of_not_eq_false hclosed
    by_cases hreturn : file.WritesReturn fault
    · rw [flush_of_writesReturn hreturn hbuffer hopen] at h
      split at h
      · cases h
      · cases h
        refine ⟨?_, rfl, buffer_during _ _ _, fileHandle_during _ _ _⟩
        have hhanded := handed_during file meanwhile file.state.buffer.length
        rw [take_length] at hhanded
        exact (append_nil _).trans hhanded
    · obtain ⟨-, index, hindex, hfault⟩ : file.state.fileHandle = true ∧
          ∃ index, index < file.state.buffer.length ∧ fault = .write index := by
        simpa only [WritesReturn, Classical.not_imp, not_forall, ne_eq, not_not,
          exists_prop] using hreturn
      rw [hfault, flush_of_write_raises hopen hindex] at h
      cases h

/-- A call that raises loses nothing exactly when its writes returned. -/
theorem losesNothing_iff (file : OpenFile) (fault : IoFault) (meanwhile : List Received) :
    file.LosesNothing fault meanwhile ↔ file.WritesReturn fault := by
  constructor
  · rintro h hopen index hindex rfl
    have hkept := (h _ (flush_of_write_raises hopen hindex)).1
    rw [buffer_during, pending_during, length_append, length_take,
      Nat.add_sub_cancel_left, Nat.min_eq_left (Nat.le_of_lt hindex)] at hkept
    have hlength := congrArg List.length hkept
    rw [length_append, length_drop] at hlength
    omega
  · intro hreturn raised hraised
    by_cases hskip : file.state.buffer = [] ∨ file.state.fileHandle = false
    · obtain ⟨skipped, heq⟩ := flush_of_skip fault meanwhile hskip
      rw [heq] at hraised
      cases hraised
    · obtain ⟨hbuffer, hclosed⟩ := not_or.mp hskip
      have hopen : file.state.fileHandle = true := Bool.of_not_eq_false hclosed
      rw [flush_of_writesReturn hreturn hbuffer hopen] at hraised
      split at hraised
      · cases hraised
        constructor
        · rw [buffer_during, pending_during, take_length, length_append,
            Nat.add_sub_cancel_left, drop_length, nil_append]
        · intro more meanwhile' later hlater
          obtain ⟨hhanded, hpending, -, -⟩ := written_of_done hlater
          rw [handed, hpending, append_nil, handed_append, handed_during, take_length,
            buffer_append, buffer_during] at hhanded
          rw [hhanded, append_assoc, append_assoc, append_assoc]
      · cases hraised

/-! ## Runs -/

/-- What happens to a file: a handler appends a chunk, or the periodic or the final flush
runs. -/
inductive FileEvent
  | append (chunk : Received)
  | flush (fault : IoFault) (meanwhile : List Received)
  deriving DecidableEq, Repr

/-- A file with the chunks that were acknowledged, in order. -/
structure Acknowledged where
  file : OpenFile
  acknowledged : List Received
  deriving DecidableEq, Repr

/-- The file that the call left, whether it raised or not. -/
def fileOf : Flushed → OpenFile
  | .skipped file => file
  | .done file => file
  | .raised file => file

/-- The file after one event. -/
def Acknowledged.after (s : Acknowledged) : FileEvent → Acknowledged
  | .append chunk => ⟨s.file.append [chunk], s.acknowledged ++ [chunk]⟩
  | .flush fault meanwhile =>
    ⟨fileOf (s.file.flushFileBufferLocked fault meanwhile), s.acknowledged ++ meanwhile⟩

/-- The writes of the event's flush all return. -/
def Acknowledged.WritesReturn (s : Acknowledged) : FileEvent → Prop
  | .append _ => True
  | .flush fault _ => s.file.WritesReturn fault

/-- A run from a file that was just opened, in which no write raises. -/
inductive Run : Acknowledged → Prop
  | opened : Run ⟨⟨.opened, []⟩, []⟩
  | event {s : Acknowledged} (run : Run s) (e : FileEvent) (h : s.WritesReturn e) :
      Run (s.after e)

/-- The handle is open, and what it was given and the buffer make up what was acknowledged. -/
structure Complete (s : Acknowledged) : Prop where
  isOpen : s.file.state.fileHandle = true
  all : s.file.handed ++ s.file.state.buffer = s.acknowledged

/-- A flush whose writes return keeps the chunks complete. -/
theorem Complete.flush {s : Acknowledged} (h : Complete s) {fault : IoFault}
    (hreturn : s.file.WritesReturn fault) (meanwhile : List Received) :
    Complete (s.after (.flush fault meanwhile)) := by
  unfold Acknowledged.after
  by_cases hbuffer : s.file.state.buffer = []
  · have hskip : s.file.flushFileBufferLocked fault meanwhile =
        .skipped (s.file.append meanwhile) := if_pos hbuffer
    dsimp only
    rw [hskip]
    refine ⟨(fileHandle_append s.file meanwhile).trans h.isOpen, ?_⟩
    show (s.file.append meanwhile).handed ++ (s.file.append meanwhile).state.buffer = _
    rw [handed_append, buffer_append, ← append_assoc, h.all]
  · have hall : s.file.handed ++ s.file.state.buffer ++ meanwhile = s.acknowledged ++ meanwhile :=
      congrArg (· ++ meanwhile) h.all
    have hduring := handed_during s.file meanwhile s.file.state.buffer.length
    rw [take_length] at hduring
    dsimp only
    rw [flush_of_writesReturn hreturn hbuffer h.isOpen]
    split
    · refine ⟨(fileHandle_during _ _ _).trans h.isOpen, ?_⟩
      show (s.file.during meanwhile s.file.state.buffer.length).handed ++
        (s.file.during meanwhile s.file.state.buffer.length).state.buffer = _
      rw [hduring, buffer_during, hall]
    · refine ⟨(fileHandle_during _ _ _).trans h.isOpen, ?_⟩
      have hsync : (s.file.during meanwhile s.file.state.buffer.length).sync.handed =
          (s.file.during meanwhile s.file.state.buffer.length).handed := append_nil _
      show (s.file.during meanwhile s.file.state.buffer.length).sync.handed ++
        (s.file.during meanwhile s.file.state.buffer.length).state.buffer = _
      rw [hsync, hduring, buffer_during, hall]

theorem Run.complete {s : Acknowledged} (h : Run s) : Complete s := by
  induction h with
  | opened => exact ⟨rfl, rfl⟩
  | @event s run e hreturn ih =>
    cases e with
    | append chunk =>
      refine ⟨(fileHandle_append s.file [chunk]).trans ih.isOpen, ?_⟩
      show (s.file.append [chunk]).handed ++ (s.file.append [chunk]).state.buffer = _
      rw [handed_append, buffer_append, ← append_assoc, ih.all]
      rfl
    | flush fault meanwhile => exact ih.flush hreturn meanwhile

/-- A call that raises loses nothing exactly when its writes returned and only the flush of the
handle raised; and in a run where this is so of every call before, a call that succeeds leaves
every chunk acknowledged before it in the file, once and in order. -/
theorem losesNothing_iff_writesReturn (file : OpenFile) (fault : IoFault)
    (meanwhile : List Received) :
    (LosesNothing file fault meanwhile ↔ WritesReturn file fault) ∧
      ∀ acknowledged later, Run ⟨file, acknowledged⟩ →
        file.flushFileBufferLocked fault meanwhile = .done later →
          later.state.written = acknowledged ∧ later.state.buffer = meanwhile := by
  refine ⟨losesNothing_iff file fault meanwhile, fun acknowledged later hrun hlater => ?_⟩
  obtain ⟨hhanded, hpending, hbuffer, -⟩ := written_of_done hlater
  have hall : file.handed ++ file.state.buffer = acknowledged := hrun.complete.all
  rw [handed, hpending, append_nil, hall] at hhanded
  exact ⟨hhanded, hbuffer⟩

/-- The second of two writes raises: the second chunk is in neither the handle nor the buffer,
and a flush that succeeds later writes the third one after the first. -/
theorem not_losesNothing_write :
    ¬ (∀ file fault meanwhile, LosesNothing file fault meanwhile) ∧
      fileOf ((fileOf (flushFileBufferLocked
        ⟨⟨true, [⟨0, "f", [1]⟩, ⟨0, "f", [2]⟩], 2, []⟩, []⟩ (.write 1)
          [⟨0, "f", [3]⟩])).flushFileBufferLocked .none []) =
        ⟨⟨true, [], 0, [⟨0, "f", [1]⟩, ⟨0, "f", [3]⟩]⟩, []⟩ := by
  refine ⟨fun h => ?_, by decide⟩
  have hkept := (h ⟨⟨true, [⟨0, "f", [1]⟩, ⟨0, "f", [2]⟩], 2, []⟩, []⟩ (.write 1)
    [⟨0, "f", [3]⟩] _ rfl).1
  revert hkept
  decide

end OpenFile

end ResiliencyExt.LogAggregation
