import Mathlib.Algebra.Ring.Nat
import ResiliencyExt.LogAggregation.RootServer
set_option autoImplicit false

/-!
# Log aggregation: what the log root delivers

A chunk that a handler has counted is in one of four places: in the file, in the
copy that the flush thread is about to write, in the copy that the final pass is
about to write, or in the buffer.  Laid end to end in this order, `pipeline`,
they hold the chunks of a stream in the order in which the stream delivered
them, as long as two things never happen.

* The final pass enters the `io_lock` section of a file while the flush thread
  is between its two steps on that file.  Nothing in the code excludes it, since
  the join of the flush thread may time out: the older copy is then written
  after the newer one, or finds the handle closed and is dropped.
* A handler appends to a file that the final pass has been past.  Handlers test
  `shutdown_event` before they append and not while they do.

`InTurn` excludes both, as a condition on the state before a step.
-/

namespace ResiliencyExt.LogAggregation

open Foundation List

/-- The chunks that one stream delivered. -/
def ofStream (stream : Nat) (received : List Received) : List Chunk :=
  (received.filter fun r => r.stream = stream).map Received.chunk

/-- The chunks that are for one file. -/
def forFile (path : String) (chunks : List Chunk) : List Chunk :=
  chunks.filter fun c => c.filePath = path

@[simp] theorem ofStream_nil (stream : Nat) : ofStream stream [] = [] := rfl

@[simp] theorem ofStream_append (stream : Nat) (xs ys : List Received) :
    ofStream stream (xs ++ ys) = ofStream stream xs ++ ofStream stream ys := by
  simp [ofStream]

theorem ofStream_singleton_self (stream : Nat) (chunk : Chunk) :
    ofStream stream [⟨stream, chunk⟩] = [chunk] := by
  simp [ofStream]

theorem ofStream_singleton_of_ne {stream other : Nat} (chunk : Chunk) (h : other ≠ stream) :
    ofStream stream [⟨other, chunk⟩] = [] := by
  simp [ofStream, h]

theorem forFile_concat_self {path : String} {chunk : Chunk} (chunks : List Chunk)
    (h : chunk.filePath = path) :
    forFile path (chunks ++ [chunk]) = forFile path chunks ++ [chunk] := by
  simp [forFile, h]

theorem forFile_concat_of_ne {path : String} {chunk : Chunk} (chunks : List Chunk)
    (h : chunk.filePath ≠ path) : forFile path (chunks ++ [chunk]) = forFile path chunks := by
  simp [forFile, h]

/-! ## Where the threads are -/

/-- What the flush thread has taken from a file's buffer and not written yet. -/
def FlushPc.held : FlushPc → String → List Received
  | .writing path bufferCopy _, p => if p = path then bufferCopy else []
  | _, _ => []

/-- The file that a handler is about to append to. -/
def HandlerPc.target : HandlerPc → Option String
  | .located chunk => some chunk.filePath
  | _ => none

namespace ShutdownPc

/-- The file whose `io_lock` the final pass is about to acquire. -/
def current : ShutdownPc → Option String
  | .writing path _ _ => some path
  | .closing path _ => some path
  | _ => none

/-- What the final pass has taken from a file's buffer and not written yet. -/
def held : ShutdownPc → String → List Received
  | .writing path bufferCopy _, p => if p = path then bufferCopy else []
  | _, _ => []

/-- The final pass has taken the file's buffer or found it empty, or has no such file in its
snapshot. -/
def reached : ShutdownPc → String → Prop
  | .checking todo, p => p ∉ todo
  | .taking path todo, p => p ∉ path :: todo
  | .writing _ _ todo, p => p ∉ todo
  | .closing _ todo, p => p ∉ todo
  | .clearing _ todo, p => p ∉ todo
  | .returned, _ => True
  | _, _ => False

/-- The final pass has closed the file, or has no such file in its snapshot. -/
def passed : ShutdownPc → String → Prop
  | .checking todo, p => p ∉ todo
  | .taking path todo, p => p ∉ path :: todo
  | .writing path _ todo, p => p ∉ path :: todo
  | .closing path todo, p => p ∉ path :: todo
  | .clearing _ todo, p => p ∉ todo
  | .returned, _ => True
  | _, _ => False

/-- The files that the final pass is at or has before it are different ones. -/
def Ordered : ShutdownPc → Prop
  | .checking todo => todo.Nodup
  | .taking path todo => (path :: todo).Nodup
  | .writing path _ todo => (path :: todo).Nodup
  | .closing path todo => (path :: todo).Nodup
  | .clearing path todo => (path :: todo).Nodup
  | _ => True

instance (pc : ShutdownPc) (path : String) : Decidable (pc.reached path) := by
  cases pc <;> unfold reached <;> infer_instance

theorem reached_of_passed {pc : ShutdownPc} {path : String} (h : pc.passed path) :
    pc.reached path := by
  cases pc with
  | writing => exact not_mem_of_not_mem_cons h
  | closing => exact not_mem_of_not_mem_cons h
  | _ => exact h

end ShutdownPc

namespace LogServer

/-- The final pass takes its turn on a file after the flush thread, and no handler appends to a
file after the final pass. -/
def InTurn (s : LogServer) : Action → Prop
  | .append stream => ∀ path ∈ (s.handlers stream).pc.target, ¬ s.shutdown.reached path
  | .finalWrite => ∀ path ∈ s.shutdown.current, s.flusher.held path = []
  | .close => ∀ path ∈ s.shutdown.current, s.flusher.held path = []
  | _ => True

instance (s : LogServer) (a : Action) : Decidable (s.InTurn a) := by
  cases a <;> unfold InTurn <;> infer_instance

/-- The chunks of a file on their way to it, the oldest first. -/
def pipeline (s : LogServer) (path : String) : List Received :=
  (s.fileState path).written ++ s.flusher.held path ++ s.shutdown.held path ++
    (s.fileState path).buffer

/-! ## The invariant -/

/-- What holds of one file in every run in which the final pass comes in turn. -/
structure FileInvariant (s : LogServer) (path : String) : Prop where
  delivered : ∀ stream, ofStream stream (s.pipeline path) =
    forFile path (s.handlers stream).counted
  drained : s.shutdown.reached path → (s.fileState path).buffer = []
  passed_of_closed : (s.fileState path).fileHandle = false → s.shutdown.passed path
  released : s.shutdown.passed path → s.flusher.held path = []
  known : path ∉ s.files.keys → s.flusher.held path = []

structure Invariant (s : LogServer) : Prop where
  file : ∀ path, s.FileInvariant path
  ordered : s.shutdown.Ordered

variable {s t : LogServer} {path : String} {stream : Nat}

theorem invariant_started : started.Invariant where
  file _ :=
    { delivered := fun _ => rfl
      drained := fun h => h.elim
      passed_of_closed := fun h => nomatch h
      released := fun h => h.elim
      known := fun _ => rfl }
  ordered := trivial

/-- The invariant reads a file through these five views. -/
theorem FileInvariant.congr (h : s.FileInvariant path)
    (hfile : t.fileState path = s.fileState path)
    (hkeys : path ∈ s.files.keys → path ∈ t.files.keys)
    (hheld : t.flusher.held path = s.flusher.held path)
    (hshutdown : t.shutdown.held path = s.shutdown.held path)
    (hreached : t.shutdown.reached path → s.shutdown.reached path)
    (hpassed : t.shutdown.passed path ↔ s.shutdown.passed path)
    (hcounted : ∀ stream, forFile path (t.handlers stream).counted =
      forFile path (s.handlers stream).counted) :
    t.FileInvariant path where
  delivered stream := by
    rw [pipeline, hfile, hheld, hshutdown, hcounted]
    exact h.delivered stream
  drained hr := hfile ▸ h.drained (hreached hr)
  passed_of_closed hc := hpassed.mpr (h.passed_of_closed (hfile ▸ hc))
  released hp := hheld ▸ h.released (hpassed.mp hp)
  known hk := hheld ▸ h.known (mt hkeys hk)

@[simp] theorem fileState_setFile (s : LogServer) (path p : String) (file : FileState) :
    (s.setFile path file).fileState p = if p = path then file else s.fileState p := by
  unfold setFile fileState
  rw [Dict.get?_set]
  split <;> rfl

@[simp] theorem goTo_flusher (s : LogServer) (stream : Nat) (pc : HandlerPc) :
    (s.goTo stream pc).flusher = s.flusher := rfl

@[simp] theorem goTo_shutdown (s : LogServer) (stream : Nat) (pc : HandlerPc) :
    (s.goTo stream pc).shutdown = s.shutdown := rfl

theorem handlers_setHandler_self (s : LogServer) (stream : Nat) (handler : Handler) :
    (s.setHandler stream handler).handlers stream = handler := by
  unfold setHandler
  exact Function.update_self stream handler s.handlers

theorem handlers_setHandler_of_ne (s : LogServer) {i : Nat} (handler : Handler) (h : i ≠ stream) :
    (s.setHandler stream handler).handlers i = s.handlers i := by
  unfold setHandler
  exact Function.update_of_ne h handler s.handlers

@[simp] theorem counted_goTo (s : LogServer) (stream i : Nat) (pc : HandlerPc) :
    ((s.goTo stream pc).handlers i).counted = (s.handlers i).counted := by
  by_cases h : i = stream
  · subst h
    rw [goTo, handlers_setHandler_self]
  · rw [goTo, handlers_setHandler_of_ne s _ h]

/-- Opening a file leaves what the paths stand for as it was. -/
theorem fileState_getOrCreateFileState (s : LogServer) (path p : String) :
    (s.getOrCreateFileState path).fileState p = s.fileState p := by
  unfold getOrCreateFileState
  split
  · rfl
  · rename_i hnew
    rw [fileState_setFile]
    split
    · rename_i heq
      subst heq
      have hnone : s.files.get? p = none :=
        Option.not_isSome_iff_eq_none.mp (mt Dict.get?_isSome_iff.mp hnew)
      rw [fileState, hnone]
      rfl
    · rfl

theorem mem_keys_getOrCreateFileState (s : LogServer) (path : String) {p : String}
    (h : p ∈ s.files.keys) : p ∈ (s.getOrCreateFileState path).files.keys := by
  unfold getOrCreateFileState
  split
  · exact h
  · exact Dict.mem_keys_set.mpr (.inr h)

/-- A file with something in its buffer is a key of `files`. -/
theorem mem_keys_of_buffer (h : (s.fileState path).buffer ≠ []) : path ∈ s.files.keys := by
  by_contra hnew
  have hnone : s.files.get? path = none :=
    Option.not_isSome_iff_eq_none.mp (mt Dict.get?_isSome_iff.mp hnew)
  rw [fileState, hnone] at h
  exact h rfl

/-! ## The steps of a handler -/

/-- A step that moves one handler and appends nothing. -/
theorem Invariant.goTo (h : s.Invariant) (stream : Nat) (pc : HandlerPc)
    (hfile : ∀ p, t.fileState p = s.fileState p) (hkeys : ∀ p ∈ s.files.keys, p ∈ t.files.keys)
    (hflusher : t.flusher = s.flusher) (hshutdown : t.shutdown = s.shutdown)
    (hhandlers : t.handlers = s.handlers) :
    (t.goTo stream pc).Invariant where
  file path := (h.file path).congr (hfile path) (hkeys path) (by rw [goTo_flusher, hflusher])
    (by rw [goTo_shutdown, hshutdown]) (by rw [goTo_shutdown, hshutdown]; exact id)
    (by rw [goTo_shutdown, hshutdown]) (fun i => by rw [counted_goTo, hhandlers])
  ordered := by
    rw [goTo_shutdown, hshutdown]
    exact h.ordered

theorem Invariant.connect (h : s.Invariant) (hstep : s.connect stream = some t) :
    t.Invariant := by
  unfold LogServer.connect at hstep
  split at hstep
  · cases hstep
    exact h.goTo stream _ (fun _ => rfl) (fun _ hp => hp) rfl rfl rfl
  · nomatch hstep

theorem Invariant.receive {chunk : Chunk} (h : s.Invariant)
    (hstep : s.receive stream chunk = some t) : t.Invariant := by
  have hgo : ∀ pc, (s.goTo stream pc).Invariant := fun pc =>
    h.goTo stream pc (fun _ => rfl) (fun _ hp => hp) rfl rfl rfl
  unfold LogServer.receive at hstep
  split at hstep
  · split at hstep
    · injection hstep with ht
      exact ht ▸ hgo _
    · split at hstep <;> injection hstep with ht <;> exact ht ▸ hgo _
  · nomatch hstep

theorem Invariant.locate (h : s.Invariant) (hstep : s.locate stream = some t) : t.Invariant := by
  unfold LogServer.locate at hstep
  split at hstep
  · rename_i chunk _
    cases hstep
    refine h.goTo stream _ (s.fileState_getOrCreateFileState chunk.filePath)
      (fun p hp => s.mem_keys_getOrCreateFileState chunk.filePath hp) ?_ ?_ ?_
    all_goals
      unfold getOrCreateFileState
      split <;> rfl
  · nomatch hstep

theorem Invariant.finish (h : s.Invariant) (hstep : s.finish stream = some t) : t.Invariant := by
  unfold LogServer.finish at hstep
  split at hstep
  · cases hstep
    exact h.goTo stream _ (fun _ => rfl) (fun _ hp => hp) rfl rfl rfl
  · nomatch hstep

theorem Invariant.interrupt (h : s.Invariant) (hstep : s.interrupt stream = some t) :
    t.Invariant := by
  unfold LogServer.interrupt at hstep
  split at hstep
  · cases hstep
    exact h.goTo stream _ (fun _ => rfl) (fun _ hp => hp) rfl rfl rfl
  · nomatch hstep

theorem Invariant.disconnect (h : s.Invariant) (hstep : s.disconnect stream = some t) :
    t.Invariant := by
  unfold LogServer.disconnect at hstep
  split at hstep
  · cases hstep
    exact h.goTo stream _ (fun _ => rfl) (fun _ hp => hp) rfl rfl rfl
  · nomatch hstep

/-- What the append of a chunk leaves in the places of the model that the invariant reads. -/
structure Appended (s t : LogServer) (stream : Nat) (chunk : Chunk) : Prop where
  file : t.fileState chunk.filePath = (s.fileState chunk.filePath).append ⟨stream, chunk⟩
  file_of_ne : ∀ path, path ≠ chunk.filePath → t.fileState path = s.fileState path
  keys : ∀ path, path ∈ t.files.keys ↔ path = chunk.filePath ∨ path ∈ s.files.keys
  counted : (t.handlers stream).counted = (s.handlers stream).counted ++ [chunk]
  handlers : ∀ i, i ≠ stream → t.handlers i = s.handlers i
  flusher : t.flusher = s.flusher
  shutdown : t.shutdown = s.shutdown

theorem appended_of_append (hstep : s.append stream = some t) :
    ∃ chunk, (s.handlers stream).pc = .located chunk ∧ s.Appended t stream chunk := by
  unfold LogServer.append at hstep
  split at hstep
  · rename_i chunk hpc
    cases hstep
    refine ⟨chunk, hpc, ?_⟩
    exact
      { file := (fileState_setFile s chunk.filePath chunk.filePath _).trans (if_pos rfl)
        file_of_ne := fun path hne =>
          (fileState_setFile s chunk.filePath path _).trans (if_neg hne)
        keys := fun path => Dict.mem_keys_set
        counted := by
          rw [handlers_setHandler_self]
          rfl
        handlers := fun i hi => handlers_setHandler_of_ne _ _ hi
        flusher := rfl
        shutdown := rfl }
  · nomatch hstep

/-- An append puts the chunk at the end of its file's pipeline and of its stream's count, and
the final pass has not been past the file. -/
theorem Invariant.append (h : s.Invariant) (hturn : s.InTurn (.append stream))
    (hstep : s.append stream = some t) : t.Invariant := by
  obtain ⟨chunk, hpc, happ⟩ := appended_of_append hstep
  have hunreached : ¬ s.shutdown.reached chunk.filePath :=
    hturn chunk.filePath (by rw [hpc]; rfl)
  have hcounted : ∀ i path, forFile path (t.handlers i).counted =
      forFile path (s.handlers i).counted ++
        if i = stream ∧ chunk.filePath = path then [chunk] else [] := by
    intro i path
    by_cases hi : i = stream
    · subst hi
      rw [happ.counted]
      by_cases hpath : chunk.filePath = path
      · rw [if_pos ⟨rfl, hpath⟩, forFile_concat_self _ hpath]
      · rw [if_neg (fun h => hpath h.2), forFile_concat_of_ne _ hpath, append_nil]
    · rw [happ.handlers i hi, if_neg (fun h => hi h.1), append_nil]
  refine ⟨fun path => ?_, happ.shutdown ▸ h.ordered⟩
  have hfile := h.file path
  by_cases hpath : chunk.filePath = path
  · subst hpath
    have hpipe : t.pipeline chunk.filePath = s.pipeline chunk.filePath ++ [⟨stream, chunk⟩] := by
      unfold pipeline
      rw [happ.file, happ.flusher, happ.shutdown]
      simp only [FileState.append, append_assoc]
    refine
      { delivered := fun i => ?_
        drained := fun hr => absurd (happ.shutdown ▸ hr) hunreached
        passed_of_closed := fun hc => ?_
        released := happ.flusher ▸ happ.shutdown ▸ hfile.released
        known := fun hk => absurd ((happ.keys _).mpr (.inl rfl)) hk }
    · rw [hpipe, ofStream_append, hfile.delivered i, hcounted]
      by_cases hi : stream = i
      · rw [hi, ofStream_singleton_self, if_pos ⟨rfl, rfl⟩]
      · rw [ofStream_singleton_of_ne chunk hi, if_neg (fun h => hi h.1.symm)]
    · rw [happ.file] at hc
      exact happ.shutdown ▸ hfile.passed_of_closed hc
  · refine hfile.congr (happ.file_of_ne path (Ne.symm hpath))
      (fun hp => (happ.keys path).mpr (.inr hp)) (by rw [happ.flusher]) (by rw [happ.shutdown])
      (by rw [happ.shutdown]; exact id) (by rw [happ.shutdown]) (fun i => ?_)
    rw [hcounted, if_neg (fun h => hpath h.2), append_nil]

/-! ## The steps of the flush thread -/

/-- A step of the flush thread that takes and writes nothing. -/
theorem Invariant.setFlusher (h : s.Invariant) (pc : FlushPc)
    (hheld : ∀ p, pc.held p = s.flusher.held p) :
    ({ s with flusher := pc } : LogServer).Invariant where
  file path := (h.file path).congr rfl id (hheld path) rfl id Iff.rfl fun _ => rfl
  ordered := h.ordered

/-- A step on one file leaves the invariant of the others to their views. -/
theorem Invariant.setFile (h : s.Invariant) (path : String) (file : FileState)
    (flusher : FlushPc) (shutdown : ShutdownPc)
    (hflusher : ∀ p, p ≠ path → flusher.held p = s.flusher.held p)
    (hshutdown : ∀ p, p ≠ path → shutdown.held p = s.shutdown.held p)
    (hreached : ∀ p, p ≠ path → shutdown.reached p → s.shutdown.reached p)
    (hpassed : ∀ p, p ≠ path → (shutdown.passed p ↔ s.shutdown.passed p))
    (hdelivered : file.written ++ flusher.held path ++ shutdown.held path ++ file.buffer =
      s.pipeline path)
    (hdrained : shutdown.reached path → file.buffer = [])
    (hclosed : file.fileHandle = false → shutdown.passed path)
    (hreleased : shutdown.passed path → flusher.held path = []) (hordered : shutdown.Ordered) :
    ({ s.setFile path file with flusher := flusher, shutdown := shutdown } : LogServer).Invariant
    where
  file p := by
    have hkeys : ∀ k, k ∈ (s.setFile path file).files.keys ↔ k = path ∨ k ∈ s.files.keys :=
      fun k => Dict.mem_keys_set
    have hself : (s.setFile path file).fileState path = file :=
      (s.fileState_setFile path path file).trans (if_pos rfl)
    by_cases hp : p = path
    · subst hp
      exact
        { delivered := fun i => by
            have hpipe : ({ s.setFile p file with flusher := flusher, shutdown := shutdown } :
                LogServer).pipeline p = s.pipeline p :=
              (congrArg (fun f : FileState =>
                f.written ++ flusher.held p ++ shutdown.held p ++ f.buffer) hself).trans hdelivered
            rw [hpipe]
            exact (h.file p).delivered i
          drained := fun hr => (congrArg FileState.buffer hself).trans (hdrained hr)
          passed_of_closed := fun hc =>
            hclosed ((congrArg FileState.fileHandle hself).symm.trans hc)
          released := hreleased
          known := fun hk => absurd ((hkeys p).mpr (.inl rfl)) hk }
    · exact (h.file p).congr ((s.fileState_setFile path p file).trans (if_neg hp))
        (fun hk => (hkeys p).mpr (.inr hk)) (hflusher p hp) (hshutdown p hp) (hreached p hp)
        (hpassed p hp) fun _ => rfl
  ordered := hordered

theorem Invariant.tick (h : s.Invariant) (hstep : s.tick = some t) : t.Invariant := by
  unfold LogServer.tick at hstep
  split at hstep
  · rename_i hpc
    cases hstep
    refine h.setFlusher _ fun p => ?_
    rw [hpc]
    split <;> rfl
  · nomatch hstep

theorem Invariant.snapshot (h : s.Invariant) (hstep : s.snapshot = some t) : t.Invariant := by
  unfold LogServer.snapshot at hstep
  split at hstep
  · rename_i hpc
    cases hstep
    exact h.setFlusher _ fun p => by rw [hpc]; rfl
  · nomatch hstep

theorem Invariant.check (h : s.Invariant) (hstep : s.check = some t) : t.Invariant := by
  unfold LogServer.check at hstep
  split at hstep
  · rename_i hpc
    cases hstep
    exact h.setFlusher _ fun p => by rw [hpc]; rfl
  · rename_i hpc
    cases hstep
    refine h.setFlusher _ fun p => ?_
    rw [hpc]
    split <;> rfl
  · nomatch hstep

theorem FlushPc.held_writing_self (path : String) (bufferCopy : List Received)
    (todo : List String) : (FlushPc.writing path bufferCopy todo).held path = bufferCopy :=
  if_pos rfl

theorem FlushPc.held_writing_of_ne {p : String} (bufferCopy : List Received) (todo : List String)
    (h : p ≠ path) : (FlushPc.writing path bufferCopy todo).held p = [] :=
  if_neg h

/-- Before the final pass has reached a file it holds nothing of it. -/
theorem Invariant.held_of_not_reached (h : s.Invariant) (hpath : ¬ s.shutdown.reached path) :
    s.shutdown.held path = [] := by
  have hordered := h.ordered
  cases hpc : s.shutdown with
  | writing current bufferCopy todo =>
    rw [hpc] at hordered hpath
    have hmem : path ∈ todo := Decidable.not_not.mp hpath
    have hne : path ≠ current := fun heq => (nodup_cons.mp hordered).1 (heq ▸ hmem)
    exact if_neg hne
  | _ => rfl

theorem Invariant.take (h : s.Invariant) (hstep : s.take = some t) : t.Invariant := by
  unfold LogServer.take at hstep
  split at hstep
  · rename_i path todo hpc
    split at hstep
    · cases hstep
      exact h.setFlusher _ fun p => by rw [hpc]; rfl
    · rename_i hbuffer
      cases hstep
      have hunreached : ¬ s.shutdown.reached path := mt (h.file path).drained hbuffer
      have hflusher : ∀ p, s.flusher.held p = [] := fun p => by rw [hpc]; rfl
      have hshutdown := h.held_of_not_reached hunreached
      refine h.setFile path _ _ s.shutdown ?_ (fun _ _ => rfl) (fun _ _ => id)
        (fun _ _ => Iff.rfl) ?_ (fun _ => rfl) (h.file path).passed_of_closed ?_ h.ordered
      · intro p hp
        rw [FlushPc.held_writing_of_ne _ _ hp, hflusher]
      · rw [pipeline, FlushPc.held_writing_self, hflusher, hshutdown]
        simp only [FileState.clear, append_nil]
      · intro hp
        exact absurd (ShutdownPc.reached_of_passed hp) hunreached
  · nomatch hstep

/-- The flush thread writes a file that is still open, unless it holds nothing of it. -/
theorem Invariant.write (h : s.Invariant) (hstep : s.write = some t) : t.Invariant := by
  unfold LogServer.write at hstep
  split at hstep
  · rename_i path bufferCopy todo hpc
    cases hstep
    have hfile := h.file path
    have hheld : s.flusher.held path = bufferCopy := by
      rw [hpc]
      exact FlushPc.held_writing_self path bufferCopy todo
    have hwritten : ((s.fileState path).write bufferCopy).written =
        (s.fileState path).written ++ bufferCopy := by
      unfold FileState.write
      by_cases hopen : (s.fileState path).fileHandle = true
      · rw [if_pos hopen]
      · have hnone := hfile.released (hfile.passed_of_closed (Bool.eq_false_iff.mpr hopen))
        rw [if_neg hopen, ← hheld, hnone, append_nil]
    have hsame : ((s.fileState path).write bufferCopy).buffer = (s.fileState path).buffer ∧
        ((s.fileState path).write bufferCopy).fileHandle = (s.fileState path).fileHandle := by
      unfold FileState.write
      split <;> exact ⟨rfl, rfl⟩
    refine h.setFile path _ _ s.shutdown ?_ (fun _ _ => rfl) (fun _ _ => id)
      (fun _ _ => Iff.rfl) ?_ ?_ ?_ (fun _ => rfl) h.ordered
    · intro p hp
      rw [hpc, FlushPc.held_writing_of_ne _ _ hp]
      rfl
    · rw [pipeline, hwritten, hsame.1, hheld]
      exact congrArg (· ++ s.shutdown.held path ++ (s.fileState path).buffer)
        (append_nil _)
    · rw [hsame.1]
      exact hfile.drained
    · rw [hsame.2]
      exact hfile.passed_of_closed
  · nomatch hstep

/-! ## The steps of the final pass -/

/-- A step of the thread that shuts down which takes, writes and closes nothing. -/
theorem Invariant.setShutdown (h : s.Invariant) (pc : ShutdownPc)
    (hheld : ∀ p, pc.held p = s.shutdown.held p)
    (hreached : ∀ p, pc.reached p → (s.fileState p).buffer = [])
    (hpassed : ∀ p, s.shutdown.passed p → pc.passed p)
    (hreleased : ∀ p, pc.passed p → s.flusher.held p = []) (hordered : pc.Ordered) :
    ({ s with shutdown := pc } : LogServer).Invariant where
  file path :=
    { delivered := fun i => by
        have hpipe : ({ s with shutdown := pc } : LogServer).pipeline path = s.pipeline path :=
          congrArg (fun held => (s.fileState path).written ++ s.flusher.held path ++ held ++
            (s.fileState path).buffer) (hheld path)
        rw [hpipe]
        exact (h.file path).delivered i
      drained := hreached path
      passed_of_closed := fun hc => hpassed path ((h.file path).passed_of_closed hc)
      released := hreleased path
      known := (h.file path).known }
  ordered := hordered

/-- Before the final pass the thread that shuts down is at no file. -/
theorem Invariant.setBefore (h : s.Invariant) (pc : ShutdownPc)
    (hheld : ∀ p, pc.held p = s.shutdown.held p) (hreached : ∀ p, ¬ pc.reached p)
    (hpassed : ∀ p, ¬ s.shutdown.passed p) (hordered : pc.Ordered) :
    ({ s with shutdown := pc } : LogServer).Invariant :=
  h.setShutdown pc hheld (fun p hp => absurd hp (hreached p)) (fun p hp => absurd hp (hpassed p))
    (fun p hp => absurd (ShutdownPc.reached_of_passed hp) (hreached p)) hordered

theorem Invariant.gracefulShutdown (h : s.Invariant) (hstep : s.gracefulShutdown = some t) :
    t.Invariant := by
  unfold LogServer.gracefulShutdown at hstep
  split at hstep
  · rename_i hpc
    cases hstep
    have hset := h.setBefore .graceful (fun p => by rw [hpc]; rfl) (fun _ => id)
      (fun _ => by rw [hpc]; exact id) trivial
    exact ⟨fun path => (hset.file path).congr rfl id rfl rfl id Iff.rfl fun _ => rfl, trivial⟩
  · nomatch hstep

theorem Invariant.awaitClients {timedOut : Bool} (h : s.Invariant)
    (hstep : s.awaitClients timedOut = some t) : t.Invariant := by
  unfold LogServer.awaitClients at hstep
  split at hstep
  · rename_i hpc
    cases hstep
    split
    · exact h.setBefore .called (fun p => by rw [hpc]; rfl) (fun _ => id)
        (fun _ => by rw [hpc]; exact id) trivial
    · exact h
  · nomatch hstep

theorem Invariant.callShutdown (h : s.Invariant) (hstep : s.callShutdown = some t) :
    t.Invariant := by
  unfold LogServer.callShutdown at hstep
  split at hstep
  · rename_i hpc
    cases hstep
    exact h.setBefore .called (fun p => by rw [hpc]; rfl) (fun _ => id)
      (fun _ => by rw [hpc]; exact id) trivial
  · nomatch hstep

theorem Invariant.setEvent (h : s.Invariant) (hstep : s.setEvent = some t) : t.Invariant := by
  unfold LogServer.setEvent at hstep
  split at hstep
  · rename_i hpc
    cases hstep
    have hset := h.setBefore .joining (fun p => by rw [hpc]; rfl) (fun _ => id)
      (fun _ => by rw [hpc]; exact id) trivial
    exact ⟨fun path => (hset.file path).congr rfl id rfl rfl id Iff.rfl fun _ => rfl, trivial⟩
  · nomatch hstep

theorem Invariant.join {timedOut : Bool} (h : s.Invariant) (hstep : s.join timedOut = some t) :
    t.Invariant := by
  unfold LogServer.join at hstep
  split at hstep
  · rename_i hpc
    split at hstep
    · cases hstep
      exact h.setBefore .joined (fun p => by rw [hpc]; rfl) (fun _ => id)
        (fun _ => by rw [hpc]; exact id) trivial
    · nomatch hstep
  · nomatch hstep

/-- A file that the snapshot leaves out has an empty buffer and no flush in it. -/
theorem Invariant.finalSnapshot (h : s.Invariant) (hstep : s.finalSnapshot = some t) :
    t.Invariant := by
  unfold LogServer.finalSnapshot at hstep
  split at hstep
  · rename_i hpc
    cases hstep
    refine h.setShutdown (.checking s.files.keys) (fun p => by rw [hpc]; rfl) (fun p hp => ?_)
      (fun p hp => ?_) (fun p hp => (h.file p).known hp) s.files.nodup_keys
    · by_contra hbuffer
      exact hp (mem_keys_of_buffer hbuffer)
    · rw [hpc] at hp
      exact hp.elim
  · nomatch hstep

theorem Invariant.finalCheck (h : s.Invariant) (hstep : s.finalCheck = some t) :
    t.Invariant := by
  unfold LogServer.finalCheck at hstep
  split at hstep
  · rename_i hpc
    cases hstep
    have hall : ∀ p, s.shutdown.passed p := fun p => by
      rw [hpc]
      exact not_mem_nil
    exact h.setShutdown .returned (fun p => by rw [hpc]; rfl)
      (fun p _ => (h.file p).drained (ShutdownPc.reached_of_passed (hall p))) (fun _ _ => trivial)
      (fun p _ => (h.file p).released (hall p)) trivial
  · rename_i path todo hpc
    cases hstep
    have hheld : ∀ p, s.shutdown.held p = [] := fun p => by rw [hpc]; rfl
    have hpassed : ∀ p, s.shutdown.passed p ↔ p ∉ path :: todo := fun p => by rw [hpc]; rfl
    have hordered : (path :: todo).Nodup := by
      have hord := h.ordered
      rwa [hpc] at hord
    have hreached : ∀ p, p ∉ path :: todo → (s.fileState p).buffer = [] := fun p hp =>
      (h.file p).drained (ShutdownPc.reached_of_passed ((hpassed p).mpr hp))
    split
    · rename_i hbuffer
      refine h.setShutdown (.closing path todo) (fun p => (hheld p).symm) (fun p hp => ?_)
        (fun p => (hpassed p).mp) (fun p hp => (h.file p).released ((hpassed p).mpr hp)) hordered
      by_cases heq : p = path
      · rw [heq, hbuffer]
      · exact hreached p (not_mem_cons_of_ne_of_not_mem heq hp)
    · exact h.setShutdown (.taking path todo) (fun p => (hheld p).symm) hreached
        (fun p => (hpassed p).mp) (fun p hp => (h.file p).released ((hpassed p).mpr hp)) hordered
  · nomatch hstep

theorem Invariant.finalTake (h : s.Invariant) (hstep : s.finalTake = some t) : t.Invariant := by
  unfold LogServer.finalTake at hstep
  split at hstep
  · rename_i path todo hpc
    have hheld : ∀ p, s.shutdown.held p = [] := fun p => by rw [hpc]; rfl
    have hpassed : ∀ p, s.shutdown.passed p ↔ p ∉ path :: todo := fun p => by rw [hpc]; rfl
    have hreached : ∀ p, s.shutdown.reached p ↔ p ∉ path :: todo := fun p => by rw [hpc]; rfl
    have hordered : (path :: todo).Nodup := by
      have hord := h.ordered
      rwa [hpc] at hord
    split at hstep
    · rename_i hbuffer
      cases hstep
      refine h.setShutdown (.closing path todo) (fun p => (hheld p).symm) (fun p hp => ?_)
        (fun p => (hpassed p).mp) (fun p hp => (h.file p).released ((hpassed p).mpr hp)) hordered
      by_cases heq : p = path
      · rw [heq, hbuffer]
      · exact (h.file p).drained
          ((hreached p).mpr (not_mem_cons_of_ne_of_not_mem heq hp))
    · cases hstep
      refine h.setFile path _ s.flusher (.writing path (s.fileState path).buffer todo)
        (fun _ _ => rfl) (fun p hp => ?_) (fun p hp hr => ?_) (fun p _ => (hpassed p).symm) ?_
        (fun _ => rfl) (fun hc => ?_) (fun hp => (h.file path).released ((hpassed path).mpr hp))
        hordered
      · rw [hheld]
        exact if_neg hp
      · exact (hreached p).mpr (not_mem_cons_of_ne_of_not_mem hp hr)
      · have hself : (ShutdownPc.writing path (s.fileState path).buffer todo).held path =
            (s.fileState path).buffer := if_pos rfl
        rw [pipeline, hself, hheld]
        simp only [FileState.clear, append_nil]
      · exact (hpassed path).mp ((h.file path).passed_of_closed hc)
  · nomatch hstep

/-- The final pass writes what it holds after all that the flush thread took. -/
theorem Invariant.finalWrite (h : s.Invariant) (hturn : s.InTurn .finalWrite)
    (hstep : s.finalWrite = some t) : t.Invariant := by
  unfold LogServer.finalWrite at hstep
  split at hstep
  · rename_i path bufferCopy todo hpc
    cases hstep
    have hidle : s.flusher.held path = [] := hturn path (by rw [hpc]; rfl)
    have hheld : s.shutdown.held path = bufferCopy := by
      rw [hpc]
      exact if_pos rfl
    have hpassed : ∀ p, s.shutdown.passed p ↔ p ∉ path :: todo := fun p => by rw [hpc]; rfl
    have hreached : ∀ p, s.shutdown.reached p ↔ p ∉ todo := fun p => by rw [hpc]; rfl
    have hordered : (path :: todo).Nodup := by
      have hord := h.ordered
      rwa [hpc] at hord
    have hopen : (s.fileState path).fileHandle = true := by
      by_contra hc
      exact (hpassed path).mp ((h.file path).passed_of_closed (Bool.eq_false_iff.mpr hc))
        mem_cons_self
    unfold FileState.write
    rw [if_pos hopen]
    refine h.setFile path _ s.flusher (.closing path todo) (fun _ _ => rfl) (fun p hp => ?_)
      (fun p _ => (hreached p).mpr) (fun p _ => (hpassed p).symm) ?_
      (fun hr => (h.file path).drained ((hreached path).mpr hr))
      (fun hc => absurd (hopen.symm.trans hc) Bool.true_eq_false.mp) (fun _ => hidle) hordered
    · rw [hpc]
      exact (if_neg hp).symm
    · rw [pipeline, hidle, hheld]
      simp only [ShutdownPc.held, append_nil]
  · nomatch hstep

/-- The final pass closes a file after all that the flush thread took. -/
theorem Invariant.close (h : s.Invariant) (hturn : s.InTurn .close) (hstep : s.close = some t) :
    t.Invariant := by
  unfold LogServer.close at hstep
  split at hstep
  · rename_i path todo hpc
    cases hstep
    have hidle : s.flusher.held path = [] := hturn path (by rw [hpc]; rfl)
    have hheld : ∀ p, s.shutdown.held p = [] := fun p => by rw [hpc]; rfl
    have hpassed : ∀ p, s.shutdown.passed p ↔ p ∉ path :: todo := fun p => by rw [hpc]; rfl
    have hreached : ∀ p, s.shutdown.reached p ↔ p ∉ todo := fun p => by rw [hpc]; rfl
    have hordered : (path :: todo).Nodup := by
      have hord := h.ordered
      rwa [hpc] at hord
    refine h.setFile path _ s.flusher (.clearing path todo) (fun _ _ => rfl)
      (fun p _ => (hheld p).symm) (fun p _ => (hreached p).mpr) (fun p hp => ?_) ?_
      (fun hr => (h.file path).drained ((hreached path).mpr hr))
      (fun _ => (nodup_cons.mp hordered).1) (fun _ => hidle) hordered
    · rw [hpassed, mem_cons, not_or]
      exact (and_iff_right hp).symm
    · rw [pipeline, hheld]
      rfl
  · nomatch hstep

/-- What the final pass clears has been empty since it took the buffer. -/
theorem Invariant.finalClear (h : s.Invariant) (hstep : s.finalClear = some t) :
    t.Invariant := by
  unfold LogServer.finalClear at hstep
  split at hstep
  · rename_i path todo hpc
    cases hstep
    have hheld : ∀ p, s.shutdown.held p = [] := fun p => by rw [hpc]; rfl
    have hpassed : ∀ p, s.shutdown.passed p ↔ p ∉ todo := fun p => by rw [hpc]; rfl
    have hreached : ∀ p, s.shutdown.reached p ↔ p ∉ todo := fun p => by rw [hpc]; rfl
    have hordered : (path :: todo).Nodup := by
      have hord := h.ordered
      rwa [hpc] at hord
    have hnew : path ∉ todo := (nodup_cons.mp hordered).1
    have hbuffer := (h.file path).drained ((hreached path).mpr hnew)
    refine h.setFile path _ s.flusher (.checking todo) (fun _ _ => rfl)
      (fun p _ => (hheld p).symm) (fun p _ => (hreached p).mpr) (fun p _ => (hpassed p).symm) ?_
      (fun _ => rfl) (fun _ => hnew)
      (fun _ => (h.file path).released ((hpassed path).mpr hnew)) (nodup_cons.mp hordered).2
    rw [pipeline, hheld, hbuffer]
    rfl
  · nomatch hstep

/-! ## Runs -/

/-- Every step in turn keeps the invariant. -/
theorem Invariant.step {a : Action} (h : s.Invariant) (hturn : s.InTurn a)
    (hstep : system.step s a = some t) : t.Invariant := by
  cases a with
  | connect stream => exact h.connect hstep
  | receive stream chunk => exact h.receive hstep
  | locate stream => exact h.locate hstep
  | append stream => exact h.append hturn hstep
  | finish stream => exact h.finish hstep
  | interrupt stream => exact h.interrupt hstep
  | disconnect stream => exact h.disconnect hstep
  | tick => exact h.tick hstep
  | snapshot => exact h.snapshot hstep
  | check => exact h.check hstep
  | take => exact h.take hstep
  | write => exact h.write hstep
  | gracefulShutdown => exact h.gracefulShutdown hstep
  | awaitClients timedOut => exact h.awaitClients hstep
  | callShutdown => exact h.callShutdown hstep
  | setEvent => exact h.setEvent hstep
  | join timedOut => exact h.join hstep
  | finalSnapshot => exact h.finalSnapshot hstep
  | finalCheck => exact h.finalCheck hstep
  | finalTake => exact h.finalTake hstep
  | finalWrite => exact h.finalWrite hturn hstep
  | close => exact h.close hturn hstep
  | finalClear => exact h.finalClear hstep

theorem invariant_of_reachable (hs : system.Reachable InTurn s) : s.Invariant :=
  hs.invariant (fun _ hinit => hinit ▸ invariant_started) fun _ _ _ h hturn hstep =>
    h.step hturn hstep

end LogServer

/-- The counters count the chunks of `counted`, and a response carries the count of bytes. -/
structure Handler.Consistent (handler : Handler) : Prop where
  bytes : handler.clientBytes = (handler.counted.map fun c => c.data.length).sum
  chunks : handler.clientChunks = handler.counted.length
  leaving : ∀ n, handler.pc = .leaving (.ok n) → n = handler.clientBytes
  left : ∀ n, handler.pc = .left (.ok n) → n = handler.clientBytes

namespace LogServer

theorem consistent_goTo {s t : LogServer} (h : ∀ i, (s.handlers i).Consistent)
    (hhandlers : t.handlers = s.handlers) (stream : Nat) (pc : HandlerPc)
    (hleaving : ∀ n, pc = .leaving (.ok n) → n = (s.handlers stream).clientBytes)
    (hleft : ∀ n, pc = .left (.ok n) → n = (s.handlers stream).clientBytes) (i : Nat) :
    ((t.goTo stream pc).handlers i).Consistent := by
  by_cases hi : i = stream
  · subst hi
    rw [goTo, handlers_setHandler_self, hhandlers]
    exact ⟨(h i).bytes, (h i).chunks, hleaving, hleft⟩
  · rw [goTo, handlers_setHandler_of_ne t _ hi, hhandlers]
    exact h i

theorem consistent_append {s t : LogServer} {stream : Nat} (h : ∀ i, (s.handlers i).Consistent)
    (hstep : s.append stream = some t) (i : Nat) : (t.handlers i).Consistent := by
  unfold LogServer.append at hstep
  split at hstep
  · rename_i chunk hpc
    cases hstep
    by_cases hi : i = stream
    · subst hi
      rw [handlers_setHandler_self]
      exact
        { bytes := by
            rw [Handler.count, (h i).bytes, map_append, sum_append]
            rfl
          chunks := by
            rw [Handler.count, (h i).chunks, length_append]
            rfl
          leaving := fun _ hpc => nomatch hpc
          left := fun _ hpc => nomatch hpc }
    · rw [handlers_setHandler_of_ne _ _ hi]
      exact h i
  · nomatch hstep

/-- Every step keeps the counters of every handler. -/
theorem consistent_step {s t : LogServer} {a : Action} (h : ∀ i, (s.handlers i).Consistent)
    (hstep : system.step s a = some t) : ∀ i, (t.handlers i).Consistent := by
  cases a
  case append stream => exact consistent_append h hstep
  case disconnect stream =>
    simp only [system, step, disconnect] at hstep
    split at hstep
    · rename_i outcome hpc
      cases hstep
      refine consistent_goTo h rfl stream _ (fun _ hleaving => nomatch hleaving) fun n hleft => ?_
      injection hleft with hok
      exact (h stream).leaving n (hok ▸ hpc)
    · nomatch hstep
  case connect stream =>
    simp only [system, step, connect] at hstep
    split at hstep
    · cases hstep
      exact consistent_goTo h rfl stream _ (fun _ hpc => nomatch hpc) fun _ hpc => nomatch hpc
    · nomatch hstep
  case receive stream chunk =>
    have hgo := fun pc hleaving hleft => consistent_goTo h rfl stream pc hleaving hleft
    simp only [system, step, receive] at hstep
    repeat' split at hstep
    · cases hstep
      exact hgo _ (fun n hpc => by injection hpc with hok; injection hok with hn; exact hn.symm)
        fun _ hpc => nomatch hpc
    · cases hstep
      exact hgo _ (fun _ hpc => nomatch hpc) fun _ hpc => nomatch hpc
    · cases hstep
      exact hgo _ (fun _ hpc => nomatch hpc) fun _ hpc => nomatch hpc
    · nomatch hstep
  case locate stream =>
    simp only [system, step, locate] at hstep
    split at hstep
    · cases hstep
      refine consistent_goTo h ?_ stream _ (fun _ hpc => nomatch hpc) fun _ hpc => nomatch hpc
      unfold getOrCreateFileState
      split <;> rfl
    · nomatch hstep
  case finish stream =>
    simp only [system, step, finish] at hstep
    split at hstep
    · cases hstep
      exact consistent_goTo h rfl stream _
        (fun n hpc => by injection hpc with hok; injection hok with hn; exact hn.symm)
        fun _ hpc => nomatch hpc
    · nomatch hstep
  case interrupt stream =>
    simp only [system, step, interrupt] at hstep
    split at hstep
    · cases hstep
      exact consistent_goTo h rfl stream _ (fun _ hpc => nomatch hpc) fun _ hpc => nomatch hpc
    · nomatch hstep
  -- The other threads leave the handlers alone.
  all_goals
    simp only [system, step, tick, snapshot, check, take, write, gracefulShutdown, awaitClients,
      callShutdown, setEvent, join, finalSnapshot, finalCheck, finalTake, finalWrite, close,
      finalClear] at hstep
    repeat' split at hstep
    all_goals cases hstep <;> exact h

theorem consistent_of_reachable {C : LogServer → Action → Prop} {s : LogServer}
    (hs : system.Reachable C s) : ∀ i, (s.handlers i).Consistent := by
  refine hs.invariant ?_ fun _ _ _ h _ hstep => consistent_step h hstep
  rintro s rfl i
  exact
    { bytes := rfl
      chunks := rfl
      leaving := fun _ hpc => nomatch hpc
      left := fun _ hpc => nomatch hpc }

/-! ## Delivery -/

/-- While the final pass comes in turn, a file holds of each stream a beginning of what the
stream's handler counted for it, in order and without repetition.  When `shutdown` returns it
holds all of it, and what a response reports is what has been counted. -/
theorem counted_chunks_written {s : LogServer} (hs : system.Reachable InTurn s) (stream : Nat)
    (path : String) :
    ofStream stream (s.fileState path).written <+:
        forFile path (s.handlers stream).counted ∧
      (s.shutdown = .returned → ofStream stream (s.fileState path).written =
        forFile path (s.handlers stream).counted) ∧
      (s.handlers stream).clientBytes =
        ((s.handlers stream).counted.map fun c => c.data.length).sum ∧
      ∀ n, (s.handlers stream).pc = .left (.ok n) →
        n = ((s.handlers stream).counted.map fun c => c.data.length).sum := by
  have hfile := (invariant_of_reachable hs).file path
  have hconsistent := consistent_of_reachable hs stream
  have hdelivered := hfile.delivered stream
  simp only [pipeline, ofStream_append, append_assoc] at hdelivered
  refine ⟨⟨_, hdelivered⟩, fun hreturned => ?_, hconsistent.bytes, fun n hn =>
    (hconsistent.left n hn).trans hconsistent.bytes⟩
  have hflushed : s.flusher.held path = [] := hfile.released (by rw [hreturned]; trivial)
  have hfinal : s.shutdown.held path = [] := by
    rw [hreturned]
    rfl
  have hbuffer : (s.fileState path).buffer = [] := hfile.drained (by rw [hreturned]; trivial)
  rw [hflushed, hfinal, hbuffer] at hdelivered
  simpa only [ofStream_nil, append_nil] using hdelivered

/-- One stream delivers a chunk for `f`. -/
def deliver (chunk : Chunk) : List Action :=
  [.receive 0 chunk, .locate 0, .append 0]

/-- The flush thread takes the buffer of the only file, and the join on it times out. -/
def flushUntilTaken : List Action := [.tick, .snapshot, .check, .take]

def stopWaiting : List Action := [.callShutdown, .setEvent, .join true, .finalSnapshot]

/-- A flush that the join does not wait for is written before the final pass comes to the
file, and both chunks are in the file. -/
theorem counted_chunks_written_timeout : ∃ s : LogServer, s.shutdown = .returned ∧
    ofStream 0 (s.fileState "f").written = [⟨"f", [1]⟩, ⟨"f", [2]⟩] := by
  have hrun : (system.execute InTurn started ([.connect 0] ++ deliver ⟨"f", [1]⟩ ++
      flushUntilTaken ++ deliver ⟨"f", [2]⟩ ++ stopWaiting ++
      [.finalCheck, .finalTake, .write, .finalWrite, .close, .finalClear, .finalCheck])).any
        (fun s => decide (s.shutdown = .returned ∧
          (s.handlers 0).counted = [⟨"f", [1]⟩, ⟨"f", [2]⟩])) = true := by
    decide +kernel
  obtain ⟨s, hs, htest⟩ := System.exists_reachable_of_execute rfl hrun
  obtain ⟨hreturned, hcounted⟩ := of_decide_eq_true htest
  have hwritten := (counted_chunks_written hs 0 "f").2.1 hreturned
  rw [hcounted] at hwritten
  exact ⟨s, hreturned, hwritten⟩

/-- Out of turn, a taken buffer is dropped at the closed handle, or written after a newer one;
and a chunk that is appended after the final pass is counted, reported and never written. -/
theorem counted_chunk_lost :
    (∃ s : LogServer, system.Reachable (fun _ _ => True) s ∧ s.shutdown = .returned ∧
      (s.handlers 0).counted = [⟨"f", [1]⟩] ∧ (s.fileState "f").written = []) ∧
    (∃ s : LogServer, system.Reachable (fun _ _ => True) s ∧ s.shutdown = .returned ∧
      (s.handlers 0).counted = [⟨"f", [1]⟩, ⟨"f", [2]⟩] ∧
      ofStream 0 (s.fileState "f").written = [⟨"f", [2]⟩, ⟨"f", [1]⟩]) ∧
    (∃ s : LogServer, system.Reachable (fun _ _ => True) s ∧ s.shutdown = .returned ∧
      (s.handlers 0).pc = .left (.ok 1) ∧ (s.handlers 0).counted = [⟨"f", [1]⟩] ∧
      (s.fileState "f").written = []) := by
  have hlost : (system.execute (fun _ _ => True) started ([.connect 0] ++
      deliver ⟨"f", [1]⟩ ++ flushUntilTaken ++ stopWaiting ++
      [.finalCheck, .close, .finalClear, .finalCheck, .write])).any
        (fun s => decide (s.shutdown = .returned ∧ (s.handlers 0).counted = [⟨"f", [1]⟩] ∧
          (s.fileState "f").written = [])) = true := by
    decide +kernel
  have hswapped : (system.execute (fun _ _ => True) started ([.connect 0] ++
      deliver ⟨"f", [1]⟩ ++ flushUntilTaken ++ deliver ⟨"f", [2]⟩ ++ stopWaiting ++
      [.finalCheck, .finalTake, .finalWrite, .write, .close, .finalClear, .finalCheck])).any
        (fun s => decide (s.shutdown = .returned ∧
          (s.handlers 0).counted = [⟨"f", [1]⟩, ⟨"f", [2]⟩] ∧
          ofStream 0 (s.fileState "f").written = [⟨"f", [2]⟩, ⟨"f", [1]⟩])) = true := by
    decide +kernel
  have hlate : (system.execute (fun _ _ => True) started ([.connect 0,
      .receive 0 ⟨"f", [1]⟩, .locate 0, .callShutdown, .setEvent, .tick, .join false,
      .finalSnapshot, .finalCheck, .close, .finalClear, .append 0, .finalCheck, .finish 0,
      .disconnect 0])).any
        (fun s => decide (s.shutdown = .returned ∧ (s.handlers 0).pc = .left (.ok 1) ∧
          (s.handlers 0).counted = [⟨"f", [1]⟩] ∧ (s.fileState "f").written = [])) = true := by
    decide +kernel
  obtain ⟨s, hs, htest⟩ := System.exists_reachable_of_execute rfl hlost
  obtain ⟨t, ht, httest⟩ := System.exists_reachable_of_execute rfl hswapped
  obtain ⟨u, hu, hutest⟩ := System.exists_reachable_of_execute rfl hlate
  exact ⟨⟨s, hs, of_decide_eq_true htest⟩, ⟨t, ht, of_decide_eq_true httest⟩,
    ⟨u, hu, of_decide_eq_true hutest⟩⟩

end LogServer

end ResiliencyExt.LogAggregation
