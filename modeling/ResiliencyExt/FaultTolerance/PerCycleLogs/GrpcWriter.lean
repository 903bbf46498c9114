import ResiliencyExt.Foundation.System
import ResiliencyExt.FaultTolerance.PerCycleLogs.PipeReader

set_option autoImplicit false

/-!
# Per-cycle logs: the writer that streams to a server

`GrpcWriterThread` beside the thread that puts items on its queue and shuts it down.  One
action is a step of either: the other thread puts its next item or calls `shutdown()`, or
the writer goes on to its next look at what is shared: the shutdown flag, which it tests
after the start delay, before each health check and after a poll that timed out, or the
queue.  A poll ends with an item when there is one, and times out only on an empty queue.

The server answers every health check and no RPC fails: a call of `StreamLogs` consumes
its generator until that returns.  The queued text was decoded with replacement, so that it
always has an encoding.
-/

namespace ResiliencyExt.FaultTolerance.PerCycleLogs

open Foundation List
open Option (some)

/-- `_GRPC_STABLE_EMPTY_POLLS_NEEDED` -/
def grpcStableEmptyPollsNeeded : Nat := 5

/-- `log_aggregation_pb2.LogChunk`; a path that is `None` stays unset, which reads as empty. -/
structure LogChunk where
  nodeId : String
  data : List UInt8
  filePath : String
  deriving DecidableEq, Repr

/-- The message for an item, with its text encoded. -/
def chunkOf (nodeId : String) (item : QueueItem) : LogChunk where
  nodeId := nodeId
  data := item.data.flatMap String.utf8EncodeChar
  filePath := item.logFilePath.getD ""

/-- Where the writer thread is. -/
inductive WriterPc
  /-- In the start delay. -/
  | delaying
  /-- At `while not self.shutdown_requested` of `run`. -/
  | looping
  /-- At `while not self.shutdown_requested` of `_wait_for_server_ready`. -/
  | awaiting
  /-- In the health check. -/
  | checking
  /-- In the generator, at `self.write_queue.get`. -/
  | polling (emptyPolls : Nat)
  /-- In the handler of `queue.Empty`. -/
  | timedOut (emptyPolls : Nat)
  /-- Enough polls were empty: before `self.write_queue.empty()`. -/
  | confirming (emptyPolls : Nat)
  | ended
  deriving DecidableEq, Repr

/-- In the health check or the stream: the flag is not tested again before the queue has been
drained. -/
def WriterPc.Streams : WriterPc → Prop
  | .checking => True
  | .polling _ => True
  | .timedOut _ => True
  | .confirming _ => True
  | _ => False

instance : DecidablePred WriterPc.Streams := fun pc => by
  cases pc <;> unfold WriterPc.Streams <;> infer_instance

/-- The writer thread, its queue and the thread that fills it. -/
structure GrpcWriter where
  nodeId : String
  /-- What will be put on the queue. -/
  toPut : List QueueItem
  writeQueue : List QueueItem
  shutdownRequested : Bool
  pc : WriterPc
  totalChunksSent : Nat
  totalBytesSent : Nat
  /-- Every item that was put, in order. -/
  queued : List QueueItem
  /-- What the generator has yielded to the call, in order. -/
  yielded : List LogChunk
  deriving DecidableEq, Repr

namespace GrpcWriter

/-- A writer thread that was just started. -/
def started (nodeId : String) (items : List QueueItem) : GrpcWriter where
  nodeId := nodeId
  toPut := items
  writeQueue := []
  shutdownRequested := false
  pc := .delaying
  totalChunksSent := 0
  totalBytesSent := 0
  queued := []
  yielded := []

inductive Action
  /-- `self._write_queue.put(...)` -/
  | put
  /-- `shutdown()` -/
  | shutdown
  /-- The writer's next step. -/
  | advance
  deriving DecidableEq, Repr

def put (s : GrpcWriter) : Option GrpcWriter :=
  match s.toPut with
  | [] => none
  | item :: items =>
    some { s with
      toPut := items
      writeQueue := s.writeQueue ++ [item]
      queued := s.queued ++ [item] }

/-- A second call changes nothing and is left out. -/
def shutdown (s : GrpcWriter) : Option GrpcWriter :=
  if s.shutdownRequested then none else some { s with shutdownRequested := true }

/-- `yield chunk`, with the statistics before it. -/
def yieldChunk (s : GrpcWriter) (item : QueueItem) (rest : List QueueItem) : GrpcWriter :=
  let chunk := chunkOf s.nodeId item
  { s with
    writeQueue := rest
    pc := .polling 0
    totalChunksSent := s.totalChunksSent + 1
    totalBytesSent := s.totalBytesSent + chunk.data.length
    yielded := s.yielded ++ [chunk] }

def advance (s : GrpcWriter) : Option GrpcWriter :=
  match s.pc with
  | .delaying => some { s with pc := .looping }
  | .looping => some { s with pc := if s.shutdownRequested then .ended else .awaiting }
  | .awaiting => some { s with pc := if s.shutdownRequested then .ended else .checking }
  | .checking => some { s with pc := .polling 0 }
  | .polling emptyPolls =>
    match s.writeQueue with
    | [] => some { s with pc := .timedOut emptyPolls }
    | item :: rest => some (s.yieldChunk item rest)
  | .timedOut emptyPolls =>
    if s.shutdownRequested then
      if grpcStableEmptyPollsNeeded ≤ emptyPolls + 1 then
        some { s with pc := .confirming (emptyPolls + 1) }
      else some { s with pc := .polling (emptyPolls + 1) }
    else some { s with pc := .polling emptyPolls }
  | .confirming emptyPolls =>
    -- the generator returns, which ends the call, and `run` tests the flag again
    if s.writeQueue = [] then some { s with pc := .looping }
    else some { s with pc := .polling emptyPolls }
  | .ended => none

def step (s : GrpcWriter) : Action → Option GrpcWriter
  | .put => s.put
  | .shutdown => s.shutdown
  | .advance => s.advance

/-- The writer beside the thread that fills its queue and shuts it down. -/
def system : System GrpcWriter Action where
  init s := ∃ nodeId items, s = started nodeId items
  step := step

/-- No condition on the steps. -/
abbrev Any : GrpcWriter → Action → Prop := fun _ _ => True

/-! ## What a step does -/

/-- The steps that change the queue, and those that only move the writer on. -/
inductive Moves (s t : GrpcWriter) : Prop
  | put (item : QueueItem) (items : List QueueItem) (htoPut : s.toPut = item :: items)
      (ht : t = { s with
        toPut := items, writeQueue := s.writeQueue ++ [item], queued := s.queued ++ [item] })
  | shutdown (hnew : s.shutdownRequested = false) (ht : t = { s with shutdownRequested := true })
  | yielded (emptyPolls : Nat) (item : QueueItem) (rest : List QueueItem)
      (hpc : s.pc = .polling emptyPolls) (hqueue : s.writeQueue = item :: rest)
      (ht : t = s.yieldChunk item rest)
  | moved (pc : WriterPc) (hadvance : s.advance = some t) (ht : t = { s with pc := pc })

variable {s t u : GrpcWriter} {emptyPolls : Nat}

theorem advance_of_empty (hpc : s.pc = .polling emptyPolls) (hqueue : s.writeQueue = []) :
    s.advance = some { s with pc := .timedOut emptyPolls } := by
  unfold advance
  rw [hpc]
  dsimp only
  split
  · rfl
  · rename_i heq
    rw [hqueue] at heq
    cases heq

theorem advance_of_item (hpc : s.pc = .polling emptyPolls) {item : QueueItem}
    {rest : List QueueItem} (hqueue : s.writeQueue = item :: rest) :
    s.advance = some (s.yieldChunk item rest) := by
  unfold advance
  rw [hpc]
  dsimp only
  rw [hqueue]

theorem moves_advance (hadvance : s.advance = some t) : Moves s t := by
  have h := hadvance
  cases hpc : s.pc with
  | polling emptyPolls =>
    cases hqueue : s.writeQueue with
    | nil =>
      exact .moved _ hadvance (some.inj (h.symm.trans (advance_of_empty hpc hqueue)))
    | cons item rest =>
      exact .yielded emptyPolls item rest hpc hqueue
        (some.inj (h.symm.trans (advance_of_item hpc hqueue)))
  | timedOut emptyPolls =>
    simp only [advance, hpc] at h
    split at h
    · split at h <;> exact .moved _ hadvance (some.inj h).symm
    · exact .moved _ hadvance (some.inj h).symm
  | confirming emptyPolls =>
    simp only [advance, hpc] at h
    split at h <;> exact .moved _ hadvance (some.inj h).symm
  | ended =>
    rw [advance, hpc] at h
    cases h
  | _ =>
    simp only [advance, hpc] at h
    exact .moved _ hadvance (some.inj h).symm

theorem moves_of_step {a : Action} (h : s.step a = some t) : Moves s t := by
  cases a with
  | put =>
    change s.put = some t at h
    cases htoPut : s.toPut with
    | nil =>
      rw [put, htoPut] at h
      cases h
    | cons item items =>
      simp only [put, htoPut] at h
      exact .put item items htoPut (some.inj h).symm
  | shutdown =>
    change s.shutdown = some t at h
    unfold shutdown at h
    split at h
    · cases h
    · exact .shutdown (Bool.of_not_eq_true ‹_›) (some.inj h).symm
  | advance => exact moves_advance h

/-! ## First in, first out -/

/-- What was yielded and what is still on the queue make up what was put. -/
def Fed (s : GrpcWriter) : Prop :=
  ∃ taken, s.yielded = taken.map (chunkOf s.nodeId) ∧ taken ++ s.writeQueue = s.queued

theorem Fed.of_moves (h : s.Fed) (hmoves : Moves s t) : t.Fed := by
  obtain ⟨taken, hyielded, hqueued⟩ := h
  cases hmoves with
  | put item items htoPut ht =>
    subst ht
    exact ⟨taken, hyielded, by rw [← append_assoc, hqueued]⟩
  | shutdown hnew ht =>
    subst ht
    exact ⟨taken, hyielded, hqueued⟩
  | yielded emptyPolls item rest hpc hqueue ht =>
    subst ht
    refine ⟨taken ++ [item], ?_, ?_⟩
    · show s.yielded ++ [chunkOf s.nodeId item] = (taken ++ [item]).map (chunkOf s.nodeId)
      rw [hyielded, map_append]
      rfl
    · rw [hqueue] at hqueued
      rw [append_assoc]
      exact hqueued
  | moved pc hadvance ht =>
    subst ht
    exact ⟨taken, hyielded, hqueued⟩

theorem fed_of_reachable (h : system.Reachable Any s) : s.Fed :=
  h.invariant (fun _ ⟨_, _, hstart⟩ => hstart ▸ ⟨[], rfl, rfl⟩)
    fun _ _ _ hfed _ hstep => hfed.of_moves (moves_of_step hstep)

/-- What does not go back: what was put, what was yielded and the request. -/
structure Grown (s t : GrpcWriter) : Prop where
  nodeId : t.nodeId = s.nodeId
  queued : s.queued <+: t.queued
  yielded : s.yielded <+: t.yielded
  requested : s.shutdownRequested = true → t.shutdownRequested = true

theorem Grown.trans (h : Grown s t) (h' : Grown t u) : Grown s u where
  nodeId := h'.nodeId.trans h.nodeId
  queued := h.queued.trans h'.queued
  yielded := h.yielded.trans h'.yielded
  requested := h'.requested ∘ h.requested

theorem grown_of_moves (h : Moves s t) : Grown s t := by
  cases h with
  | put item items htoPut ht =>
    subst ht
    exact ⟨rfl, prefix_append _ _, prefix_rfl, id⟩
  | shutdown hnew ht =>
    subst ht
    exact ⟨rfl, prefix_rfl, prefix_rfl, fun _ => rfl⟩
  | yielded emptyPolls item rest hpc hqueue ht =>
    subst ht
    exact ⟨rfl, prefix_rfl, prefix_append _ _, id⟩
  | moved pc hadvance ht =>
    subst ht
    exact ⟨rfl, prefix_rfl, prefix_rfl, id⟩

/-! ## The thread ends -/

/-- How many steps the writer has before it, apart from the items: with an item on the queue
the next poll is not empty. -/
def stage (s : GrpcWriter) : Nat :=
  match s.pc with
  | .checking => 25
  | .polling emptyPolls =>
    if s.writeQueue = [] then 3 * (grpcStableEmptyPollsNeeded - emptyPolls) + 6 else 0
  | .timedOut emptyPolls => 3 * (grpcStableEmptyPollsNeeded - emptyPolls) + 5
  | .confirming _ => 4
  | .delaying => 3
  | .looping => 2
  | .awaiting => 1
  | .ended => 0

theorem stage_polling_le (hpc : s.pc = .polling emptyPolls) :
    s.stage ≤ 3 * (grpcStableEmptyPollsNeeded - emptyPolls) + 6 := by
  unfold stage
  rw [hpc]
  dsimp only
  split
  · exact Nat.le_refl _
  · exact Nat.zero_le _

/-- Once the shutdown is requested every step of the writer that takes no item brings it nearer
to its end. -/
theorem stage_moved {pc : WriterPc} (hrequested : s.shutdownRequested = true)
    (h : s.advance = some { s with pc := pc }) :
    ({ s with pc := pc } : GrpcWriter).stage < s.stage := by
  cases hpc : s.pc with
  | delaying =>
    simp only [advance, hpc, some.injEq, mk.injEq, true_and, and_true] at h
    simp only [stage, hpc, ← h]
    omega
  | looping | awaiting =>
    simp only [advance, hpc, hrequested, if_true, some.injEq, mk.injEq, true_and,
      and_true] at h
    simp only [stage, hpc, ← h]
    omega
  | checking =>
    simp only [advance, hpc, some.injEq, mk.injEq, true_and, and_true] at h
    have hle := stage_polling_le (s := { s with pc := pc }) h.symm
    have hstage : s.stage = 25 := by rw [stage, hpc]
    unfold grpcStableEmptyPollsNeeded at hle
    omega
  | polling emptyPolls =>
    cases hqueue : s.writeQueue with
    | nil =>
      have hnext := congrArg GrpcWriter.pc
        (some.inj (h.symm.trans (advance_of_empty hpc hqueue)))
      change pc = .timedOut emptyPolls at hnext
      simp only [stage, hpc, hqueue, hnext, if_true]
      omega
    | cons item rest =>
      have hqueues := congrArg GrpcWriter.writeQueue
        (some.inj (h.symm.trans (advance_of_item hpc hqueue)))
      have hlength := congrArg List.length (hqueue.symm.trans hqueues)
      change rest.length + 1 = rest.length at hlength
      omega
  | timedOut emptyPolls =>
    have hstage : s.stage = 3 * (grpcStableEmptyPollsNeeded - emptyPolls) + 5 := by
      rw [stage, hpc]
    simp only [advance, hpc, hrequested, if_true] at h
    split at h
    · simp only [some.injEq, mk.injEq, true_and, and_true] at h
      rw [hstage]
      simp only [stage, ← h]
      omega
    · simp only [some.injEq, mk.injEq, true_and, and_true] at h
      have hle := stage_polling_le (s := { s with pc := pc }) h.symm
      omega
  | confirming emptyPolls =>
    simp only [advance, hpc] at h
    split at h
    · simp only [some.injEq, mk.injEq, true_and, and_true] at h
      simp only [stage, hpc, ← h]
      omega
    · rename_i hqueue
      simp only [some.injEq, mk.injEq, true_and, and_true] at h
      simp only [stage, hpc, ← h, if_neg hqueue]
      omega
  | ended =>
    rw [advance, hpc] at h
    cases h

/-- The steps that are left once the shutdown is requested. -/
def left (s : GrpcWriter) : Nat :=
  (2 * s.toPut.length + s.writeQueue.length) * 26 + s.stage

theorem left_of_moves (hrequested : s.shutdownRequested = true) (h : Moves s t) :
    t.left < s.left := by
  cases h with
  | put item items htoPut ht =>
    have hstage : t.stage ≤ s.stage := by
      subst ht
      unfold stage
      dsimp only
      split
      · exact Nat.le_refl _
      · rw [if_neg (append_ne_nil_of_right_ne_nil _ (cons_ne_nil item []))]
        exact Nat.zero_le _
      all_goals exact Nat.le_refl _
    subst ht
    simp only [left, htoPut, length_cons, length_append, length_nil]
    omega
  | shutdown hnew ht =>
    rw [hrequested] at hnew
    cases hnew
  | yielded emptyPolls item rest hpc hqueue ht =>
    subst ht
    have hle := stage_polling_le (show (s.yieldChunk item rest).pc = .polling 0 from rfl)
    unfold grpcStableEmptyPollsNeeded at hle
    have hlength : s.writeQueue.length = rest.length + 1 := by rw [hqueue, length_cons]
    show (2 * s.toPut.length + rest.length) * 26 + (s.yieldChunk item rest).stage < s.left
    unfold left
    rw [hlength]
    omega
  | moved pc hadvance ht =>
    subst ht
    exact Nat.add_lt_add_left (stage_moved hrequested hadvance) _

/-- A writer that has not ended can go on. -/
theorem exists_advance (h : s.pc ≠ .ended) : ∃ t, s.advance = some t := by
  cases hpc : s.pc with
  | ended => exact absurd hpc h
  | polling emptyPolls =>
    cases hqueue : s.writeQueue with
    | nil => exact ⟨_, advance_of_empty hpc hqueue⟩
    | cons item rest => exact ⟨_, advance_of_item hpc hqueue⟩
  | timedOut emptyPolls =>
    simp only [advance, hpc]
    split
    · split <;> exact ⟨_, rfl⟩
    · exact ⟨_, rfl⟩
  | confirming emptyPolls =>
    simp only [advance, hpc]
    split <;> exact ⟨_, rfl⟩
  | _ => exact ⟨_, by rw [advance, hpc]⟩

/-- Once the shutdown is requested the thread ends, whatever is put meanwhile. -/
theorem ends_of_requested (h : s.shutdownRequested = true) :
    system.Inevitable Any (fun t => t.pc = .ended) s := by
  by_cases hended : s.pc = .ended
  · exact .now hended
  · refine System.Inevitable.of_measure
      (I := fun t => t.shutdownRequested = true ∧ t.pc ≠ .ended) left ?_ ?_ ⟨h, hended⟩
    · intro t ⟨_, hrunning⟩
      obtain ⟨u, hu⟩ := exists_advance hrunning
      exact ⟨.advance, u, trivial, hu⟩
    · intro t a u ⟨hrequested, _⟩ _ hstep
      have hmoves := moves_of_step hstep
      by_cases hdone : u.pc = .ended
      · exact .inl hdone
      · exact .inr ⟨⟨(grown_of_moves hmoves).requested hrequested, hdone⟩,
          left_of_moves hrequested hmoves⟩

/-! ## What is delivered -/

/-- The items that were on the queue in `s` or taken from it before were yielded in `t`, with
none left out or repeated, perhaps with later ones after them. -/
def Delivered (s t : GrpcWriter) : Prop :=
  ∃ later, t.yielded = (s.queued ++ later).map (chunkOf s.nodeId) ∧
    s.queued ++ later <+: t.queued

/-- What was put was yielded, if as much was yielded as had been put. -/
theorem delivered_of_length (hgrown : Grown s t) (hfed : t.Fed)
    (h : s.queued.length ≤ t.yielded.length) : Delivered s t := by
  obtain ⟨taken, hyielded, hqueued⟩ := hfed
  have htaken : taken <+: t.queued := hqueued ▸ prefix_append taken t.writeQueue
  have hlength : s.queued.length ≤ taken.length := by
    rwa [hyielded, length_map] at h
  obtain ⟨later, hlater⟩ := prefix_of_prefix_length_le hgrown.queued htaken hlength
  exact ⟨later, by rw [hlater, hyielded, hgrown.nodeId], hlater ▸ htaken⟩

/-- After the request a writer that streams goes on until it has found the queue empty. -/
def Drains (s t : GrpcWriter) : Prop :=
  t.pc.Streams ∨ s.queued.length ≤ t.yielded.length

theorem Fed.length (h : s.Fed) : s.yielded.length + s.writeQueue.length = s.queued.length := by
  obtain ⟨taken, hyielded, hqueued⟩ := h
  rw [hyielded, ← hqueued, length_map, length_append]

theorem drains_of_moves (hgrown : Grown s t) (hfed : t.Fed) (hdrains : Drains s t)
    (hmoves : Moves t u) : Drains s u := by
  rcases hdrains with hstreams | hlength
  · cases hmoves with
    | put item items htoPut hu | shutdown hnew hu =>
      subst hu
      exact .inl hstreams
    | yielded emptyPolls item rest hpc hqueue hu =>
      subst hu
      exact .inl trivial
    | moved pc hadvance hu =>
      cases hpc : t.pc with
      | checking =>
        rw [advance, hpc] at hadvance
        cases hadvance
        exact .inl trivial
      | polling emptyPolls =>
        cases hqueue : t.writeQueue with
        | nil =>
          cases hadvance.symm.trans (advance_of_empty hpc hqueue)
          exact .inl trivial
        | cons item rest =>
          cases hadvance.symm.trans (advance_of_item hpc hqueue)
          exact .inl trivial
      | timedOut emptyPolls =>
        simp only [advance, hpc] at hadvance
        split at hadvance
        · split at hadvance <;> (cases hadvance; exact .inl trivial)
        · cases hadvance
          exact .inl trivial
      | confirming emptyPolls =>
        simp only [advance, hpc] at hadvance
        split at hadvance
        · rename_i hempty
          cases hadvance
          -- nothing is left of what was put, so all of it was yielded
          have hall := hfed.length
          rw [hempty, length_nil, Nat.add_zero] at hall
          exact .inr (hall ▸ hgrown.queued.length_le)
        · cases hadvance
          exact .inl trivial
      | _ =>
        rw [hpc] at hstreams
        exact hstreams.elim
  · exact .inr (Nat.le_trans hlength (grown_of_moves hmoves).yielded.length_le)

theorem drains_of_run {actions : List Action} (hrun : system.Run Any t actions u)
    (hgrown : Grown s t) (hfed : t.Fed) (hdrains : Drains s t) :
    Drains s u ∧ Grown s u ∧ u.Fed := by
  induction hrun with
  | nil t => exact ⟨hdrains, hgrown, hfed⟩
  | cons _ hstep _ ih =>
    have hmoves := moves_of_step hstep
    exact ih (hgrown.trans (grown_of_moves hmoves)) (hfed.of_moves hmoves)
      (drains_of_moves hgrown hfed hdrains hmoves)

/-- A writer that has not come to the stream when the shutdown is requested ends without it. -/
theorem run_of_not_streams (hrequested : t.shutdownRequested = true) (h : ¬ t.pc.Streams) :
    ∃ actions u, system.Run Any t actions u ∧ u.pc = .ended ∧ u.yielded = t.yielded := by
  have hloop : ∀ s : GrpcWriter, s.shutdownRequested = true → s.pc = .looping →
      system.step s .advance = some { s with pc := .ended } := by
    intro s hs hpc
    show s.advance = _
    unfold advance
    rw [hpc]
    dsimp only
    rw [if_pos hs]
  cases hpc : t.pc with
  | delaying =>
    have hstep : system.step t .advance = some { t with pc := .looping } := by
      show t.advance = _
      unfold advance
      rw [hpc]
    have hend := hloop { t with pc := .looping } hrequested rfl
    exact ⟨_, _, .cons trivial hstep (.cons trivial hend (.nil _)), rfl, rfl⟩
  | looping => exact ⟨_, _, .cons trivial (hloop t hrequested hpc) (.nil _), rfl, rfl⟩
  | awaiting =>
    have hstep : system.step t .advance = some { t with pc := .ended } := by
      show t.advance = _
      unfold advance
      rw [hpc]
      dsimp only
      rw [if_pos hrequested]
    exact ⟨_, _, .cons trivial hstep (.nil _), rfl, rfl⟩
  | ended => exact ⟨_, _, .nil t, hpc, rfl⟩
  | _ => exact absurd (hpc ▸ trivial) h

/-- `shutdown()` takes `s` to `t`: the thread ends, and every item queued before the call has
been yielded by then, once and in order. -/
structure DeliversAll (s t : GrpcWriter) : Prop where
  delivered : ∀ actions u, system.Run Any t actions u → u.pc = .ended → Delivered s u
  ends : system.Inevitable Any (fun u => u.pc = .ended) t

/-- The writer delivers what was queued before its shutdown exactly when the shutdown finds
nothing queued, or finds it in the health check or the stream. -/
theorem deliversAll_iff {s t : GrpcWriter} (hreach : system.Reachable Any s)
    (hshutdown : s.step .shutdown = some t) :
    DeliversAll s t ↔ s.writeQueue = [] ∨ s.pc.Streams := by
  have hfed := fed_of_reachable hreach
  have ht : t = { s with shutdownRequested := true } := by
    change s.shutdown = some t at hshutdown
    unfold shutdown at hshutdown
    split at hshutdown
    · cases hshutdown
    · exact (some.inj hshutdown).symm
  have hgrown : Grown s t := grown_of_moves (moves_of_step hshutdown)
  have hrequested : t.shutdownRequested = true := by rw [ht]
  constructor
  · intro h
    by_contra hnot
    obtain ⟨hqueue, hstreams⟩ := not_or.mp hnot
    have hstreams' : ¬ t.pc.Streams := by rwa [ht]
    obtain ⟨actions, u, hrun, hended, hyielded⟩ := run_of_not_streams hrequested hstreams'
    obtain ⟨later, hall, -⟩ := h.delivered actions u hrun hended
    have hlength := congrArg List.length hall
    rw [hyielded, ht, length_map, length_append] at hlength
    have hpos := length_pos_of_ne_nil hqueue
    have := hfed.length
    change s.yielded.length = s.queued.length + later.length at hlength
    omega
  · intro h
    refine ⟨fun actions u hrun hended => ?_, ends_of_requested hrequested⟩
    have hdrains : Drains s t := by
      rcases h with hqueue | hstreams
      · have := hfed.length
        rw [hqueue, length_nil, Nat.add_zero] at this
        refine .inr ?_
        rw [ht]
        exact Nat.le_of_eq this.symm
      · refine .inl ?_
        rw [ht]
        exact hstreams
    obtain ⟨hdrained, hgrownu, hfedu⟩ :=
      drains_of_run hrun hgrown (hfed.of_moves (moves_of_step hshutdown)) hdrains
    rcases hdrained with hstreams | hlength
    · rw [hended] at hstreams
      exact hstreams.elim
    · exact delivered_of_length hgrownu hfedu hlength

/-- A shutdown while the writer polls the queue that the item is on. -/
theorem deliversAll_polling :
    DeliversAll
      { started "node" [] with
        writeQueue := [⟨some "f", ['a'], .launcher, 0⟩]
        queued := [⟨some "f", ['a'], .launcher, 0⟩]
        pc := .polling 0 }
      { started "node" [] with
        writeQueue := [⟨some "f", ['a'], .launcher, 0⟩]
        queued := [⟨some "f", ['a'], .launcher, 0⟩]
        pc := .polling 0
        shutdownRequested := true } :=
  (deliversAll_iff (System.reachable_of_execute ⟨"node", [⟨some "f", ['a'], .launcher, 0⟩], rfl⟩
    (show system.execute Any _ [.put, .advance, .advance, .advance, .advance] = some _ from rfl))
      rfl).mpr (.inr trivial)

/-- An item that is put while the writer is in its start delay, which the shutdown ends. -/
theorem not_deliversAll_delaying :
    ¬ ∀ s t, system.Reachable Any s → s.step .shutdown = some t → DeliversAll s t := by
  intro h
  have hreach : system.Reachable Any
      { started "node" [] with
        writeQueue := [⟨some "f", ['a'], .launcher, 0⟩]
        queued := [⟨some "f", ['a'], .launcher, 0⟩] } :=
    .step (a := .put) (.init ⟨"node", [⟨some "f", ['a'], .launcher, 0⟩], rfl⟩) trivial rfl
  obtain ⟨later, hall, -⟩ := (h _ _ hreach rfl).delivered [.advance, .advance] _
    (.cons trivial rfl (.cons trivial rfl (.nil _))) rfl
  cases hall

end GrpcWriter

end ResiliencyExt.FaultTolerance.PerCycleLogs
