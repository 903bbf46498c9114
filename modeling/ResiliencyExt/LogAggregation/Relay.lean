import ResiliencyExt.FaultTolerance.PerCycleLogs.GrpcWriter
import ResiliencyExt.LogAggregation.LeafDelivery
import ResiliencyExt.LogAggregation.RootDelivery

set_option autoImplicit false

/-!
# Log aggregation: from the nodes to the root

The writers of the nodes, the leaf that takes their streams, and the root that takes the leaf's
stream beside others.  A stream delivers what was yielded to it, in order, and may break.
-/

namespace ResiliencyExt.LogAggregation

open Foundation List
open FaultTolerance.PerCycleLogs (GrpcWriter chunkOf)

/-- What a handler has received, but for a chunk that it turned away. -/
def Leaf.Handler.taken (handler : Leaf.Handler) : List Leaf.LogChunk :=
  match handler.pc with
  | .testing chunk | .putting chunk | .accepted chunk => handler.counted ++ [chunk]
  | _ => handler.counted

def Handler.taken (handler : Handler) : List Chunk :=
  match handler.pc with
  | .tested chunk | .located chunk => handler.counted ++ [chunk]
  | _ => handler.counted

theorem Leaf.LeafServer.taken_step {s t : Leaf.LeafServer} {a : Leaf.Action}
    (hstep : s.step a = some t) (i : Nat) : s.yielded <+: t.yielded ∧
    ((t.handlers i).taken <+: (s.handlers i).taken ∨ ∃ chunk, a = .receive i chunk ∧
      (t.handlers i).taken = (s.handlers i).counted ++ [chunk]) := by
  cases a
  all_goals
    simp only [step, call, connect, receive, finish, interrupt, test, put, count, disconnect,
      generate, shutdownLeaf] at hstep
    repeat' split at hstep
    all_goals cases hstep
  all_goals first
    | exact ⟨prefix_rfl, .inl prefix_rfl⟩
    | exact ⟨prefix_append _ _, .inl prefix_rfl⟩
    | refine ⟨prefix_rfl, ?_⟩
  all_goals
    simp only [goTo, setHandler, Function.update_apply]
    split
    · simp_all [Handler.taken, Handler.count, copyChunk]
    · exact .inl prefix_rfl

theorem LogServer.taken_step {s t : LogServer} {a : Action} (hstep : s.step a = some t) (i : Nat) :
    (t.handlers i).taken <+: (s.handlers i).taken ∨ ∃ chunk, a = .receive i chunk ∧
      (t.handlers i).taken = (s.handlers i).counted ++ [chunk] := by
  cases a
  all_goals
    simp only [step, connect, receive, locate, getOrCreateFileState, append, finish, interrupt,
      disconnect, tick, snapshot, check, take, write, gracefulShutdown, awaitClients,
      callShutdown, setEvent, join, finalSnapshot, finalCheck, finalTake, finalWrite, close,
      finalClear] at hstep
    repeat' split at hstep
    all_goals
      cases hstep
      try exact .inl prefix_rfl
  all_goals
    simp only [goTo, setHandler, setFile, Function.update_apply]
    split
    · simp_all [Handler.taken, Handler.count]
    · exact .inl prefix_rfl

/-! ## The system -/

/-- A writer's message as the leaf reads it. -/
def ofWriter (chunk : FaultTolerance.PerCycleLogs.LogChunk) : Leaf.LogChunk :=
  ⟨chunk.nodeId, chunk.data, chunk.filePath⟩

/-- The leaf's message as the root reads it. -/
def ofLeaf (queued : Leaf.Queued) : Chunk :=
  ⟨queued.chunk.filePath, queued.chunk.data⟩

/-- Writer `i` is on stream `i` of the leaf, and the leaf is on stream 0 of the root. -/
structure Relay where
  writers : Nat → GrpcWriter
  leaf : Leaf.LeafServer
  root : LogServer

namespace Relay

inductive Action
  | writer (i : Nat) (action : GrpcWriter.Action)
  | leaf (action : Leaf.Action)
  | root (action : LogAggregation.Action)

def step (s : Relay) : Action → Option Relay
  | .writer i action => ((s.writers i).step action).map fun writer =>
    { s with writers := Function.update s.writers i writer }
  | .leaf action => (s.leaf.step action).map fun leaf => { s with leaf := leaf }
  | .root action => (s.root.step action).map fun root => { s with root := root }

def system : System Relay Action where
  init s := (∀ i, GrpcWriter.system.init (s.writers i)) ∧ Leaf.LeafServer.system.init s.leaf ∧
    LogServer.system.init s.root
  step := step

/-- A handler that receives has counted all that it has received before, and the stream delivers
what comes next; the root's final pass comes in turn. -/
def Orderly (s : Relay) : Action → Prop
  | .leaf (.receive i chunk) =>
    (s.leaf.handlers i).counted ++ [chunk] <+: (s.writers i).yielded.map ofWriter
  | .root (.receive 0 chunk) => (s.root.handlers 0).counted ++ [chunk] <+: s.leaf.yielded.map ofLeaf
  | .root action => s.root.InTurn action
  | _ => True

instance (s : Relay) (a : Action) : Decidable (s.Orderly a) := by
  unfold Orderly
  split <;> infer_instance

/-- The parts are in states of their own runs, and a handler has taken a beginning of what was
yielded to it. -/
structure Parts (s : Relay) : Prop where
  writer : ∀ i, GrpcWriter.system.Reachable GrpcWriter.Any (s.writers i) ∧
    (s.leaf.handlers i).taken <+: (s.writers i).yielded.map ofWriter
  leaf : Leaf.LeafServer.system.Reachable Leaf.LeafServer.Any s.leaf
  root : LogServer.system.Reachable LogServer.InTurn s.root
  upstream : (s.root.handlers 0).taken <+: s.leaf.yielded.map ofLeaf

variable {s t : Relay}

theorem Parts.step {a : Action} (h : s.Parts) (hcond : s.Orderly a) (hstep : s.step a = some t) :
    t.Parts := by
  cases a with
  | writer i action =>
    obtain ⟨writer, hwriter, rfl⟩ := Option.map_eq_some_iff.mp hstep
    have hyielded := (GrpcWriter.grown_of_moves (GrpcWriter.moves_of_step hwriter)).yielded
    refine { h with writer := (Function.forall_update_iff s.writers fun j w =>
      GrpcWriter.system.Reachable GrpcWriter.Any w ∧
        (s.leaf.handlers j).taken <+: w.yielded.map ofWriter).mpr ⟨?_, fun j _ => h.writer j⟩ }
    exact ⟨.step (h.writer i).1 trivial hwriter, (h.writer i).2.trans (hyielded.map _)⟩
  | leaf action =>
    obtain ⟨leaf, hleaf, rfl⟩ := Option.map_eq_some_iff.mp hstep
    have htaken := Leaf.LeafServer.taken_step hleaf
    refine ⟨fun i => ⟨(h.writer i).1, ?_⟩, .step h.leaf trivial hleaf, h.root,
      h.upstream.trans ((htaken 0).1.map _)⟩
    rcases (htaken i).2 with hless | ⟨chunk, rfl, heq⟩
    · exact hless.trans (h.writer i).2
    · exact heq ▸ hcond
  | root action =>
    obtain ⟨root, hroot, rfl⟩ := Option.map_eq_some_iff.mp hstep
    refine ⟨h.writer, h.leaf, .step h.root ?_ hroot, ?_⟩
    · cases action with
      | receive => trivial
      | _ => exact hcond
    · rcases LogServer.taken_step hroot 0 with hless | ⟨chunk, rfl, heq⟩
      · exact hless.trans h.upstream
      · exact heq ▸ hcond

theorem parts_of_reachable (hs : system.Reachable Orderly s) : s.Parts := by
  refine hs.invariant ?_ fun s a t h hcond hstep => h.step hcond hstep
  rintro ⟨writers, leaf, root⟩ ⟨hwriters, ⟨maxChunks, hmax, rfl⟩, rfl⟩
  exact ⟨fun i => ⟨.init (hwriters i), nil_prefix⟩, .init ⟨maxChunks, hmax, rfl⟩, .init rfl,
    nil_prefix⟩

def oneEach : Relay :=
  ⟨fun _ => .started "n" [⟨some "f", ['a'], .launcher, 0⟩], .started 1, .started⟩

end Relay

end ResiliencyExt.LogAggregation
