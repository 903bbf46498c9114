import ResiliencyExt.LogAggregation.LeafServer
set_option autoImplicit false

/-!
# Log aggregation: what the leaf forwards

A chunk that a handler has put on the queue is behind what the generator has yielded, and
both together are what the handlers of its stream have had accepted, in order.  When the
shutdown has seen no client, no handler puts a chunk any more: those that come later find
the reject flag set.

The generator returns at the sentinel, which is the last item, or after a `get` that timed
out when it then finds the stop flag set.  Between the two a chunk may have been put and
counted, its handler have left and the flag been set; the generator then returns with the
chunk on the queue.  `Clear` excludes this, as a condition on the state before a step.
-/

namespace ResiliencyExt.LogAggregation.Leaf

open Foundation List
open Option (some)

/-- The chunks of one stream. -/
def ofStream (stream : Nat) (chunks : List Queued) : List LogChunk :=
  (chunks.filter fun q => q.stream = stream).map Queued.chunk

@[simp] theorem ofStream_nil (stream : Nat) : ofStream stream [] = [] := rfl

@[simp] theorem ofStream_append (stream : Nat) (xs ys : List Queued) :
    ofStream stream (xs ++ ys) = ofStream stream xs ++ ofStream stream ys := by
  rw [ofStream, filter_append, map_append]
  rfl

theorem ofStream_singleton (stream : Nat) (q : Queued) :
    ofStream stream [q] = if q.stream = stream then [q.chunk] else [] := by
  by_cases h : q.stream = stream
  · simp [ofStream, h]
  · simp [ofStream, h]

/-- The bytes of chunks. -/
def bytesOf (chunks : List LogChunk) : Nat :=
  chunks.foldl (fun total chunk => total + chunk.data.length) 0

namespace HandlerPc

/-- Between the handler's two accesses to the count of the clients. -/
def Connected : HandlerPc → Prop
  | .notCalled => False
  | .admitted => False
  | .left _ => False
  | _ => True

/-- In `put_chunk`, or not done with counting what it put. -/
def Busy : HandlerPc → Prop
  | .testing _ => True
  | .putting _ => True
  | .accepted _ => True
  | _ => False

/-- The chunk that is on the queue and not yet counted. -/
def pending : HandlerPc → List LogChunk
  | .accepted chunk => [chunk]
  | _ => []

theorem connected_of_busy {pc : HandlerPc} (h : pc.Busy) : pc.Connected := by
  cases pc with
  | testing => trivial
  | putting => trivial
  | accepted => trivial
  | _ => exact h.elim

theorem pending_of_not_busy {pc : HandlerPc} (h : ¬ pc.Busy) : pc.pending = [] := by
  cases pc with
  | accepted => exact absurd trivial h
  | _ => rfl

end HandlerPc

/-- The shutdown has seen no client connected. -/
def ShutdownPc.SeenAlone : ShutdownPc → Prop
  | .alone => True
  | .stopping => True
  | .stopped => True
  | _ => False

/-- The shutdown has set the stop flag. -/
def ShutdownPc.Stopped : ShutdownPc → Prop
  | .stopping => True
  | .stopped => True
  | _ => False

/-- The items that the shutdown has yet to put. -/
def ShutdownPc.toSend : ShutdownPc → Nat
  | .stopped => 0
  | _ => 1

theorem ShutdownPc.seenAlone_of_stopped {pc : ShutdownPc} (h : pc.Stopped) : pc.SeenAlone := by
  cases pc with
  | stopping => trivial
  | stopped => trivial
  | _ => exact h.elim

namespace LeafServer

/-- The chunks on the queue, the oldest first. -/
def waiting (s : LeafServer) : List Queued :=
  s.queue.filterMap Item.queued?

/-- When the generator finds the stop flag set after a `get` that timed out, no chunk is on the
queue. -/
def Clear (s : LeafServer) : Action → Prop
  | .generate => s.generator = .timedOut → s.stopForwarder = true → s.waiting = []
  | _ => True

instance (s : LeafServer) (a : Action) : Decidable (s.Clear a) := by
  cases a <;> unfold Clear <;> infer_instance

/-- No condition on the steps. -/
abbrev Any : LeafServer → Action → Prop := fun _ _ => True

/-! ## What a step does -/

/-- A handler may go on from one point to another by itself. -/
structure Goes (s : LeafServer) (source target : HandlerPc) : Prop where
  connected : target.Connected ↔ source.Connected
  unpending : source.pending = []
  pending : target.pending = []
  busy : target.Busy → source.Busy ∨ s.rejectNewStreams = false

inductive Moves (s : LeafServer) (a : Action) (t : LeafServer) : Prop
  | goes (stream : Nat) (pc : HandlerPc) (hgoes : s.Goes (s.handlers stream).pc pc)
      (ht : t = s.goTo stream pc)
  | connects (stream : Nat) (hpc : (s.handlers stream).pc = .admitted)
      (ht : t = { s with connectedClients := s.connectedClients + 1 }.goTo stream .receiving)
  | disconnects (stream : Nat) (outcome : Outcome)
      (hpc : (s.handlers stream).pc = .leaving outcome)
      (ht : t = { s with connectedClients := s.connectedClients - 1 }.goTo stream
        (.left outcome))
  | accepts (stream : Nat) (chunk : LogChunk) (hpc : (s.handlers stream).pc = .putting chunk)
      (hroom : s.HasRoom)
      (ht : t = { s with queue := s.queue ++ [Item.chunk ⟨stream, chunk⟩] }.goTo stream
        (.accepted chunk))
  | counts (stream : Nat) (chunk : LogChunk) (hpc : (s.handlers stream).pc = .accepted chunk)
      (ht : t = s.setHandler stream ((s.handlers stream).count chunk))
  | takes (queued : Queued) (rest : List Item) (hgenerator : s.generator = .getting)
      (hqueue : s.queue = Item.chunk queued :: rest)
      (ht : t = { s with queue := rest, yielded := s.yielded ++ [queued] })
  | takesStop (rest : List Item) (hgenerator : s.generator = .getting)
      (hqueue : s.queue = Item.stop :: rest)
      (ht : t = { s with queue := rest, generator := .returned })
  | timesOut (hgenerator : s.generator = .getting) (hqueue : s.queue = [])
      (ht : t = { s with generator := .timedOut })
  | tests (ha : a = .generate) (hgenerator : s.generator = .timedOut)
      (ht : t = { s with generator := if s.stopForwarder then .returned else .getting })
  | rejects (hshutdown : s.shutdown = .notCalled)
      (ht : t = { s with rejectNewStreams := true, shutdown := .waiting })
  | looks (hshutdown : s.shutdown = .waiting)
      (ht : t = { s with shutdown := if s.connectedClients = 0 then .alone else .waiting })
  | stops (hshutdown : s.shutdown = .alone)
      (ht : t = { s with stopForwarder := true, shutdown := .stopping })
  | sends (hshutdown : s.shutdown = .stopping) (hroom : s.HasRoom)
      (ht : t = { s with queue := s.queue ++ [Item.stop], shutdown := .stopped })
  | givesUp (hshutdown : s.shutdown = .stopping) (ht : t = { s with shutdown := .stopped })

variable {s t : LeafServer} {a : Action}

theorem moves_generate (h : s.generate = some t) : Moves s .generate t := by
  unfold generate at h
  split at h
  · rename_i hgenerator
    split at h
    · rename_i hqueue
      exact .timesOut hgenerator hqueue (some.inj h).symm
    · rename_i queued rest hqueue
      exact .takes queued rest hgenerator hqueue (some.inj h).symm
    · rename_i rest hqueue
      exact .takesStop rest hgenerator hqueue (some.inj h).symm
  · rename_i hgenerator
    exact .tests rfl hgenerator (some.inj h).symm
  · cases h

theorem moves_shutdownLeaf (h : s.shutdownLeaf = some t) : Moves s .shutdown t := by
  unfold shutdownLeaf at h
  split at h
  · exact .rejects ‹_› (some.inj h).symm
  · exact .looks ‹_› (some.inj h).symm
  · exact .stops ‹_› (some.inj h).symm
  · rename_i hshutdown
    split at h
    · exact .sends hshutdown ‹_› (some.inj h).symm
    · exact .givesUp hshutdown (some.inj h).symm
  · cases h

/-- A handler that leaves `put_chunk` or never was in it goes anywhere out of it. -/
theorem goes_of_not_busy {source target : HandlerPc}
    (hconnected : target.Connected ↔ source.Connected) (hpending : source.pending = [])
    (hbusy : ¬ target.Busy) : s.Goes source target :=
  ⟨hconnected, hpending, HandlerPc.pending_of_not_busy hbusy, fun h => absurd h hbusy⟩

theorem moves_handler (ha : a ≠ .generate) (ha' : a ≠ .shutdown) (h : s.step a = some t) :
    Moves s a t := by
  cases a with
  | generate => exact absurd rfl ha
  | shutdown => exact absurd rfl ha'
  | call stream =>
    change s.call stream = some t at h
    unfold call at h
    split at h
    · rename_i hpc
      refine .goes stream _ ?_ (some.inj h).symm
      rw [hpc]
      split <;> exact goes_of_not_busy Iff.rfl rfl id
    · cases h
  | connect stream =>
    change s.connect stream = some t at h
    unfold connect at h
    split at h
    · exact .connects stream ‹_› (some.inj h).symm
    · cases h
  | receive stream chunk =>
    change s.receive stream chunk = some t at h
    unfold receive at h
    split at h
    · rename_i hpc
      refine .goes stream _ ?_ (some.inj h).symm
      rw [hpc]
      split
      · exact goes_of_not_busy Iff.rfl rfl id
      · rename_i hreject
        exact ⟨Iff.rfl, rfl, rfl, fun _ => .inr (Bool.of_not_eq_true hreject)⟩
    · cases h
  | finish stream =>
    change s.finish stream = some t at h
    unfold finish at h
    split at h
    · rename_i hpc
      refine .goes stream _ ?_ (some.inj h).symm
      rw [hpc]
      exact goes_of_not_busy Iff.rfl rfl id
    · cases h
  | interrupt stream =>
    change s.interrupt stream = some t at h
    unfold interrupt at h
    split at h
    · rename_i hpc
      refine .goes stream _ ?_ (some.inj h).symm
      rw [hpc]
      exact goes_of_not_busy Iff.rfl rfl id
    · cases h
  | test stream =>
    change s.test stream = some t at h
    unfold LeafServer.test at h
    split at h
    · rename_i chunk hpc
      refine .goes stream _ ?_ (some.inj h).symm
      rw [hpc]
      split
      · exact goes_of_not_busy Iff.rfl rfl id
      · exact ⟨Iff.rfl, rfl, rfl, fun _ => .inl trivial⟩
    · cases h
  | put stream =>
    change s.put stream = some t at h
    unfold put at h
    split at h
    · rename_i chunk hpc
      split at h
      · exact .accepts stream chunk hpc ‹_› (some.inj h).symm
      · refine .goes stream _ ?_ (some.inj h).symm
        rw [hpc]
        exact ⟨Iff.rfl, rfl, rfl, fun _ => .inl trivial⟩
    · cases h
  | count stream =>
    change s.count stream = some t at h
    unfold count at h
    split at h
    · rename_i chunk hpc
      exact .counts stream chunk hpc (some.inj h).symm
    · cases h
  | disconnect stream =>
    change s.disconnect stream = some t at h
    unfold disconnect at h
    split at h
    · rename_i outcome hpc
      exact .disconnects stream outcome hpc (some.inj h).symm
    · cases h

theorem moves_of_step (h : s.step a = some t) : Moves s a t := by
  by_cases hgenerate : a = .generate
  · subst hgenerate
    exact moves_generate h
  · by_cases hshutdown : a = .shutdown
    · subst hshutdown
      exact moves_shutdownLeaf h
    · exact moves_handler hgenerate hshutdown h

/-! ## The invariant -/

structure Invariant (s : LeafServer) : Prop where
  bounded : s.queue.length ≤ s.maxChunks
  /-- What was yielded and what waits of a stream is what its handler has had accepted. -/
  once : ∀ i, ofStream i s.yielded ++ ofStream i s.waiting =
    (s.handlers i).counted ++ (s.handlers i).pc.pending
  totals : ∀ i, (s.handlers i).total = bytesOf (s.handlers i).counted
  clients : ∃ streams : List Nat, streams.Nodup ∧ streams.length = s.connectedClients ∧
    ∀ i, i ∈ streams ↔ (s.handlers i).pc.Connected
  rejecting : s.shutdown ≠ .notCalled → s.rejectNewStreams = true
  /-- Once no client was seen no handler puts anything. -/
  quiet : s.shutdown.SeenAlone → ∀ i, ¬ (s.handlers i).pc.Busy
  stopped : s.stopForwarder = true → s.shutdown.Stopped
  sentinel : Item.stop ∈ s.queue → s.shutdown = .stopped
  /-- Nothing is behind the sentinel. -/
  last : ∀ before rest, s.queue = before ++ Item.stop :: rest → rest = []

theorem invariant_started (maxChunks : Nat) : (started maxChunks).Invariant where
  bounded := Nat.zero_le _
  once _ := rfl
  totals _ := rfl
  clients := ⟨[], nodup_nil, rfl, fun _ => ⟨fun h => absurd h not_mem_nil, False.elim⟩⟩
  rejecting h := absurd rfl h
  quiet h := h.elim
  stopped h := absurd h Bool.false_ne_true
  sentinel h := absurd h not_mem_nil
  last before rest h := by
    cases before <;> cases h

theorem handlers_setHandler (s : LeafServer) (stream i : Nat) (handler : Handler) :
    (s.setHandler stream handler).handlers i = if i = stream then handler else s.handlers i :=
  Function.update_apply s.handlers stream handler i

theorem handlers_goTo (s : LeafServer) (stream i : Nat) (pc : HandlerPc) :
    (s.goTo stream pc).handlers i =
      if i = stream then { s.handlers stream with pc := pc } else s.handlers i :=
  handlers_setHandler s stream i _

@[simp] theorem counted_goTo (s : LeafServer) (stream i : Nat) (pc : HandlerPc) :
    ((s.goTo stream pc).handlers i).counted = (s.handlers i).counted := by
  rw [handlers_goTo]
  split
  · rename_i h
    rw [h]
  · rfl

@[simp] theorem total_goTo (s : LeafServer) (stream i : Nat) (pc : HandlerPc) :
    ((s.goTo stream pc).handlers i).total = (s.handlers i).total := by
  rw [handlers_goTo]
  split
  · rename_i h
    rw [h]
  · rfl

theorem pc_goTo (s : LeafServer) (stream i : Nat) (pc : HandlerPc) :
    ((s.goTo stream pc).handlers i).pc = if i = stream then pc else (s.handlers i).pc := by
  rw [handlers_goTo]
  split <;> rfl

/-- What a handler does by itself. -/
theorem Invariant.goes (h : s.Invariant) {stream : Nat} {pc : HandlerPc}
    (hgoes : s.Goes (s.handlers stream).pc pc) : (s.goTo stream pc).Invariant :=
  { h with
    once := fun i => by
      rw [counted_goTo, pc_goTo]
      split
      · rename_i hi
        subst hi
        have := h.once i
        rwa [hgoes.unpending, ← hgoes.pending] at this
      · exact h.once i
    totals := fun i => by
      rw [counted_goTo, total_goTo]
      exact h.totals i
    clients := by
      obtain ⟨streams, hnodup, hlength, hmem⟩ := h.clients
      refine ⟨streams, hnodup, hlength, fun i => ?_⟩
      rw [pc_goTo, hmem i]
      split
      · rename_i hi
        subst hi
        exact hgoes.connected.symm
      · exact Iff.rfl
    quiet := fun hseen i => by
      rw [pc_goTo]
      split
      · intro hbusy
        rcases hgoes.busy hbusy with hwas | hreject
        · exact h.quiet hseen stream hwas
        · have hset : s.rejectNewStreams = true := h.rejecting fun hnot => by
            change s.shutdown.SeenAlone at hseen
            rw [hnot] at hseen
            exact hseen
          rw [hreject] at hset
          cases hset
      · exact h.quiet hseen i }

/-- A handler counts itself as a client. -/
theorem Invariant.connects (h : s.Invariant) {stream : Nat}
    (hpc : (s.handlers stream).pc = .admitted) :
    ({ s with connectedClients := s.connectedClients + 1 }.goTo stream .receiving).Invariant :=
  { h with
    once := fun i => by
      rw [counted_goTo, pc_goTo]
      split
      · rename_i hi
        subst hi
        have := h.once i
        rwa [hpc] at this
      · exact h.once i
    totals := fun i => by
      rw [counted_goTo, total_goTo]
      exact h.totals i
    clients := by
      obtain ⟨streams, hnodup, hlength, hmem⟩ := h.clients
      have hnew : stream ∉ streams := by
        rw [hmem stream, hpc]
        exact id
      refine ⟨stream :: streams, nodup_cons.mpr ⟨hnew, hnodup⟩,
        congrArg (· + 1) hlength, fun i => ?_⟩
      rw [mem_cons, pc_goTo, hmem i]
      split
      · rename_i hi
        exact ⟨fun _ => trivial, fun _ => .inl hi⟩
      · rename_i hi
        exact ⟨fun hor => hor.resolve_left hi, .inr⟩
    quiet := fun hseen i => by
      rw [pc_goTo]
      split
      · exact id
      · exact h.quiet hseen i }

/-- A handler takes itself off the clients. -/
theorem Invariant.disconnects (h : s.Invariant) {stream : Nat} {outcome : Outcome}
    (hpc : (s.handlers stream).pc = .leaving outcome) :
    ({ s with connectedClients := s.connectedClients - 1 }.goTo stream
      (.left outcome)).Invariant :=
  { h with
    once := fun i => by
      rw [counted_goTo, pc_goTo]
      split
      · rename_i hi
        subst hi
        have := h.once i
        rwa [hpc] at this
      · exact h.once i
    totals := fun i => by
      rw [counted_goTo, total_goTo]
      exact h.totals i
    clients := by
      obtain ⟨streams, hnodup, hlength, hmem⟩ := h.clients
      have hold : stream ∈ streams := by
        rw [hmem stream, hpc]
        trivial
      refine ⟨streams.erase stream, hnodup.erase stream, ?_, fun i => ?_⟩
      · rw [length_erase_of_mem hold, hlength]
        rfl
      · rw [hnodup.mem_erase_iff, pc_goTo, hmem i]
        split
        · rename_i hi
          exact ⟨fun hand => absurd hi hand.1, False.elim⟩
        · rename_i hi
          exact ⟨And.right, fun hconnected => ⟨hi, hconnected⟩⟩
    quiet := fun hseen i => by
      rw [pc_goTo]
      split
      · exact id
      · exact h.quiet hseen i }

/-- A chunk is put on the queue. -/
theorem Invariant.accepts (h : s.Invariant) {stream : Nat} {chunk : LogChunk}
    (hpc : (s.handlers stream).pc = .putting chunk) (hroom : s.HasRoom) :
    ({ s with queue := s.queue ++ [Item.chunk ⟨stream, chunk⟩] }.goTo stream
      (.accepted chunk)).Invariant := by
  have hbusy : (s.handlers stream).pc.Busy := by
    rw [hpc]
    trivial
  have hnotSeen : ¬ s.shutdown.SeenAlone := fun hseen => h.quiet hseen stream hbusy
  have hnoStop : Item.stop ∉ s.queue := fun hmem => by
    rw [h.sentinel hmem] at hnotSeen
    exact hnotSeen trivial
  have hnoStop' : Item.stop ∉ s.queue ++ [Item.chunk ⟨stream, chunk⟩] := fun hmem => by
    rcases mem_append.mp hmem with hold | hnew
    · exact hnoStop hold
    · cases mem_singleton.mp hnew
  exact
    { h with
      bounded := by
        show (s.queue ++ [Item.chunk ⟨stream, chunk⟩]).length ≤ s.maxChunks
        rw [length_append]
        exact hroom
      once := fun i => by
        have hwaiting : waiting ({ s with
            queue := s.queue ++ [Item.chunk ⟨stream, chunk⟩] }.goTo stream (.accepted chunk)) =
              s.waiting ++ [⟨stream, chunk⟩] := filterMap_append
        rw [hwaiting, counted_goTo, pc_goTo, ofStream_append, ofStream_singleton,
          ← append_assoc]
        have hold := h.once i
        show (ofStream i s.yielded ++ ofStream i s.waiting) ++ _ = (s.handlers i).counted ++ _
        rw [hold]
        split
        · rename_i hi
          dsimp only at hi
          subst hi
          rw [if_pos rfl, hpc]
          exact congrArg (· ++ _) (append_nil _)
        · rename_i hi
          rw [if_neg (Ne.symm hi), append_nil]
      totals := fun i => by
        rw [counted_goTo, total_goTo]
        exact h.totals i
      clients := by
        obtain ⟨streams, hnodup, hlength, hmem⟩ := h.clients
        refine ⟨streams, hnodup, hlength, fun i => ?_⟩
        rw [pc_goTo, hmem i]
        split
        · rename_i hi
          rw [hi, hpc]
          exact Iff.rfl
        · exact Iff.rfl
      quiet := fun hseen => absurd hseen hnotSeen
      sentinel := fun hmem => absurd hmem hnoStop'
      last := fun before rest heq => by
        refine absurd ?_ hnoStop'
        change s.queue ++ [Item.chunk ⟨stream, chunk⟩] = _ at heq
        rw [heq]
        exact mem_append_right _ mem_cons_self }

theorem bytesOf_concat (chunks : List LogChunk) (chunk : LogChunk) :
    bytesOf (chunks ++ [chunk]) = bytesOf chunks + chunk.data.length := by
  unfold bytesOf
  rw [foldl_append]
  rfl

/-- A handler counts the chunk that was put. -/
theorem Invariant.counts (h : s.Invariant) {stream : Nat} {chunk : LogChunk}
    (hpc : (s.handlers stream).pc = .accepted chunk) :
    (s.setHandler stream ((s.handlers stream).count chunk)).Invariant :=
  { h with
    once := fun i => by
      rw [handlers_setHandler]
      split
      · rename_i hi
        subst hi
        have := h.once i
        rw [hpc] at this
        exact this.trans (append_nil _).symm
      · exact h.once i
    totals := fun i => by
      rw [handlers_setHandler]
      split
      · rw [Handler.count, bytesOf_concat, h.totals stream]
      · exact h.totals i
    clients := by
      obtain ⟨streams, hnodup, hlength, hmem⟩ := h.clients
      refine ⟨streams, hnodup, hlength, fun i => ?_⟩
      rw [handlers_setHandler, hmem i]
      split
      · rename_i hi
        rw [hi, hpc]
        exact Iff.rfl
      · exact Iff.rfl
    quiet := fun hseen i => by
      rw [handlers_setHandler]
      split
      · exact id
      · exact h.quiet hseen i }

/-- The generator yields the first chunk. -/
theorem Invariant.takes (h : s.Invariant) {queued : Queued} {rest : List Item}
    (hqueue : s.queue = Item.chunk queued :: rest) :
    Invariant { s with queue := rest, yielded := s.yielded ++ [queued] } :=
  { h with
    bounded := by
      have := h.bounded
      rw [hqueue] at this
      exact Nat.le_of_succ_le this
    once := fun i => by
      have hwaiting : s.waiting = [queued] ++ rest.filterMap Item.queued? := by
        rw [waiting, hqueue]
        rfl
      have hold := h.once i
      rw [hwaiting, ofStream_append, ← append_assoc] at hold
      show ofStream i (s.yielded ++ [queued]) ++ ofStream i (rest.filterMap Item.queued?) = _
      rw [ofStream_append]
      exact hold
    sentinel := fun hmem => h.sentinel (hqueue ▸ mem_cons_of_mem _ hmem)
    last := fun before behind heq =>
      h.last (Item.chunk queued :: before) behind (hqueue.trans (congrArg _ heq)) }

/-- The generator comes to the sentinel. -/
theorem Invariant.takesStop (h : s.Invariant) {rest : List Item}
    (hqueue : s.queue = Item.stop :: rest) :
    Invariant { s with queue := rest, generator := .returned } :=
  { h with
    bounded := by
      have := h.bounded
      rw [hqueue] at this
      exact Nat.le_of_succ_le this
    once := fun i => by
      have hwaiting : s.waiting = rest.filterMap Item.queued? := by
        rw [waiting, hqueue]
        rfl
      have hold := h.once i
      rwa [hwaiting] at hold
    sentinel := fun hmem => h.sentinel (hqueue ▸ mem_cons_of_mem _ hmem)
    last := fun before behind heq =>
      h.last (Item.stop :: before) behind (hqueue.trans (congrArg _ heq)) }

theorem Invariant.rejects (h : s.Invariant) (hshutdown : s.shutdown = .notCalled) :
    Invariant { s with rejectNewStreams := true, shutdown := .waiting } :=
  { h with
    rejecting := fun _ => rfl
    quiet := fun hseen => hseen.elim
    stopped := fun hstop => by
      have := h.stopped hstop
      rw [hshutdown] at this
      exact this.elim
    sentinel := fun hmem => by
      have := h.sentinel hmem
      rw [hshutdown] at this
      cases this }

/-- The shutdown looks whether a client is connected. -/
theorem Invariant.looks (h : s.Invariant) (hshutdown : s.shutdown = .waiting) :
    Invariant { s with
      shutdown := if s.connectedClients = 0 then .alone else .waiting } := by
  have hreject : s.rejectNewStreams = true := h.rejecting fun hnot => by
    rw [hshutdown] at hnot
    cases hnot
  exact
    { h with
      rejecting := fun _ => hreject
      quiet := fun hseen i hbusy => by
        -- no client is connected, so no handler is between its two accesses to the count
        obtain ⟨streams, -, hlength, hmem⟩ := h.clients
        by_cases hzero : s.connectedClients = 0
        · rw [hzero] at hlength
          have hmem' := (hmem i).mpr (HandlerPc.connected_of_busy hbusy)
          rw [eq_nil_of_length_eq_zero hlength] at hmem'
          cases hmem'
        · dsimp only at hseen
          rw [if_neg hzero] at hseen
          exact hseen
      stopped := fun hstop => by
        have := h.stopped hstop
        rw [hshutdown] at this
        exact this.elim
      sentinel := fun hmem => by
        have := h.sentinel hmem
        rw [hshutdown] at this
        cases this }

theorem Invariant.stops (h : s.Invariant) (hshutdown : s.shutdown = .alone) :
    Invariant { s with stopForwarder := true, shutdown := .stopping } :=
  { h with
    rejecting := fun _ => h.rejecting fun hnot => by
      rw [hshutdown] at hnot
      cases hnot
    quiet := fun _ => h.quiet (by rw [hshutdown]; trivial)
    stopped := fun _ => trivial
    sentinel := fun hmem => by
      have := h.sentinel hmem
      rw [hshutdown] at this
      cases this }

/-- The shutdown puts the sentinel on the queue. -/
theorem Invariant.sends (h : s.Invariant) (hshutdown : s.shutdown = .stopping)
    (hroom : s.HasRoom) :
    Invariant { s with queue := s.queue ++ [Item.stop], shutdown := .stopped } := by
  have hnoStop : Item.stop ∉ s.queue := fun hmem => by
    have := h.sentinel hmem
    rw [hshutdown] at this
    cases this
  exact
    { h with
      bounded := by
        show (s.queue ++ [Item.stop]).length ≤ s.maxChunks
        rw [length_append]
        exact hroom
      once := fun i => by
        have hwaiting : (s.queue ++ [Item.stop]).filterMap Item.queued? = s.waiting :=
          filterMap_append.trans (append_nil _)
        show ofStream i s.yielded ++
          ofStream i ((s.queue ++ [Item.stop]).filterMap Item.queued?) = _
        rw [hwaiting]
        exact h.once i
      rejecting := fun _ => h.rejecting fun hnot => by
        rw [hshutdown] at hnot
        cases hnot
      quiet := fun _ => h.quiet (by rw [hshutdown]; trivial)
      stopped := fun _ => trivial
      sentinel := fun _ => rfl
      last := fun before rest heq => by
        rcases eq_nil_or_concat rest with rfl | ⟨init, last, rfl⟩
        · rfl
        · -- a sentinel before the last place would have been on the queue already
          rw [concat_eq_append, ← cons_append, ← append_assoc] at heq
          have hinit := (append_inj' heq rfl).1
          refine absurd ?_ hnoStop
          rw [hinit]
          exact mem_append_right _ mem_cons_self }

theorem Invariant.givesUp (h : s.Invariant) (hshutdown : s.shutdown = .stopping) :
    Invariant { s with shutdown := .stopped } :=
  { h with
    rejecting := fun _ => h.rejecting fun hnot => by
      rw [hshutdown] at hnot
      cases hnot
    quiet := fun _ => h.quiet (by rw [hshutdown]; trivial)
    stopped := fun _ => trivial
    sentinel := fun _ => rfl }

theorem Invariant.of_moves (h : s.Invariant) (hmoves : Moves s a t) : t.Invariant := by
  cases hmoves with
  | goes stream pc hgoes ht => exact ht ▸ h.goes hgoes
  | connects stream hpc ht => exact ht ▸ h.connects hpc
  | disconnects stream outcome hpc ht => exact ht ▸ h.disconnects hpc
  | accepts stream chunk hpc hroom ht => exact ht ▸ h.accepts hpc hroom
  | counts stream chunk hpc ht => exact ht ▸ h.counts hpc
  | takes queued rest hgenerator hqueue ht => exact ht ▸ h.takes hqueue
  | takesStop rest hgenerator hqueue ht => exact ht ▸ h.takesStop hqueue
  | timesOut hgenerator hqueue ht => exact ht ▸ { h with }
  | tests ha hgenerator ht => exact ht ▸ { h with }
  | rejects hshutdown ht => exact ht ▸ h.rejects hshutdown
  | looks hshutdown ht => exact ht ▸ h.looks hshutdown
  | stops hshutdown ht => exact ht ▸ h.stops hshutdown
  | sends hshutdown hroom ht => exact ht ▸ h.sends hshutdown hroom
  | givesUp hshutdown ht => exact ht ▸ h.givesUp hshutdown

theorem invariant_of_reachable {C : LeafServer → Action → Prop} (h : system.Reachable C s) :
    s.Invariant :=
  h.invariant (fun _ ⟨maxChunks, _, hstart⟩ => hstart ▸ invariant_started maxChunks)
    fun _ _ _ hinv _ hstep => hinv.of_moves (moves_of_step hstep)

/-! ## The generator returns -/

/-- The steps that the generator has before it once the stop flag is set: the items, the
sentinel that may still come, and the last `get` that times out. -/
def left (s : LeafServer) : Nat :=
  match s.generator with
  | .getting => s.queue.length + s.shutdown.toSend + 2
  | .timedOut => 1
  | .returned => 0

/-- With the stop flag set no step takes the generator away from its end. -/
theorem left_le_of_moves (h : s.Invariant) (hstop : s.stopForwarder = true)
    (hmoves : Moves s a t) : t.stopForwarder = true ∧ t.left ≤ s.left := by
  have hstopped := h.stopped hstop
  cases hmoves with
  | goes stream pc hgoes ht => exact ht ▸ ⟨hstop, Nat.le_refl _⟩
  | connects stream hpc ht => exact ht ▸ ⟨hstop, Nat.le_refl _⟩
  | disconnects stream outcome hpc ht => exact ht ▸ ⟨hstop, Nat.le_refl _⟩
  | accepts stream chunk hpc hroom ht =>
    have hbusy : (s.handlers stream).pc.Busy := by
      rw [hpc]
      trivial
    exact absurd hbusy (h.quiet (ShutdownPc.seenAlone_of_stopped hstopped) stream)
  | counts stream chunk hpc ht => exact ht ▸ ⟨hstop, Nat.le_refl _⟩
  | takes queued rest hgenerator hqueue ht =>
    refine ht ▸ ⟨hstop, ?_⟩
    simp only [left, hgenerator, hqueue, length_cons]
    omega
  | takesStop rest hgenerator hqueue ht => exact ht ▸ ⟨hstop, Nat.zero_le _⟩
  | timesOut hgenerator hqueue ht =>
    refine ht ▸ ⟨hstop, ?_⟩
    simp only [left, hgenerator]
    omega
  | tests ha hgenerator ht =>
    refine ht ▸ ⟨hstop, ?_⟩
    simp only [left, hstop, if_true]
    exact Nat.zero_le _
  | rejects hshutdown ht => exact absurd hstopped (by rw [hshutdown]; exact id)
  | looks hshutdown ht => exact absurd hstopped (by rw [hshutdown]; exact id)
  | stops hshutdown ht => exact absurd hstopped (by rw [hshutdown]; exact id)
  | sends hshutdown hroom ht =>
    refine ht ▸ ⟨hstop, ?_⟩
    simp only [left, hshutdown, ShutdownPc.toSend, length_append, length_singleton]
    split <;> exact Nat.le_refl _
  | givesUp hshutdown ht =>
    refine ht ▸ ⟨hstop, ?_⟩
    simp only [left, hshutdown, ShutdownPc.toSend]
    split
    · omega
    · exact Nat.le_refl _
    · exact Nat.le_refl _

/-- Each step of the generator brings it nearer to its end. -/
theorem left_lt_of_generate (hstop : s.stopForwarder = true) (h : s.generate = some t) :
    t.left < s.left := by
  unfold generate at h
  split at h
  · rename_i hgenerator
    split at h
    · cases h
      simp only [left, hgenerator]
      omega
    · rename_i queued rest hqueue
      cases h
      simp only [left, hgenerator, hqueue, length_cons]
      omega
    · cases h
      simp only [left, hgenerator]
      omega
  · rename_i hgenerator
    cases h
    simp only [left, hgenerator, hstop, if_true]
    exact Nat.zero_lt_one
  · cases h

/-- The steps of the generator in a run after the stop. -/
theorem left_of_run {actions : List Action} (hrun : system.Run Any s actions t) (h : s.Invariant)
    (hstop : s.stopForwarder = true) :
    t.left + (actions.filter fun a => a = .generate).length ≤ s.left := by
  induction hrun with
  | nil s => exact Nat.le_refl _
  | @cons s t u a actions _ hstep _ ih =>
    have hmoves := moves_of_step hstep
    obtain ⟨hstop', hle⟩ := left_le_of_moves h hstop hmoves
    have hrest := ih (h.of_moves hmoves) hstop'
    by_cases ha : a = .generate
    · subst ha
      have hless : t.left < s.left := left_lt_of_generate hstop hstep
      rw [filter_cons, if_pos (decide_eq_true rfl), length_cons]
      omega
    · rw [filter_cons, if_neg (mt of_decide_eq_true ha)]
      omega

theorem returned_of_left (h : s.left = 0) : s.generator = .returned := by
  cases hgenerator : s.generator with
  | returned => rfl
  | getting | timedOut =>
    simp only [left, hgenerator] at h
    omega

theorem exists_generate (h : s.generator ≠ .returned) : ∃ t, s.generate = some t := by
  unfold generate
  cases hgenerator : s.generator with
  | returned => exact absurd hgenerator h
  | timedOut => exact ⟨_, rfl⟩
  | getting =>
    dsimp only
    split <;> exact ⟨_, rfl⟩

/-! ## What has been forwarded when it has returned -/

/-- Where the steps are clear the generator returns after the last chunk. -/
structure Ended (s : LeafServer) : Prop where
  waiting : s.generator = .returned → s.waiting = []
  seenAlone : s.generator = .returned → s.shutdown.SeenAlone

theorem ended_of_ne_returned (h : s.generator ≠ .returned) : s.Ended :=
  ⟨fun hreturned => absurd hreturned h, fun hreturned => absurd hreturned h⟩

theorem Ended.of_moves (h : s.Ended) (hinv : s.Invariant) (hclear : s.Clear a)
    (hmoves : Moves s a t) : t.Ended := by
  cases hmoves with
  | goes stream pc hgoes ht => exact ht ▸ { h with }
  | connects stream hpc ht => exact ht ▸ { h with }
  | disconnects stream outcome hpc ht => exact ht ▸ { h with }
  | accepts stream chunk hpc hroom ht =>
    have hbusy : (s.handlers stream).pc.Busy := by
      rw [hpc]
      trivial
    subst ht
    exact ⟨fun hreturned => absurd hbusy (hinv.quiet (h.seenAlone hreturned) stream),
      h.seenAlone⟩
  | counts stream chunk hpc ht => exact ht ▸ { h with }
  | takes queued rest hgenerator hqueue ht =>
    subst ht
    refine ended_of_ne_returned ?_
    show s.generator ≠ .returned
    rw [hgenerator]
    exact fun heq => by cases heq
  | takesStop rest hgenerator hqueue ht =>
    subst ht
    have hrest := hinv.last [] rest hqueue
    have hstopped := hinv.sentinel (hqueue ▸ mem_cons_self)
    refine ⟨fun _ => ?_, fun _ => ?_⟩
    · show rest.filterMap Item.queued? = []
      rw [hrest]
      rfl
    · show s.shutdown.SeenAlone
      rw [hstopped]
      trivial
  | timesOut hgenerator hqueue ht =>
    subst ht
    exact ended_of_ne_returned fun hreturned => by cases hreturned
  | tests ha hgenerator ht =>
    subst ha ht
    by_cases hstop : s.stopForwarder = true
    · exact ⟨fun _ => hclear hgenerator hstop,
        fun _ => ShutdownPc.seenAlone_of_stopped (hinv.stopped hstop)⟩
    · refine ended_of_ne_returned ?_
      show (if s.stopForwarder = true then GeneratorPc.returned else .getting) ≠ .returned
      rw [if_neg hstop]
      exact fun heq => by cases heq
  | rejects hshutdown ht | looks hshutdown ht =>
    subst ht
    refine ⟨h.waiting, fun hreturned => ?_⟩
    have := h.seenAlone hreturned
    rw [hshutdown] at this
    exact this.elim
  | stops hshutdown ht => exact ht ▸ ⟨h.waiting, fun _ => trivial⟩
  | sends hshutdown hroom ht =>
    subst ht
    refine ⟨fun hreturned => ?_, fun _ => trivial⟩
    show (s.queue ++ [Item.stop]).filterMap Item.queued? = []
    rw [filterMap_append]
    exact (append_nil _).trans (h.waiting hreturned)
  | givesUp hshutdown ht => exact ht ▸ ⟨h.waiting, fun _ => trivial⟩

theorem ended_of_reachable (h : system.Reachable Clear s) : s.Ended := by
  refine (h.invariant (P := fun s => s.Invariant ∧ s.Ended) ?_ ?_).2
  · rintro _ ⟨maxChunks, -, rfl⟩
    exact ⟨invariant_started maxChunks,
      ended_of_ne_returned fun hreturned => by cases hreturned⟩
  · intro s a t ⟨hinv, hended⟩ hclear hstep
    have hmoves := moves_of_step hstep
    exact ⟨hinv.of_moves hmoves, hended.of_moves hinv hclear hmoves⟩

/-- The queue is within its bound; when the generator has returned, every chunk that a handler
has counted was yielded, once and in the stream's order; and once the stop flag is set the
generator returns, with its next steps, whatever the other threads do. -/
structure Forwards (s : LeafServer) : Prop where
  bounded : s.queue.length ≤ s.maxChunks
  forwarded : s.generator = .returned → ∀ i, ofStream i s.yielded = (s.handlers i).counted ∧
    (s.handlers i).total = bytesOf (s.handlers i).counted
  returns : s.stopForwarder = true → ∀ actions t, system.Run Any s actions t →
    s.left ≤ (actions.filter fun a => a = .generate).length → t.generator = .returned
  goesOn : s.generator ≠ .returned → ∃ t, s.step .generate = some t

theorem Invariant.forwards (h : s.Invariant)
    (hforwarded : s.generator = .returned → ∀ i, ofStream i s.yielded = (s.handlers i).counted) :
    s.Forwards where
  bounded := h.bounded
  forwarded hreturned i := ⟨hforwarded hreturned i, h.totals i⟩
  returns hstop actions t hrun hsteps := by
    have := left_of_run hrun h hstop
    exact returned_of_left (by omega)
  goesOn := exists_generate

theorem Ended.forwards (h : s.Ended) (hinv : s.Invariant) : s.Forwards := by
  refine hinv.forwards fun hreturned i => ?_
  have honce := hinv.once i
  rw [h.waiting hreturned,
    HandlerPc.pending_of_not_busy (hinv.quiet (h.seenAlone hreturned) i)] at honce
  exact ((append_nil _).symm.trans honce).trans (append_nil _)

/-- A generator that returns over a waiting chunk has not forwarded it. -/
theorem not_forwards_of_waiting (hinv : s.Invariant) (hgenerator : s.generator = .timedOut)
    (hstop : s.stopForwarder = true) (hwaiting : s.waiting ≠ []) (hstep : s.generate = some t) :
    ¬ t.Forwards := by
  have ht : t = { s with generator := .returned } := by
    unfold generate at hstep
    rw [hgenerator] at hstep
    dsimp only at hstep
    rw [if_pos hstop] at hstep
    exact (some.inj hstep).symm
  intro hforwards
  obtain ⟨q, rest, hq⟩ := exists_cons_of_ne_nil hwaiting
  have hall := (hforwards.forwarded (by rw [ht]) q.stream).1
  have honce := hinv.once q.stream
  have hquiet := hinv.quiet (ShutdownPc.seenAlone_of_stopped (hinv.stopped hstop)) q.stream
  rw [ht] at hall
  change ofStream q.stream s.yielded = (s.handlers q.stream).counted at hall
  rw [hall, HandlerPc.pending_of_not_busy hquiet] at honce
  have hnone := append_cancel_left honce
  rw [hq] at hnone
  have hfirst : ofStream q.stream (q :: rest) = q.chunk :: ofStream q.stream rest := by
    simp [ofStream]
  rw [hfirst] at hnone
  cases hnone

/-- As long as the generator, when a `get` timed out and it then finds the stop flag set, has no
chunk on the queue, the leaf forwards what it accepted; the first step that is otherwise
loses a chunk. -/
theorem forwards_of_reachable {s : LeafServer} (h : system.Reachable Clear s) :
    s.Forwards ∧ ∀ a t, s.step a = some t → (t.Forwards ↔ s.Clear a) := by
  have hinv := invariant_of_reachable h
  refine ⟨(ended_of_reachable h).forwards hinv, fun a t hstep => ⟨fun hforwards => ?_, ?_⟩⟩
  · by_contra hnot
    cases a with
    | generate =>
      obtain ⟨hgenerator, hnot⟩ := Classical.not_imp.mp hnot
      obtain ⟨hstop, hwaiting⟩ := Classical.not_imp.mp hnot
      exact not_forwards_of_waiting hinv hgenerator hstop hwaiting hstep hforwards
    | _ => exact hnot trivial
  · intro hclear
    exact (ended_of_reachable (.step h hclear hstep)).forwards (hinv.of_moves (moves_of_step hstep))

/-- The generator's `get` times out; then a chunk is put and counted, its stream ends, and the
shutdown sets the stop flag. -/
def lateChunk : List Action :=
  [.generate, .call 0, .connect 0, .receive 0 ⟨"n", [1], "f"⟩, .test 0, .put 0, .count 0,
    .finish 0, .disconnect 0, .shutdown, .shutdown, .shutdown, .generate]

/-- The generator returns with the chunk on the queue. -/
theorem not_forwards_lateChunk :
    ¬ ∀ s, system.Reachable Any s → s.Forwards := by
  intro h
  have hrun : ∃ s, system.Reachable Any s ∧ decide (s.generator = .returned ∧ s.yielded = [] ∧
      (s.handlers 0).counted = [⟨"n", [1], "f"⟩]) = true :=
    System.exists_reachable_of_execute ⟨1, Nat.le_refl 1, rfl⟩
      (show (system.execute Any (started 1) lateChunk).any _ = true by decide)
  obtain ⟨s, hreach, htest⟩ := hrun
  obtain ⟨hreturned, hyielded, hcounted⟩ := of_decide_eq_true htest
  have hall := ((h s hreach).forwarded hreturned 0).1
  rw [hyielded, hcounted] at hall
  cases hall

/-- A stream of one chunk, forwarded before the shutdown. -/
theorem forwards_early :
    ∃ s, system.Reachable Clear s ∧ s.generator = .returned ∧ s.Forwards := by
  have hrun : ∃ s, system.Reachable Clear s ∧ decide (s.generator = .returned) = true :=
    System.exists_reachable_of_execute ⟨1, Nat.le_refl 1, rfl⟩
      (show (system.execute Clear (started 1)
        [.call 0, .connect 0, .receive 0 ⟨"n", [1], "f"⟩, .test 0, .put 0, .generate, .count 0,
          .finish 0, .disconnect 0, .shutdown, .shutdown, .shutdown, .shutdown, .generate]).any
            _ = true by decide)
  obtain ⟨s, hreach, htest⟩ := hrun
  exact ⟨s, hreach, of_decide_eq_true htest, (forwards_of_reachable hreach).1⟩

end LeafServer

end ResiliencyExt.LogAggregation.Leaf
