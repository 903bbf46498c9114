import ResiliencyExt.Foundation.Agents
import ResiliencyExt.Foundation.Counting
import ResiliencyExt.Foundation.KeyValue

set_option autoImplicit false

/-!
# Inprocess: filtering by the size of a group

`FilterCountGroupedByKey` lets the alive ranks agree on the groups that are too
small.  Every alive rank adds one to the counter of its group, waits for the
others at a barrier, reads the counter, appends itself to a list if the condition
fails, waits at a second barrier and reads the list.

The barrier is `StoreMixin.barrier`, which counts arrivals with `add`.  Every
store operation is a step of its own.  Keys are the strings that the source
formats, so that keys chosen by the user meet the others in one store.
-/

namespace ResiliencyExt.Inprocess

open Foundation

/-! ## Keys -/

/-- `COUNT_ALIVE_BARRIER` and `SUBMIT_MISMATCHING_BARRIER` -/
inductive FilterBarrier where
  | countAlive
  | submitMismatching
  deriving DecidableEq, Repr

/-- The keys of a barrier: `store_key`, `last_worker_arrived_key`, `arrived_key`. -/
inductive BarrierKey where
  | count
  | lastWorkerArrived
  | arrived
  deriving DecidableEq, Repr

inductive FilterKey where
  /-- `prefixed_key` of a group. -/
  | counter (key : List Char)
  /-- `RANKS_TO_TERMINATE` -/
  | ranksToTerminate
  | barrier (b : FilterBarrier) (part : BarrierKey)
  deriving DecidableEq, Repr

/-- The literal parts of the keys. -/
inductive KeyLiteral where
  | filterGroupedByKey
  | ranksToTerminate
  | barrierPrefix
  | countAliveBarrier
  | submitMismatchingBarrier
  | lastWorkerArrived
  | arrived
  deriving DecidableEq, Repr

@[irreducible] def KeyLiteral.text : KeyLiteral → List Char
  | filterGroupedByKey => "filter_grouped_by_key_".toList
  | ranksToTerminate => "ranks_to_terminate_".toList
  | barrierPrefix => "inprocess_barrier_prefix:barrier:".toList
  | countAliveBarrier => "count_alive_barrier_".toList
  | submitMismatchingBarrier => "submit_mismatching_barrier_".toList
  | lastWorkerArrived => ":last_worker_arrived".toList
  | arrived => ":arrived".toList

def FilterBarrier.literal : FilterBarrier → KeyLiteral
  | .countAlive => .countAliveBarrier
  | .submitMismatching => .submitMismatchingBarrier

def BarrierKey.suffix : BarrierKey → List Char
  | .count => []
  | .lastWorkerArrived => KeyLiteral.lastWorkerArrived.text
  | .arrived => KeyLiteral.arrived.text

/-- The string that stands for a key in the store. -/
def FilterKey.format (name : List Char) : FilterKey → List Char
  | .counter key => KeyLiteral.filterGroupedByKey.text ++ (name ++ '_' :: key)
  | .ranksToTerminate => KeyLiteral.ranksToTerminate.text ++ name
  | .barrier b part =>
    KeyLiteral.barrierPrefix.text ++ (b.literal.text ++ (name ++ part.suffix))

/-- Literals that begin differently. -/
theorem KeyLiteral.eq_of_head? {a b : KeyLiteral} (h : a.text.head? = b.text.head?)
    (ha : a ≠ .lastWorkerArrived ∧ a ≠ .arrived) : a = b := by
  revert ha h
  cases a <;> cases b <;> decide +kernel

theorem KeyLiteral.eq_of_append {a b : KeyLiteral} {s t : List Char}
    (h : a.text ++ s = b.text ++ t) (ha : a ≠ .lastWorkerArrived ∧ a ≠ .arrived) : a = b := by
  have hsome : ∀ l : KeyLiteral, l.text.head?.isSome := by
    intro l
    cases l <;> decide +kernel
  have hhead := congrArg List.head? h
  rw [List.head?_append, List.head?_append, Option.or_of_isSome (hsome a),
    Option.or_of_isSome (hsome b)] at hhead
  exact eq_of_head? hhead ha

theorem BarrierKey.suffix_injective : Function.Injective BarrierKey.suffix := by
  intro a b
  cases a <;> cases b <;> decide +kernel

/-- Different keys have different names, whatever the user's keys are. -/
theorem FilterKey.format_injective (name : List Char) :
    Function.Injective (FilterKey.format name) := by
  intro k k' h
  cases k with
  | counter key =>
    cases k' with
    | counter key' =>
      have hkey := List.append_cancel_left (List.append_cancel_left h)
      rw [List.cons.injEq] at hkey
      rw [hkey.2]
    | ranksToTerminate | barrier _ _ => cases KeyLiteral.eq_of_append h (by decide)
  | ranksToTerminate =>
    cases k' with
    | ranksToTerminate => rfl
    | counter _ | barrier _ _ => cases KeyLiteral.eq_of_append h (by decide)
  | barrier b part =>
    cases k' with
    | barrier b' part' =>
      have hrest := List.append_cancel_left h
      have hliteral := KeyLiteral.eq_of_append hrest (by cases b <;> decide)
      have hb : b = b' := by
        cases b <;> cases b' <;> first | rfl | cases hliteral
      subst hb
      have hsuffix := List.append_cancel_left (List.append_cancel_left hrest)
      rw [BarrierKey.suffix_injective hsuffix]
    | counter _ | ranksToTerminate => cases KeyLiteral.eq_of_append h (by decide)

/-! ## The filter -/

/-- One call of the filter by all ranks of a world: the filter, what the ranks agree
on beforehand, and the group key of every rank as the source formats it. -/
structure FilterCountGroupedByKey where
  name : List Char
  keyOrFn : Nat → List Char
  condition : Nat → Bool
  timeout : Nat
  worldSize : Nat
  terminatedRanks : Finset Nat
  terminated_lt : ∀ rank ∈ terminatedRanks, rank < worldSize
  store : KeyValue (List Char)
  fresh : ∀ key : FilterKey, store (key.format name) = none

inductive FilterError where
  | barrierOverflow
  /-- `get` of a key that nobody sets. -/
  | storeTimeout
  /-- `ValueError` of `int`. -/
  | valueError
  deriving DecidableEq, Repr

/-- Where a call of `barrier` is. -/
inductive BarrierStage where
  | adding
  | appending (arrivedCount : Nat)
  | completing
  | waiting
  deriving DecidableEq, Repr

inductive FilterPhase where
  | starting
  | barrier (b : FilterBarrier) (stage : BarrierStage)
  /-- Before `int(store.get(prefixed_key))`. -/
  | counting
  /-- Before the append to the ranks to terminate. -/
  | submitting
  /-- Before `store.check`. -/
  | checking
  /-- Before the read of the ranks to terminate. -/
  | reading
  /-- The terminated ranks of the context that is returned. -/
  | returned (terminatedRanks : Finset Nat)
  | raised (error : FilterError)
  /-- `BarrierTimeout` -/
  | timedOut (b : FilterBarrier)
  deriving DecidableEq

inductive FilterEvent where
  /-- The next operation. -/
  | step
  /-- The timeout of a barrier expires. -/
  | expire
  deriving DecidableEq, Repr

namespace FilterCountGroupedByKey

variable (F : FilterCountGroupedByKey)

def key (key : FilterKey) : List Char :=
  key.format F.name

/-- `alive_world_size` -/
def aliveWorldSize : Nat :=
  F.worldSize - F.terminatedRanks.card

/-- `last_worker_arrived` of a barrier is set. -/
def opened (store : KeyValue (List Char)) (b : FilterBarrier) : Prop :=
  store (F.key (.barrier b .lastWorkerArrived)) ≠ none

instance (store : KeyValue (List Char)) (b : FilterBarrier) : Decidable (F.opened store b) :=
  inferInstanceAs (Decidable (_ ≠ _))

/-- What `barrier` does with the count that its `add` returned. -/
def afterAppend (b : FilterBarrier) (arrivedCount : Nat) : FilterPhase :=
  if arrivedCount > F.aliveWorldSize then .raised .barrierOverflow
  else if arrivedCount = F.aliveWorldSize then .barrier b .completing
  else .barrier b .waiting

/-- What comes behind a barrier. -/
def afterBarrier : FilterBarrier → FilterPhase
  | .countAlive => .counting
  | .submitMismatching => .checking

/-- The read of the group's counter, and the condition. -/
def decideGroup (rank : Nat) (store : KeyValue (List Char)) : FilterPhase :=
  match store (F.key (.counter (F.keyOrFn rank))) with
  | none => .raised .storeTimeout
  | some value =>
    match Text.parseInt value with
    | none => .raised .valueError
    | some groupCount =>
      if F.condition groupCount.toNat then .barrier .submitMismatching .adding
      else .submitting

/-- `set(int(r) for r in value.rstrip(',').split(','))`, united with the ranks that
were terminated before. -/
def collect (store : KeyValue (List Char)) : FilterPhase :=
  match store (F.key .ranksToTerminate) with
  | none => .raised .storeTimeout
  | some value =>
    match (Text.unpack ',' value).mapM Text.parseInt with
    | none => .raised .valueError
    | some ranksToTerminate =>
      .returned (F.terminatedRanks ∪ (ranksToTerminate.map Int.toNat).toFinset)

/-- One step of `__call__` on one rank. -/
def step (rank : Nat) (store : KeyValue (List Char)) :
    FilterPhase → FilterEvent → Option (KeyValue (List Char) × FilterPhase)
  | .starting, .step =>
    if rank ∈ F.terminatedRanks then some (store, .returned F.terminatedRanks)
    else
      some ((store.add (F.key (.counter (F.keyOrFn rank))) 1).1, .barrier .countAlive .adding)
  | .barrier b .adding, .step =>
    let added := store.add (F.key (.barrier b .count)) 1
    some (added.1, .barrier b (.appending added.2))
  | .barrier b (.appending arrivedCount), .step =>
    some (store.append (F.key (.barrier b .arrived)) (Text.entry ',' [Text.decimal rank]),
      F.afterAppend b arrivedCount)
  | .barrier b .completing, .step =>
    some (store.set (F.key (.barrier b .lastWorkerArrived)) ['1'], .barrier b .waiting)
  | .barrier b .waiting, .step =>
    if F.timeout = 0 ∨ F.opened store b then some (store, afterBarrier b) else none
  | .barrier b .waiting, .expire =>
    if F.timeout ≠ 0 then some (store, .timedOut b) else none
  | .counting, .step => some (store, F.decideGroup rank store)
  | .submitting, .step =>
    some (store.append (F.key .ranksToTerminate) (Text.entry ',' [Text.decimal rank]),
      .barrier .submitMismatching .adding)
  | .checking, .step =>
    if store (F.key .ranksToTerminate) = none then
      some (store, .returned F.terminatedRanks)
    else some (store, .reading)
  | .reading, .step => some (store, F.collect store)
  | _, _ => none

/-- The ranks of the world, each in its call of the filter. -/
def agents : Agents (KeyValue (List Char)) FilterPhase FilterEvent where
  shared := F.store
  start _ := .starting
  step rank store phase event :=
    if rank < F.worldSize then F.step rank store phase event else none

/-! ## What the filter is for -/

def alive : Finset Nat :=
  Finset.range F.worldSize \ F.terminatedRanks

/-- The number of alive ranks in the group of a rank. -/
def groupSize (rank : Nat) : Nat :=
  (F.alive.filter fun other => F.keyOrFn other = F.keyOrFn rank).card

/-- The alive ranks whose group fails the condition. -/
def mismatching : Finset Nat :=
  F.alive.filter fun rank => F.condition (F.groupSize rank) = false

theorem card_alive : F.alive.card = F.aliveWorldSize := by
  rw [alive, aliveWorldSize, Finset.card_sdiff_of_subset, Finset.card_range]
  exact fun rank hrank => Finset.mem_range.mpr (F.terminated_lt rank hrank)

theorem mem_alive {rank : Nat} :
    rank ∈ F.alive ↔ rank < F.worldSize ∧ rank ∉ F.terminatedRanks := by
  rw [alive, Finset.mem_sdiff, Finset.mem_range]

end FilterCountGroupedByKey

end ResiliencyExt.Inprocess
