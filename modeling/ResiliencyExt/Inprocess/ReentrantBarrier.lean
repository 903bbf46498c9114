import Mathlib.Data.Finset.Card
import ResiliencyExt.Foundation.Agents
import ResiliencyExt.Inprocess.Iteration

set_option autoImplicit false

/-!
# Inprocess: the reentrant barrier

`reentrant_barrier` is called for one group by the main processes, the monitor
processes and the sibling monitors, each for one rank or for several, and more
than one of them for the same rank.  Every call is an agent of its own here, so
that any order of the calls of one process is among the interleavings.

A call appends its ranks, reads the list back, and sets the key that releases
all calls when the list it read names every rank.  The three store operations
are separate steps.
-/

namespace ResiliencyExt.Inprocess

open Foundation List

/-! ## The calls of one group -/

/-- The arguments of a call that differ between callers. -/
structure ReentrantCall where
  ranks : List Nat
  /-- The timeout is not zero. -/
  waits : Bool

/-- The calls on one group.  All ranks passed are among `members`, and
`rendezvous_count` is their number. -/
structure Rendezvous where
  scope : StoreScope
  group : BarrierGroup
  members : Finset Nat
  call : Nat → ReentrantCall
  ranks_subset : ∀ p, ∀ rank ∈ (call p).ranks, rank ∈ members
  store : Store
  fresh_arrived : store.text scope (.arrived group) = []
  fresh_flag : store scope (.lastWorkerArrived group) = none

inductive CallPhase where
  | running (phase : BarrierPhase)
  | returned
  | raised (error : StoreError)
  /-- `BarrierTimeout` -/
  | timedOut
  deriving DecidableEq, Repr

inductive CallEvent where
  /-- The next operation of the call. -/
  | step
  /-- The timeout of its wait expires. -/
  | expire
  deriving DecidableEq, Repr

namespace Rendezvous

variable (R : Rendezvous)

/-- `last_worker_arrived` is set. -/
def completed (store : Store) : Prop :=
  store R.scope (.lastWorkerArrived R.group) ≠ none

instance (store : Store) : Decidable (R.completed store) :=
  inferInstanceAs (Decidable (_ ≠ _))

/-- The read of `reentrant_barrier` and what it decides. -/
def count (store : Store) : CallPhase :=
  match arrivedRanks store R.scope R.group with
  | .error error => .raised error
  | .ok arrived =>
    if arrived.length > R.members.card then .raised .barrierOverflow
    else if arrived.length = R.members.card then .running .completing
    else .running .waiting

/-- One step of the call `p`. -/
def callStep (p : Nat) (store : Store) : CallPhase → CallEvent → Option (Store × CallPhase)
  | .running .arriving, .step =>
    some (arrive store R.scope ((R.call p).ranks.map .int) R.group, .running .counting)
  | .running .counting, .step => some (store, R.count store)
  | .running .completing, .step =>
    some (store.set R.scope (.lastWorkerArrived R.group) ['1'], .running .waiting)
  | .running .waiting, .step =>
    if (R.call p).waits = false ∨ R.completed store then some (store, .returned) else none
  | .running .waiting, .expire =>
    if (R.call p).waits then some (store, .timedOut) else none
  | _, _ => none

/-- All calls, each of which may begin at any time. -/
def agents : Agents Store CallPhase CallEvent where
  shared := R.store
  start _ := .running .arriving
  step := R.callStep

end Rendezvous

/-! ## What a call has done in a phase -/

namespace CallPhase

/-- Its append has been executed. -/
def Appended : CallPhase → Prop
  | .running .arriving => False
  | _ => True

/-- Its append and the read that follows have been executed. -/
def HasRead : CallPhase → Prop
  | .running .arriving | .running .counting => False
  | _ => True

/-- Its append, the read and the set that a full read calls for have been
executed. -/
def Counted : CallPhase → Prop
  | .running .waiting | .returned | .timedOut => True
  | _ => False

theorem Counted.appended {phase : CallPhase} (h : phase.Counted) : phase.Appended := by
  match phase, h with
  | .running .waiting, _ | .returned, _ | .timedOut, _ => exact trivial

theorem HasRead.counted {phase : CallPhase} (h : phase.HasRead)
    (hraised : ∀ error, phase ≠ .raised error) :
    phase.Counted ∨ phase = .running .completing := by
  match phase, h with
  | .running .completing, _ => exact Or.inr rfl
  | .running .waiting, _ | .returned, _ | .timedOut, _ => exact Or.inl trivial
  | .raised error, _ => exact absurd rfl (hraised error)

end CallPhase

namespace Rendezvous

variable {R : Rendezvous}

/-! ## What a step can do -/

/-- The four things a step does: append, read, set, or leave the wait. -/
inductive CallMove (R : Rendezvous) (p : Nat) (store : Store) :
    CallPhase → Store → CallPhase → Prop
  | append : CallMove R p store (.running .arriving)
      (arrive store R.scope ((R.call p).ranks.map .int) R.group) (.running .counting)
  | read : CallMove R p store (.running .counting) store (R.count store)
  | set : CallMove R p store (.running .completing)
      (store.set R.scope (.lastWorkerArrived R.group) ['1']) (.running .waiting)
  | leave {phase : CallPhase} (hcounted : phase.Counted) :
      CallMove R p store (.running .waiting) store phase

variable {p rank : Nat} {store : Store} {next : CallPhase} {phase : Nat → CallPhase}

theorem callStep_move {next : Store} {phase phase' : CallPhase} {event : CallEvent}
    (h : R.callStep p store phase event = some (next, phase')) :
    R.CallMove p store phase next phase' := by
  unfold callStep at h
  split at h
  · cases h
    exact .append
  · cases h
    exact .read
  · cases h
    exact .set
  · split at h
    · cases h
      exact .leave trivial
    · cases h
  · split at h
    · cases h
      exact .leave trivial
    · cases h
  · cases h

/-! ## The invariant -/

/-- Some call has appended the rank. -/
def Recorded (R : Rendezvous) (phase : Nat → CallPhase) (rank : Nat) : Prop :=
  ∃ p, (phase p).Appended ∧ rank ∈ (R.call p).ranks

/-- While the key is not set, some rank has no call behind it that is done with
counting; before the first call is done, this says nothing about a rank. -/
def Pending (R : Rendezvous) (phase : Nat → CallPhase) : Prop :=
  (∀ p, ¬ (phase p).Counted) ∨
    ∃ rank ∈ R.members, ∀ p, rank ∈ (R.call p).ranks → ¬ (phase p).Counted

structure Inv (R : Rendezvous) (store : Store) (phase : Nat → CallPhase) : Prop where
  log : ∃ arrivals : List (List Nat),
    store.text R.scope (.arrived R.group) = Text.entries arrivals ∧
      ∀ rank, rank ∈ arrivals.flatten ↔ R.Recorded phase rank
  sound : ∀ p error, phase p ≠ .raised error
  full : ∀ p, phase p = .running .completing → ∀ rank ∈ R.members, R.Recorded phase rank
  flag : R.completed store → ∀ rank ∈ R.members, R.Recorded phase rank
  pending : ¬ R.completed store → R.Pending phase

theorem Recorded.mem (h : R.Recorded phase rank) : rank ∈ R.members := by
  obtain ⟨p, _, hmem⟩ := h
  exact R.ranks_subset p rank hmem

theorem Recorded.update (happended : (phase p).Appended → next.Appended)
    (h : R.Recorded phase rank) : R.Recorded (Function.update phase p next) rank := by
  obtain ⟨q, hq, hmem⟩ := h
  refine ⟨q, ?_, hmem⟩
  rcases eq_or_ne q p with rfl | hne
  · rw [Function.update_self]
    exact happended hq
  · rwa [Function.update_of_ne hne]

/-- A step that is no append records nothing. -/
theorem recorded_update_iff (hp : (phase p).Appended) (hnext : next.Appended) (rank : Nat) :
    R.Recorded (Function.update phase p next) rank ↔ R.Recorded phase rank := by
  refine ⟨fun h => ?_, fun h => h.update fun _ => hnext⟩
  have hback : R.Recorded (Function.update (Function.update phase p next) p (phase p)) rank :=
    h.update fun _ => hp
  rwa [Function.update_idem, Function.update_eq_self] at hback

/-- The append of `p` records the ranks of `p`. -/
theorem recorded_append_iff (hp : ¬ (phase p).Appended) (hnext : next.Appended) (rank : Nat) :
    R.Recorded (Function.update phase p next) rank ↔
      R.Recorded phase rank ∨ rank ∈ (R.call p).ranks := by
  constructor
  · rintro ⟨q, hq, hmem⟩
    rcases eq_or_ne q p with rfl | hne
    · exact Or.inr hmem
    · rw [Function.update_of_ne hne] at hq
      exact Or.inl ⟨q, hq, hmem⟩
  · rintro (h | hmem)
    · exact h.update fun habs => absurd habs hp
    · exact ⟨p, by rwa [Function.update_self], hmem⟩

theorem Pending.update (h : R.Pending phase) (hcounted : next.Counted → (phase p).Counted) :
    R.Pending (Function.update phase p next) := by
  have hkeep : ∀ q, (Function.update phase p next q).Counted → (phase q).Counted := by
    intro q hq
    rcases eq_or_ne q p with rfl | hne
    · rw [Function.update_self] at hq
      exact hcounted hq
    · rwa [Function.update_of_ne hne] at hq
  rcases h with hnone | ⟨rank, hrank, hnone⟩
  · exact Or.inl fun q hq => hnone q (hkeep q hq)
  · exact Or.inr ⟨rank, hrank, fun q hmem hq => hnone q hmem (hkeep q hq)⟩

/-! ## What the read returns -/

/-- The distinct ranks of a log are the members that the log names. -/
theorem length_dedup_arrivals (ranks : List Nat) :
    (ranks.map fun rank : Nat => (rank : Int)).dedup.length = ranks.toFinset.card := by
  have hinj : Function.Injective fun rank : Nat => (rank : Int) := fun _ _ => Int.ofNat.inj
  rw [dedup_map_of_injective hinj, length_map, card_toFinset]

/-- The read finds no more ranks than there are members, and as many only when
every member has been recorded. -/
theorem count_cases (hinv : R.Inv store phase) :
    (R.count store = .running .completing ∧ ∀ rank ∈ R.members, R.Recorded phase rank) ∨
    (R.count store = .running .waiting ∧ ∃ rank ∈ R.members, ¬ R.Recorded phase rank) := by
  obtain ⟨arrivals, htext, hmem⟩ := hinv.log
  have hsubset : arrivals.flatten.toFinset ⊆ R.members := by
    intro rank hrank
    exact ((hmem rank).mp (mem_toFinset.mp hrank)).mem
  have hle := Finset.card_le_card hsubset
  rw [count, arrivedRanks_entries htext]
  simp only [length_dedup_arrivals, gt_iff_lt]
  rw [if_neg (by omega)]
  by_cases hcard : arrivals.flatten.toFinset.card = R.members.card
  · refine Or.inl ⟨by rw [if_pos hcard], fun rank hrank => ?_⟩
    rw [← Finset.eq_of_subset_of_card_le hsubset (by omega)] at hrank
    exact (hmem rank).mp (mem_toFinset.mp hrank)
  · refine Or.inr ⟨by rw [if_neg hcard], ?_⟩
    have hlt : arrivals.flatten.toFinset.card < R.members.card := by omega
    obtain ⟨rank, hrank, hnot⟩ := Finset.exists_mem_notMem_of_card_lt_card hlt
    exact ⟨rank, hrank, fun hrec => hnot (mem_toFinset.mpr ((hmem rank).mpr hrec))⟩

/-! ## The invariant holds in every reachable state -/

theorem inv_init (R : Rendezvous) : R.Inv R.store fun _ => .running .arriving where
  log := by
    refine ⟨[], by rw [R.fresh_arrived]; rfl, fun rank => ?_⟩
    simp [Recorded, CallPhase.Appended]
  sound := nofun
  full := nofun
  flag := fun h => absurd R.fresh_flag h
  pending := fun _ => Or.inl fun _ h => h

theorem completed_congr {next : Store}
    (h : next R.scope (.lastWorkerArrived R.group) = store R.scope (.lastWorkerArrived R.group)) :
    R.completed next ↔ R.completed store := by
  rw [completed, completed, h]

/-- The invariant after a step that is no append. -/
theorem Inv.local_step {store' : Store} (hinv : R.Inv store phase) (hp : (phase p).Appended)
    (hnext : next.Appended)
    (htext : store'.text R.scope (.arrived R.group) = store.text R.scope (.arrived R.group))
    (hsound : ∀ error, next ≠ .raised error)
    (hfull : next = .running .completing → ∀ rank ∈ R.members, R.Recorded phase rank)
    (hflag : R.completed store' → ∀ rank ∈ R.members, R.Recorded phase rank)
    (hpending : ¬ R.completed store' → R.Pending (Function.update phase p next)) :
    R.Inv store' (Function.update phase p next) := by
  have hrecorded := fun rank => recorded_update_iff (R := R) hp hnext rank
  constructor
  case log =>
    obtain ⟨arrivals, hentries, hmem⟩ := hinv.log
    exact ⟨arrivals, htext.trans hentries, fun rank => (hmem rank).trans (hrecorded rank).symm⟩
  case sound =>
    intro q error
    rcases eq_or_ne q p with rfl | hne
    · rw [Function.update_self]
      exact hsound error
    · rw [Function.update_of_ne hne]
      exact hinv.sound q error
  case full =>
    intro q hq rank hrank
    rw [hrecorded]
    rcases eq_or_ne q p with rfl | hne
    · rw [Function.update_self] at hq
      exact hfull hq rank hrank
    · rw [Function.update_of_ne hne] at hq
      exact hinv.full q hq rank hrank
  case flag => exact fun h rank hrank => (hrecorded rank).mpr (hflag h rank hrank)
  case pending => exact hpending

theorem Inv.append (hinv : R.Inv store phase) (hp : phase p = .running .arriving) :
    R.Inv (arrive store R.scope ((R.call p).ranks.map .int) R.group)
      (Function.update phase p (.running .counting)) := by
  have hnot : ¬ (phase p).Appended := by rw [hp]; exact id
  have hkeep : ∀ rank, R.Recorded phase rank →
      R.Recorded (Function.update phase p (.running .counting)) rank :=
    fun _ h => h.update fun habs => absurd habs hnot
  have hflag : R.completed (arrive store R.scope ((R.call p).ranks.map .int) R.group) ↔
      R.completed store :=
    completed_congr (Store.append_of_ne _ _ (Or.inl nofun))
  constructor
  case log =>
    obtain ⟨arrivals, htext, hmem⟩ := hinv.log
    refine ⟨arrivals ++ [(R.call p).ranks], text_arrive_int htext _, fun rank => ?_⟩
    have happended : (CallPhase.running .counting).Appended := trivial
    rw [recorded_append_iff hnot happended, ← hmem rank]
    simp
  case sound =>
    intro q error
    rcases eq_or_ne q p with rfl | hne
    · rw [Function.update_self]
      nofun
    · rw [Function.update_of_ne hne]
      exact hinv.sound q error
  case full =>
    intro q hq rank hrank
    rcases eq_or_ne q p with rfl | hne
    · rw [Function.update_self] at hq
      cases hq
    · rw [Function.update_of_ne hne] at hq
      exact hkeep rank (hinv.full q hq rank hrank)
  case flag =>
    exact fun h rank hrank => hkeep rank (hinv.flag (hflag.mp h) rank hrank)
  case pending =>
    exact fun h => (hinv.pending fun hs => h (hflag.mpr hs)).update nofun

/-- A read short of a rank leaves every call for that rank before its append. -/
theorem Pending.of_not_recorded (hp : (phase p).Appended) (hnext : next.Appended)
    (hrank : rank ∈ R.members) (hnot : ¬ R.Recorded phase rank) :
    R.Pending (Function.update phase p next) := by
  rw [← recorded_update_iff hp hnext] at hnot
  exact Or.inr ⟨rank, hrank, fun q hmem hcounted => hnot ⟨q, hcounted.appended, hmem⟩⟩

theorem Inv.read (hinv : R.Inv store phase) (hp : phase p = .running .counting) :
    R.Inv store (Function.update phase p (R.count store)) := by
  have happended : (phase p).Appended := by rw [hp]; trivial
  rcases count_cases hinv with ⟨hcount, hfull⟩ | ⟨hcount, rank, hrank, hnot⟩
  · rw [hcount]
    exact hinv.local_step happended trivial rfl nofun (fun _ => hfull) hinv.flag
      fun h => (hinv.pending h).update nofun
  · rw [hcount]
    exact hinv.local_step happended trivial rfl nofun nofun hinv.flag
      fun _ => .of_not_recorded happended trivial hrank hnot

theorem Inv.set (hinv : R.Inv store phase) (hp : phase p = .running .completing) :
    R.Inv (store.set R.scope (.lastWorkerArrived R.group) ['1'])
      (Function.update phase p (.running .waiting)) := by
  have happended : (phase p).Appended := by rw [hp]; trivial
  have hset : R.completed (store.set R.scope (.lastWorkerArrived R.group) ['1']) := by
    simp [completed, Store.set]
  refine hinv.local_step happended trivial ?_ (by simp) (by simp) (fun _ => hinv.full p hp)
    fun h => absurd hset h
  simp [Store.text, Store.set]

theorem Inv.leave (hinv : R.Inv store phase) (hp : phase p = .running .waiting)
    (hnext : next.Counted) : R.Inv store (Function.update phase p next) := by
  have happended : (phase p).Appended := by rw [hp]; trivial
  have hcounted : (phase p).Counted := by rw [hp]; trivial
  refine hinv.local_step happended ?_ rfl ?_ ?_ hinv.flag
    fun h => (hinv.pending h).update fun _ => hcounted
  · exact hnext.appended
  · rintro error rfl
    exact hnext
  · rintro rfl
    exact absurd hnext id

theorem Inv.move {store' : Store} (hinv : R.Inv store phase)
    (hmove : R.CallMove p store (phase p) store' next) :
    R.Inv store' (Function.update phase p next) := by
  generalize hp : phase p = before at hmove
  cases hmove with
  | append => exact hinv.append hp
  | read => exact hinv.read hp
  | set => exact hinv.set hp
  | leave hnext => exact hinv.leave hp hnext

theorem reachable_inv {c : Agents.Configuration Store CallPhase}
    (hc : R.agents.system.Reachable (fun _ _ => True) c) : R.Inv c.shared c.agent := by
  refine hc.invariant (P := fun c => R.Inv c.shared c.agent) ?_ ?_
  · rintro _ rfl
    exact inv_init R
  · intro c a d hinv _ hstep
    obtain ⟨store, next, hlocal, rfl⟩ := Agents.system_step_eq_some.mp hstep
    exact hinv.move (callStep_move hlocal)

/-! ## Safety of the barrier -/

/-- No call raises.  The key is set only when the list names every rank, and it is
set once every rank has a call that is done with counting; a call that has read the
full list and not yet set the key is about to. -/
theorem reentrant_barrier_safe (R : Rendezvous) {c : Agents.Configuration Store CallPhase}
    (hc : R.agents.system.Reachable (fun _ _ => True) c) :
    (∀ p error, c.agent p ≠ .raised error) ∧
    (R.completed c.shared → ∃ arrived, arrivedRanks c.shared R.scope R.group = .ok arrived ∧
      ∀ rank ∈ R.members, (rank : Int) ∈ arrived) ∧
    ((∃ p, (c.agent p).Counted) →
      (∀ rank ∈ R.members, ∃ p, rank ∈ (R.call p).ranks ∧ (c.agent p).Counted) →
      R.completed c.shared) ∧
    ((∃ p, (c.agent p).HasRead) →
      (∀ rank ∈ R.members, ∃ p, rank ∈ (R.call p).ranks ∧ (c.agent p).HasRead) →
      R.completed c.shared ∨ ∃ p, c.agent p = .running .completing) := by
  have hinv := reachable_inv hc
  refine ⟨hinv.sound, fun hflag => ?_, fun hsome hall => ?_, fun hsome hall => ?_⟩
  · obtain ⟨arrivals, htext, hmem⟩ := hinv.log
    refine ⟨_, arrivedRanks_entries htext, fun rank hrank => ?_⟩
    have hlog := (hmem rank).mpr (hinv.flag hflag rank hrank)
    exact mem_dedup.mpr (mem_map_of_mem hlog)
  · by_contra hflag
    rcases hinv.pending hflag with hnone | ⟨rank, hrank, hnone⟩
    · obtain ⟨p, hp⟩ := hsome
      exact hnone p hp
    · obtain ⟨p, hmem, hp⟩ := hall rank hrank
      exact hnone p hmem hp
  · by_cases hflag : R.completed c.shared
    · exact Or.inl hflag
    -- a call that has read and is not done with counting is at its set
    have hset : ∀ p, (c.agent p).HasRead → ¬ (c.agent p).Counted →
        ∃ p, c.agent p = .running .completing :=
      fun p hread hnot => ⟨p, (hread.counted (hinv.sound p)).resolve_left hnot⟩
    rcases hinv.pending hflag with hnone | ⟨rank, hrank, hnone⟩
    · obtain ⟨p, hp⟩ := hsome
      exact Or.inr (hset p hp (hnone p))
    · obtain ⟨p, hmem, hp⟩ := hall rank hrank
      exact Or.inr (hset p hp (hnone p hmem))

/-- Two ranks; a sibling monitor arrives for both, and rank 1 arrives twice. -/
def overlappingArrivals : Rendezvous where
  scope := .base
  group := .terminationBarrier
  members := {0, 1}
  call
    | 0 => ⟨[0], true⟩
    | 1 => ⟨[1], true⟩
    | 2 => ⟨[1, 0, 1], false⟩
    | _ => ⟨[], false⟩
  ranks_subset := by
    intro p rank hrank
    match p with
    | 0 | 1 | 2 | _ + 3 => simp_all; try omega
  store := fun _ _ => none
  fresh_arrived := rfl
  fresh_flag := rfl

/-- Rank 0 reads before rank 1 has arrived; the two others both read a full list. -/
theorem reentrant_barrier_safe_overlapping :
    ∃ c : Agents.Configuration Store CallPhase,
      ((c.agent 0).Counted ∧ (c.agent 2).Counted) ∧
        overlappingArrivals.completed c.shared := by
  have hrun : (overlappingArrivals.agents.system.execute (fun _ _ => True)
      overlappingArrivals.agents.initial
      [(0, .step), (0, .step), (1, .step), (2, .step), (1, .step), (2, .step), (2, .step)]).any
      (fun c => c.agent 0 = .running .waiting ∧ c.agent 2 = .running .waiting) = true := by
    decide +kernel
  obtain ⟨c, hc, htest⟩ := System.exists_reachable_of_execute rfl hrun
  obtain ⟨h0, h2⟩ := of_decide_eq_true htest
  have hcounted : (c.agent 0).Counted ∧ (c.agent 2).Counted := by
    rw [h0, h2]
    exact ⟨trivial, trivial⟩
  refine ⟨c, hcounted, ?_⟩
  refine (reentrant_barrier_safe overlappingArrivals hc).2.2.1 ⟨0, hcounted.1⟩ ?_
  intro rank hrank
  refine ⟨2, ?_, hcounted.2⟩
  have hmem : rank = 0 ∨ rank = 1 := by simpa [overlappingArrivals] using hrank
  rcases hmem with rfl | rfl <;> decide

end Rendezvous

end ResiliencyExt.Inprocess
