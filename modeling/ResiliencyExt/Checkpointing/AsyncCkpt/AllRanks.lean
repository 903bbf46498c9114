import Mathlib.Data.Fintype.Pi
import ResiliencyExt.Foundation.System
import ResiliencyExt.Checkpointing.AsyncCkpt.QueueInvariant

set_option autoImplicit false

/-!
# A request is finalized when all ranks have completed it

The queues of `n` ranks.  The ranks meet in two collectives only: the `all_reduce` of
`sync_all_async_calls` and that of `execute_finalize_fns`.  A collective is one step
of all ranks, enabled when all have entered it; a rank that leaves it late takes its
next step late.

The serial number of a request says which of the calls made in the same order on all
ranks it came from.
-/

namespace ResiliencyExt.Checkpointing.AsyncCkpt

open Foundation List Function
open Control (call? isAlive)
open Option (map_eq_some_iff some)

inductive JobEvent (n : Nat) where
  | schedule (rank : Fin n) (request : AsyncRequest)
  | maybeFinalize (rank : Fin n) (blocking : Bool)
  | warmup (rank : Fin n)
  /-- The training process of a rank goes on outside the collectives. -/
  | main (rank : Fin n)
  | finish (rank : Fin n)
  | finishWriter (rank : Fin n) (i : Nat)
  | dieWriter (rank : Fin n) (i : Nat)
  | allReduce
  deriving DecidableEq

section

variable {n : Nat}

/-- What a collective brings to a rank. -/
def syncInput (ranks : Fin n → RankState) (rank : Fin n) : SyncInput where
  others := ((finRange n).filter fun other =>
    other ≠ rank && (ranks other).state.control.isAlive).length
  maxCallIdx := ((finRange n).map fun other => (ranks other).state.control.callIdx).foldl
    max (ranks rank).state.control.callIdx

/-- A step of one rank. -/
def rankStep (ranks : Fin n → RankState) (rank : Fin n) (event : QueueEvent) :
    Option (Fin n → RankState) :=
  ((ranks rank).step event).map fun next => update ranks rank next

/-- A collective, once all ranks are in it. -/
def allReduce (ranks : Fin n → RankState) : Option (Fin n → RankState) :=
  if (∀ rank, (ranks rank).state.control.inSync = true) ∨
      ∀ rank, (ranks rank).state.control.inValidation = true then
    some fun rank =>
      -- a rank in a collective can always go on
      ((ranks rank).step (.main (syncInput ranks rank))).getD (ranks rank)
  else none

def jobStep (ranks : Fin n → RankState) : JobEvent n → Option (Fin n → RankState)
  | .schedule rank request => rankStep ranks rank (.schedule request)
  | .maybeFinalize rank blocking => rankStep ranks rank (.maybeFinalize blocking false)
  | .warmup rank => rankStep ranks rank .warmup
  | .main rank =>
    if (ranks rank).state.control.inSync || (ranks rank).state.control.inValidation then none
    else rankStep ranks rank (.main ⟨0, 0⟩)
  | .finish rank => rankStep ranks rank .finish
  | .finishWriter rank i => rankStep ranks rank (.finishWriter i)
  | .dieWriter rank i => rankStep ranks rank (.dieWriter i)
  | .allReduce => allReduce ranks

end

/-- A job of `n` ranks, with the same kind of queue on all. -/
def jobSystem (n : Nat) : System (Fin n → RankState) (JobEvent n) where
  init ranks := ∃ persistent cpuShmMode, ranks = fun _ => .fresh persistent cpuShmMode
  step := jobStep

/-! ## The condition -/

/-- The rank is in a blocking check of a `TemporalAsyncCaller`. -/
def RankState.joinsAnyway (rank : RankState) : Bool :=
  match rank.state.control, rank.state.queue.asyncCalls with
  | .syncing call _, ⟨_, .temporal _, _, _⟩ :: _ => call.blocking
  | _, _ => false

/-- No writer dies, and the ranks enter a blocking check of a `TemporalAsyncCaller` only when
no writer is running any more, unless there is one rank only. -/
def Orderly {n : Nat} (ranks : Fin n → RankState) : JobEvent n → Prop
  | .dieWriter _ _ => False
  | .allReduce => ∀ rank other, (ranks rank).joinsAnyway = true →
      (ranks other).state.control.isAlive = true → n = 1
  | _ => True

instance {n : Nat} (ranks : Fin n → RankState) (event : JobEvent n) :
    Decidable (Orderly ranks event) :=
  match event with
  | .dieWriter _ _ => .isFalse id
  | .allReduce => inferInstanceAs (Decidable (∀ rank other, (ranks rank).joinsAnyway = true →
      (ranks other).state.control.isAlive = true → n = 1))
  | .schedule _ _ | .maybeFinalize _ _ | .warmup _ | .main _ | .finish _
  | .finishWriter _ _ => .isTrue trivial

/-! ## One rank -/

namespace RankState

/-- The number of requests the rank has found done on all ranks. -/
def settled (rank : RankState) : Nat :=
  match rank.state.control with
  | .joining _ | .finalizing _ => rank.history.finalized.length + 1
  | _ => rank.history.finalized.length

/-- The invariant of one rank. -/
structure Fit (rank : RankState) : Prop where
  sound : ∃ early, Sound early rank.state.queue rank.state.control rank.history
  dist : ∀ call ∈ rank.state.control.call?, call.noDist = false

variable {rank next : RankState}

theorem completed_mono {event : QueueEvent} (hstep : rank.step event = some next) :
    ∀ serial ∈ rank.history.completed, serial ∈ next.history.completed := by
  obtain ⟨⟨state, output⟩, -, rfl⟩ := map_eq_some_iff.mp hstep
  intro serial hmem
  cases output with
  | scheduled idx hasAsyncFn =>
    simp only [History.record]
    split
    · exact hmem
    · exact mem_append_left _ hmem
  | completed done => exact mem_append_left _ hmem
  | _ => exact hmem

/-- The events of one rank outside `sync_all_async_calls`. -/
def Local (rank : RankState) : QueueEvent → Prop
  | .schedule _ | .warmup | .finish | .finishWriter _ => True
  | .maybeFinalize _ noDist => noDist = false
  | .main _ => rank.state.control.inSync = false
  | .prepareWriteData | .close _ | .dieWriter _ => False

namespace Fit

theorem step (h : rank.Fit) (event : QueueEvent) (hordinary : event.Ordinary)
    (hdist : ∀ call ∈ next.state.control.call?, call.noDist = false)
    (hstep : rank.step event = some next) : next.Fit := by
  obtain ⟨early, hsound⟩ := h.sound
  obtain ⟨taken, hnext, -⟩ := hsound.step hordinary hstep
  exact ⟨⟨taken, hnext⟩, hdist⟩

/-- Outside `sync_all_async_calls` a training process finds nothing done. -/
theorem main_local (h : rank.Fit) {input : SyncInput}
    (hlocal : rank.state.control.inSync = false)
    (hstep : rank.step (.main input) = some next) :
    (∀ call ∈ next.state.control.call?, call.noDist = false) ∧
      next.settled = rank.settled := by
  obtain ⟨early, hsound⟩ := h.sound
  have hdist := h.dist
  obtain ⟨⟨queue, control⟩, history⟩ := rank
  obtain ⟨⟨state, output⟩, hqueue, rfl⟩ := map_eq_some_iff.mp hstep
  have hopened := hsound.opened
  simp only [QueueState.step] at hqueue
  cases control with
  | idle => simp [QueueState.mainStep] at hqueue
  | closing => exact hsound.position.elim
  | syncing call alive => cases hlocal
  | looping call =>
    cases hcalls : queue.asyncCalls with
    | nil =>
      simp only [QueueState.mainStep, hcalls, QueueState.ret, hopened call rfl,
        Bool.false_eq_true, if_false, some.injEq, Prod.mk.injEq] at hqueue
      obtain ⟨rfl, rfl⟩ := hqueue
      exact ⟨by simp [call?], rfl⟩
    | cons head rest =>
      simp only [QueueState.mainStep, hcalls, hdist call rfl, Bool.false_eq_true,
        if_false] at hqueue
      obtain ⟨⟨polled, alive⟩, -, hresult⟩ := map_eq_some_iff.mp hqueue
      obtain ⟨rfl, rfl⟩ := Prod.mk.inj hresult
      exact ⟨hdist, rfl⟩
  | joining call =>
    obtain ⟨⟨idx, caller, request, serial⟩, process, hhead, hkind⟩ := hsound.position
    obtain rfl : caller = .temporal process := hkind
    obtain ⟨rest, hrest⟩ : ∃ rest, queue.asyncCalls = _ :: rest :=
      head?_eq_some_iff.mp hhead
    simp only [QueueState.mainStep, hrest] at hqueue
    split at hqueue
    · cases hqueue
    · cases hqueue
      exact ⟨hdist, rfl⟩
  | finalizing call =>
    obtain ⟨head, hhead, -⟩ := hsound.position
    obtain ⟨rest, hrest⟩ : ∃ rest, queue.asyncCalls = _ :: rest :=
      head?_eq_some_iff.mp hhead
    simp only [QueueState.mainStep, QueueState.finalizeHead, hrest, hdist call rfl,
      Bool.false_eq_true, if_false] at hqueue
    cases hraises : head.asyncRequest.raises with
    | true =>
      rw [hraises] at hqueue
      cases hqueue
      exact ⟨by simp [call?], by simp [settled, History.record]⟩
    | false =>
      rw [hraises] at hqueue
      cases hqueue
      exact ⟨hdist, by simp [settled, History.record]⟩
  | validating call callIdx =>
    simp only [QueueState.mainStep] at hqueue
    split at hqueue
    · cases hqueue
      refine ⟨?_, rfl⟩
      simpa [call?] using hdist
    · cases hqueue
      exact ⟨by simp [call?], rfl⟩

/-- A step outside `sync_all_async_calls` finds nothing done. -/
theorem step_local (h : rank.Fit) {event : QueueEvent} (hlocal : rank.Local event)
    (hstep : rank.step event = some next) : next.Fit ∧ next.settled = rank.settled := by
  cases event with
  | main input =>
    obtain ⟨hdist, hsettled⟩ := h.main_local hlocal hstep
    exact ⟨h.step (.main input) trivial hdist hstep, hsettled⟩
  | prepareWriteData | close _ | dieWriter _ => exact hlocal.elim
  | schedule request =>
    obtain ⟨⟨state, output⟩, hqueue, hnext⟩ := map_eq_some_iff.mp hstep
    simp only [QueueState.step] at hqueue
    split at hqueue
    · rename_i hidle
      cases hqueue
      subst hnext
      exact ⟨h.step (.schedule request) trivial (by simp [call?]) hstep,
        by simp [settled, hidle, History.record]⟩
    · cases hqueue
  | maybeFinalize blocking noDist =>
    obtain ⟨⟨state, output⟩, hqueue, hnext⟩ := map_eq_some_iff.mp hstep
    simp only [QueueState.step] at hqueue
    split at hqueue
    · rename_i hidle
      cases hqueue
      obtain rfl : noDist = false := hlocal
      subst hnext
      exact ⟨h.step (.maybeFinalize blocking false) trivial (by simp [call?]) hstep,
        by simp [settled, hidle, History.record]⟩
    · cases hqueue
  | warmup =>
    obtain ⟨⟨state, output⟩, hqueue, hnext⟩ := map_eq_some_iff.mp hstep
    simp only [QueueState.step] at hqueue
    split at hqueue
    · rename_i hidle
      cases hqueue
      subst hnext
      exact ⟨h.step .warmup trivial (by simp [call?]) hstep,
        by simp [settled, hidle, History.record]⟩
    · cases hqueue
  | finish =>
    obtain ⟨⟨state, output⟩, hqueue, hnext⟩ := map_eq_some_iff.mp hstep
    obtain ⟨⟨caller, item⟩, -, hresult⟩ := map_eq_some_iff.mp hqueue
    obtain ⟨rfl, rfl⟩ := Prod.mk.inj hresult
    subst hnext
    exact ⟨h.step .finish trivial h.dist hstep, rfl⟩
  | finishWriter i =>
    obtain ⟨⟨state, output⟩, hqueue, hnext⟩ := map_eq_some_iff.mp hstep
    obtain ⟨⟨queue, serial⟩, -, hresult⟩ := map_eq_some_iff.mp hqueue
    obtain ⟨rfl, rfl⟩ := Prod.mk.inj hresult
    subst hnext
    exact ⟨h.step (.finishWriter i) trivial h.dist hstep, rfl⟩

/-- The end of `sync_all_async_calls`: the rank goes on with the request exactly if no rank
has it alive or a writer is joined anyway. -/
theorem step_sync (h : rank.Fit) (hsync : rank.state.control.inSync = true)
    {input : SyncInput} (hstep : rank.step (.main input) = some next) :
    next.Fit ∧ next.settled = rank.settled +
      if (!rank.state.control.isAlive && input.others = 0) || rank.joinsAnyway then 1 else 0 := by
  obtain ⟨early, hsound⟩ := h.sound
  have hdist := h.dist
  suffices hgoal : (∀ call ∈ next.state.control.call?, call.noDist = false) ∧
      next.settled = rank.settled +
        if (!rank.state.control.isAlive && input.others = 0) || rank.joinsAnyway then 1 else 0 from
    ⟨h.step (.main input) trivial hgoal.1 hstep, hgoal.2⟩
  obtain ⟨⟨queue, control⟩, history⟩ := rank
  obtain ⟨⟨state, output⟩, hqueue, rfl⟩ := map_eq_some_iff.mp hstep
  have hopened := hsound.opened
  cases control with
  | syncing call alive =>
    obtain ⟨head, hhead, -⟩ := hsound.position
    obtain ⟨rest, hrest⟩ : ∃ rest, queue.asyncCalls = head :: rest :=
      head?_eq_some_iff.mp hhead
    obtain ⟨idx, caller, request, serial⟩ := head
    have hclosing : call.closing = false := hopened call rfl
    have hsoundHead := hsound.calls _ (mem_of_mem_head? hhead)
    simp only [QueueState.step, QueueState.mainStep, hrest, head?_cons, Option.map_some,
      some.injEq] at hqueue
    cases caller with
    | closed => exact hsoundHead.elim
    | temporal process =>
      simp only [QueueState.conclude, QueueState.ret, hclosing, Bool.false_eq_true,
        if_false] at hqueue
      split at hqueue
      · rename_i hdone
        obtain ⟨rfl, rfl⟩ := Prod.mk.inj hqueue
        refine ⟨hdist, ?_⟩
        simp only [settled, isAlive, joinsAnyway, hrest, History.record]
        rw [if_pos hdone]
      · rename_i hdone
        obtain ⟨rfl, rfl⟩ := Prod.mk.inj hqueue
        refine ⟨by simp [call?], ?_⟩
        simp only [settled, isAlive, joinsAnyway, hrest, History.record]
        rw [if_neg hdone, Nat.add_zero]
    | persistent =>
      simp only [QueueState.conclude, QueueState.ret, hclosing, Bool.false_eq_true,
        if_false] at hqueue
      split at hqueue
      · rename_i hdone
        obtain ⟨rfl, rfl⟩ := Prod.mk.inj hqueue
        refine ⟨hdist, ?_⟩
        simp only [settled, isAlive, joinsAnyway, hrest, History.record,
          Bool.or_false]
        rw [if_pos hdone]
      · rename_i hdone
        obtain ⟨rfl, rfl⟩ := Prod.mk.inj hqueue
        refine ⟨by simp [call?], ?_⟩
        simp only [settled, isAlive, joinsAnyway, hrest, History.record,
          Bool.or_false]
        rw [if_neg hdone, Nat.add_zero]
  | _ => cases hsync

/-- A rank that enters `sync_all_async_calls` with nothing alive has completed the request it
asks about. -/
theorem settled_completed (h : rank.Fit) (hsync : rank.state.control.inSync = true)
    (hdead : rank.state.control.isAlive = false) :
    rank.settled ∈ rank.history.completed := by
  obtain ⟨early, hsound⟩ := h.sound
  obtain ⟨⟨queue, control⟩, history⟩ := rank
  cases control with
  | syncing call alive =>
    obtain rfl : alive = false := hdead
    obtain ⟨head, hhead, -⟩ := hsound.position
    have hserial := hsound.head_serial hhead
    have hmem := hsound.head_completed rfl hhead
    rw [hserial] at hmem
    exact hmem
  | _ => cases hsync

/-- A rank never stays in a collective. -/
theorem collective_step (h : rank.Fit)
    (hin : rank.state.control.inSync = true ∨ rank.state.control.inValidation = true)
    (input : SyncInput) : ∃ next, rank.step (.main input) = some next := by
  obtain ⟨early, hsound⟩ := h.sound
  obtain ⟨⟨queue, control⟩, history⟩ := rank
  cases control with
  | syncing call alive =>
    obtain ⟨head, hhead, -⟩ := hsound.position
    have hqueue : queue.asyncCalls.head? = some head := hhead
    simp only [RankState.step, QueueState.step, QueueState.mainStep, hqueue,
      Option.map_some]
    exact ⟨_, rfl⟩
  | validating call callIdx =>
    simp only [RankState.step, QueueState.step, QueueState.mainStep]
    split
    · exact ⟨_, rfl⟩
    · exact ⟨_, rfl⟩
  | _ => simp [Control.inSync, Control.inValidation] at hin

end Fit

end RankState

/-! ## All ranks -/

section

variable {n : Nat}

/-- The ranks have found the same number of requests done, and each of them has completed
these if there is another rank at all. -/
structure Agreed (ranks : Fin n → RankState) : Prop where
  fit : ∀ rank, (ranks rank).Fit
  settled : ∀ rank other, (ranks rank).settled = (ranks other).settled
  completed : ∀ rank other : Fin n, rank ≠ other → ∀ serial < (ranks rank).settled,
    serial ∈ (ranks rank).history.completed

/-- What `sync_all_async_calls` and the join after it decide on a rank. -/
def goesOn (ranks : Fin n → RankState) (rank : Fin n) : Bool :=
  (!(ranks rank).state.control.isAlive && (syncInput ranks rank).others = 0) ||
    (ranks rank).joinsAnyway

theorem others_eq_zero_iff (ranks : Fin n → RankState) (rank : Fin n) :
    (syncInput ranks rank).others = 0 ↔
      ∀ other, other ≠ rank → (ranks other).state.control.isAlive = false := by
  simp [syncInput, length_eq_zero_iff, filter_eq_nil_iff]

/-- The ranks decide alike, and with several ranks they go on only when nothing is alive. -/
theorem goesOn_alike {ranks : Fin n → RankState} (horderly : Orderly ranks .allReduce) :
    (∀ rank other, goesOn ranks rank = goesOn ranks other) ∧
      ∀ rank other, rank ≠ other → goesOn ranks rank = true →
        (ranks rank).state.control.isAlive = false := by
  by_cases halive : ∃ alive, (ranks alive).state.control.isAlive = true
  · obtain ⟨alive, halive⟩ := halive
    by_cases hsingle : n = 1
    · subst hsingle
      exact ⟨fun rank other => by rw [Subsingleton.elim rank other],
        fun rank other hne => absurd (Subsingleton.elim rank other) hne⟩
    · have hstays : ∀ rank, goesOn ranks rank = false := by
        intro rank
        have hjoin : (ranks rank).joinsAnyway = false := by
          by_contra hjoin
          exact hsingle (horderly rank alive (by simpa using hjoin) halive)
        unfold goesOn
        rw [hjoin, Bool.or_false, Bool.and_eq_false_iff]
        rcases eq_or_ne alive rank with rfl | hne
        · exact .inl (by simp [halive])
        · refine .inr (decide_eq_false fun hnone => ?_)
          have hdead := (others_eq_zero_iff ranks rank).mp hnone alive hne
          rw [halive] at hdead
          cases hdead
      exact ⟨fun rank other => by rw [hstays rank, hstays other],
        fun rank other _ hgoes => by rw [hstays rank] at hgoes; cases hgoes⟩
  · have hdead : ∀ rank, (ranks rank).state.control.isAlive = false := by
      simpa using halive
    have hgoes : ∀ rank, goesOn ranks rank = true := by
      intro rank
      unfold goesOn
      rw [hdead rank, decide_eq_true
        ((others_eq_zero_iff ranks rank).mpr fun other _ => hdead other)]
      rfl
    exact ⟨fun rank other => by rw [hgoes rank, hgoes other], fun rank _ _ _ => hdead rank⟩

namespace Agreed

variable {ranks next : Fin n → RankState}

theorem fresh (persistent cpuShmMode : Bool) :
    Agreed fun _ : Fin n => .fresh persistent cpuShmMode where
  fit _ := ⟨⟨[], .fresh persistent cpuShmMode⟩, by simp [RankState.fresh, call?]⟩
  settled _ _ := rfl
  completed _ _ _ serial hserial := by
    simp [RankState.fresh, RankState.settled, History.empty] at hserial

/-- A rank moves on its own. -/
theorem rankStep (h : Agreed ranks) {rank : Fin n} (event : QueueEvent)
    (hlocal : (ranks rank).Local event)
    (hstep : AsyncCkpt.rankStep ranks rank event = some next) : Agreed next := by
  obtain ⟨moved, hmove, rfl⟩ := map_eq_some_iff.mp hstep
  obtain ⟨hfit, hsettled⟩ := (h.fit rank).step_local hlocal hmove
  have hmono := RankState.completed_mono hmove
  have hsame : ∀ other, (update ranks rank moved other).settled =
      (ranks other).settled := by
    intro other
    rcases eq_or_ne other rank with rfl | hne
    · rw [update_self, hsettled]
    · rw [update_of_ne hne]
  refine ⟨fun other => ?_, fun other third => ?_, fun other third hne serial hserial => ?_⟩
  · rcases eq_or_ne other rank with rfl | hne
    · rw [update_self]
      exact hfit
    · rw [update_of_ne hne]
      exact h.fit other
  · rw [hsame, hsame]
    exact h.settled other third
  · rw [hsame] at hserial
    have hmem := h.completed other third hne serial hserial
    rcases eq_or_ne other rank with rfl | hother
    · rw [update_self]
      exact hmono _ hmem
    · rw [update_of_ne hother]
      exact hmem

/-- All ranks leave `sync_all_async_calls`. -/
theorem sync (h : Agreed ranks) (horderly : Orderly ranks .allReduce)
    (hsync : ∀ rank, (ranks rank).state.control.inSync = true)
    (hnext : ∀ rank, (ranks rank).step (.main (syncInput ranks rank)) = some (next rank)) :
    Agreed next := by
  obtain ⟨halike, hdead⟩ := goesOn_alike horderly
  have hstep := fun rank => (h.fit rank).step_sync (hsync rank) (hnext rank)
  have hsettled : ∀ rank, (next rank).settled =
      (ranks rank).settled + if goesOn ranks rank then 1 else 0 := fun rank => (hstep rank).2
  refine ⟨fun rank => (hstep rank).1, fun rank other => ?_,
    fun rank other hne serial hserial => ?_⟩
  · rw [hsettled, hsettled, h.settled rank other, halike rank other]
  · have hmono := RankState.completed_mono (hnext rank)
    rw [hsettled] at hserial
    split at hserial
    · rename_i hgoes
      rcases Nat.lt_succ_iff_lt_or_eq.mp hserial with hless | rfl
      · exact hmono _ (h.completed rank other hne serial hless)
      · exact hmono _ ((h.fit rank).settled_completed (hsync rank) (hdead rank other hne hgoes))
    · exact hmono _ (h.completed rank other hne serial hserial)

/-- All ranks leave the check of the call index. -/
theorem validate (h : Agreed ranks)
    (hin : ∀ rank, (ranks rank).state.control.inValidation = true)
    (hnext : ∀ rank, (ranks rank).step (.main (syncInput ranks rank)) = some (next rank)) :
    Agreed next := by
  have hlocal : ∀ rank, (ranks rank).Local (.main (syncInput ranks rank)) := by
    intro rank
    have hrank := hin rank
    unfold RankState.Local
    cases hcontrol : (ranks rank).state.control with
    | syncing call alive => simp [hcontrol, Control.inValidation] at hrank
    | _ => rfl
  have hstep := fun rank => (h.fit rank).step_local (hlocal rank) (hnext rank)
  refine ⟨fun rank => (hstep rank).1, fun rank other => ?_,
    fun rank other hne serial hserial => ?_⟩
  · rw [(hstep rank).2, (hstep other).2]
    exact h.settled rank other
  · rw [(hstep rank).2] at hserial
    exact RankState.completed_mono (hnext rank) _ (h.completed rank other hne serial hserial)

theorem allReduce (h : Agreed ranks) (horderly : Orderly ranks .allReduce)
    (hstep : AsyncCkpt.allReduce ranks = some next) : Agreed next := by
  unfold AsyncCkpt.allReduce at hstep
  split at hstep
  · rename_i hall
    have hin : ∀ rank, (ranks rank).state.control.inSync = true ∨
        (ranks rank).state.control.inValidation = true := by
      intro rank
      rcases hall with hall | hall
      · exact .inl (hall rank)
      · exact .inr (hall rank)
    have hnext : ∀ rank,
        (ranks rank).step (.main (syncInput ranks rank)) = some (next rank) := by
      intro rank
      obtain ⟨moved, hmove⟩ := (h.fit rank).collective_step (hin rank) (syncInput ranks rank)
      rw [← some.inj hstep]
      simp only [hmove, Option.getD_some]
    rcases hall with hall | hall
    · exact h.sync horderly hall hnext
    · exact h.validate hall hnext
  · cases hstep

theorem step (h : Agreed ranks) {event : JobEvent n} (horderly : Orderly ranks event)
    (hstep : jobStep ranks event = some next) : Agreed next := by
  cases event with
  | schedule rank request => exact h.rankStep (.schedule request) trivial hstep
  | maybeFinalize rank blocking => exact h.rankStep (.maybeFinalize blocking false) rfl hstep
  | warmup rank => exact h.rankStep .warmup trivial hstep
  | main rank =>
    simp only [jobStep] at hstep
    split at hstep
    · cases hstep
    · rename_i hout
      simp only [Bool.or_eq_true, not_or, Bool.not_eq_true] at hout
      exact h.rankStep (.main ⟨0, 0⟩) hout.1 hstep
  | finish rank => exact h.rankStep .finish trivial hstep
  | finishWriter rank i => exact h.rankStep (.finishWriter i) trivial hstep
  | dieWriter rank i => exact horderly.elim
  | allReduce => exact h.allReduce horderly hstep

end Agreed

theorem agreed_of_reachable {ranks : Fin n → RankState}
    (h : (jobSystem n).Reachable Orderly ranks) : Agreed ranks := by
  refine System.Reachable.invariant ?_ (fun _ _ _ hagreed horderly hstep =>
    hagreed.step horderly hstep) h
  rintro ranks ⟨persistent, cpuShmMode, rfl⟩
  exact Agreed.fresh persistent cpuShmMode

/-- In every run in which no writer dies and no blocking check of a `TemporalAsyncCaller` is
entered by several ranks while a writer is running, a rank has run the finalize functions of a
request only if the `async_fn` of that request has completed on all ranks. -/
theorem finalized_after_all_completed {ranks : Fin n → RankState}
    (h : (jobSystem n).Reachable Orderly ranks) (rank other : Fin n) {serial : Nat}
    (hmem : serial ∈ (ranks rank).history.finalized) :
    serial ∈ (ranks other).history.completed := by
  have hagreed := agreed_of_reachable h
  obtain ⟨early, hsound⟩ := (hagreed.fit rank).sound
  rcases eq_or_ne other rank with rfl | hne
  · exact hsound.completed serial hmem
  · refine hagreed.completed other rank hne serial ?_
    rw [hagreed.settled other rank]
    rw [hsound.finalized, mem_range] at hmem
    unfold RankState.settled
    split
    · omega
    · omega
    · exact hmem

end

/-- Rank 0 writes, rank 1 has nothing to write; a check that does not block is repeated until
rank 0 is done. -/
theorem finalized_after_all_completed_two_ranks :
    ∃ ranks : Fin 2 → RankState, 0 ∈ (ranks 1).history.finalized ∧
      0 ∈ (ranks 0).history.completed := by
  have hrun : ((jobSystem 2).execute Orderly (fun _ => .fresh true false)
      [.schedule 0 ⟨true, 0, false⟩, .schedule 1 ⟨false, 0, false⟩,
        .maybeFinalize 0 false, .maybeFinalize 1 false, .main 0, .main 1, .allReduce,
        .finish 0, .maybeFinalize 0 false, .maybeFinalize 1 false, .main 0, .main 1, .allReduce,
        .main 1]).any (fun ranks => 0 ∈ (ranks 1).history.finalized) = true := by
    decide +kernel
  have hinit : (jobSystem 2).init fun _ => .fresh true false := ⟨true, false, rfl⟩
  obtain ⟨ranks, hranks, htest⟩ := System.exists_reachable_of_execute hinit hrun
  have hmem : 0 ∈ (ranks 1).history.finalized := of_decide_eq_true htest
  exact ⟨ranks, hmem, finalized_after_all_completed hranks 1 0 hmem⟩

/-- Every writer completes its request. -/
def WritersComplete {n : Nat} (_ : Fin n → RankState) : JobEvent n → Prop
  | .dieWriter _ _ => False
  | _ => True

instance {n : Nat} (ranks : Fin n → RankState) (event : JobEvent n) :
    Decidable (WritersComplete ranks event) :=
  match event with
  | .dieWriter _ _ => .isFalse id
  | .schedule _ _ | .maybeFinalize _ _ | .warmup _ | .main _ | .finish _
  | .finishWriter _ _ | .allReduce => .isTrue trivial

/-- Both ranks ask their temporal caller in a blocking call; rank 0 finalizes the request
while the writer of rank 1 is running. -/
theorem blocking_check_finalizes_early :
    ∃ ranks : Fin 2 → RankState, (jobSystem 2).Reachable WritersComplete ranks ∧
      0 ∈ (ranks 0).history.finalized ∧ 0 ∉ (ranks 1).history.completed := by
  have hrun : ((jobSystem 2).execute WritersComplete (fun _ => .fresh false false)
      [.schedule 0 ⟨true, 0, false⟩, .schedule 1 ⟨true, 0, false⟩, .finishWriter 0 0,
        .maybeFinalize 0 true, .maybeFinalize 1 true, .main 0, .main 1, .allReduce,
        .main 0, .main 0]).any (fun ranks =>
          0 ∈ (ranks 0).history.finalized ∧ 0 ∉ (ranks 1).history.completed) = true := by
    decide +kernel
  have hinit : (jobSystem 2).init fun _ => .fresh false false := ⟨false, false, rfl⟩
  obtain ⟨ranks, hranks, htest⟩ := System.exists_reachable_of_execute hinit hrun
  exact ⟨ranks, hranks, of_decide_eq_true htest⟩

end ResiliencyExt.Checkpointing.AsyncCkpt
