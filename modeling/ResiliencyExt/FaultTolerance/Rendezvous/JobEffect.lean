import ResiliencyExt.FaultTolerance.Rendezvous.JobStep

set_option autoImplicit false

/-!
# Rendezvous: what a step does to the store

`jobStep_effect` is the inversion of the step function: every step that succeeds
has one of ten effects on the store, each from a known phase.  The invariants of
the store follow from it without looking at the step functions again.
-/

namespace ResiliencyExt.FaultTolerance.Rendezvous

open Foundation Function

/-- The round whose `round_done_n` the step sets to `"0"`. -/
def opensRound (l : Launcher) (event : Event) : Option Nat :=
  match l.phase, event with
  | .construct .setOpen, .next => some 0
  | .agent (.openSet _), .next => some (l.round + 1)
  | _, _ => none

/-- The effect of the step of `p` on the store. -/
inductive Effect (cfg : JobConfig) (p : Nat) (x : BarrierStore) (l : Launcher)
    (event : Event) : BarrierStore → Prop
  | keep : Effect cfg p x l event x
  | sentinel (h : l.phase = .construct .setShutdown) :
      Effect cfg p x l event { x with shutdown := some none }
  | shutdown {reason : ShutdownReason}
      (h : reason.isNoRestart = true → ∃ after, l.phase = .agent (.signal reason after)) :
      Effect cfg p x l event (x.setShutdown reason)
  | unhealthy (count : Nat) (groups : Nat → List String) :
      Effect cfg p x l event { x with unhealthyCount := count, unhealthyGroups := groups }
  | opens {n : Nat} (h : opensRound l event =
    some n) : Effect cfg p x l event (x.setRoundDone n .opened)
  | mark (h : l.phase = .close .mark) : Effect cfg p x l event (x.setRoundDone l.round .closed)
  | add (h : l.phase = .join .add) :
      Effect cfg p x l event { x with
        joinCount := update x.joinCount l.round (x.joinCount l.round + 1)
        claimant := update x.claimant l.round
          (update (x.claimant l.round) (x.joinCount l.round + 1) (some p)) }
  | rank {call : FencedPhase} {result : Option Bytes × FencedPhase}
      (h : l.phase = .join (.rank call))
      (hcall : fencedStep (rankPlaceholder l.round) (x.slotRank l.slot) call = some result) :
      Effect cfg p x l event { x with slotRank := update x.slotRank l.slot result.1 }
  | slot {call : FencedPhase} {result : Option Bytes × FencedPhase}
      (h : l.phase = .join (.slot call))
      (hcall : fencedStep (slotValue cfg p l.round) (x.slot l.slot) call = some result) :
      Effect cfg p x l event { x with slot := update x.slot l.slot result.1 }
  | assign {activeCandidates : List Participant} {a : Assignment}
      (h : l.phase = .close (.assign activeCandidates a)) :
      Effect cfg p x l event (x.assign l.round a)
  | returns {rank : Int} {total : Nat} (h : l.phase = .await .rank)
      (hvalue : x.slotRank l.slot = some (.packed (packRankValue rank total l.round)))
      (hassigned : rank ≠ UNASSIGNED) (hactive : rank < cfg.minNodes) :
      Effect cfg p x l event { x with
        returned := ⟨p, l.round, l.slot, rank, total, l.round⟩ :: x.returned }

section Steps

variable {cfg : JobConfig} {p : Nat} {x y : BarrierStore} {l m : Launcher} {event : Event}

theorem constructStep_effect {phase : ConstructPhase} (hphase : l.phase = .construct phase)
    (h : constructStep cfg p x l phase event = some (y, m)) : Effect cfg p x l event y := by
  unfold constructStep at h
  split at h
  · cases h
    exact .keep
  · cases h
    exact .opens (by simp only [opensRound, hphase])
  · split at h
    · cases h
      exact .keep
    · split at h <;> cases h <;> exact .keep
  · cases h
    exact .sentinel hphase
  · cases h

theorem waitStep_effect {phase : WaitPhase}
    (h : waitStep cfg p x l phase event = some (y, m)) : Effect cfg p x l event y := by
  have hkeep : y = x := by
    unfold waitStep at h
    split at h
    · split at h <;> cases h
      rfl
    · cases h
      rfl
    · split at h <;> cases h <;> rfl
    · split at h <;> cases h
      rfl
    · split at h <;> cases h <;> rfl
    · cases h
  exact hkeep ▸ .keep

theorem joinStep_effect {phase : JoinPhase} (hphase : l.phase = .join phase)
    (h : joinStep cfg p x l phase event = some (y, m)) : Effect cfg p x l event y := by
  unfold joinStep at h
  split at h
  · cases h
    exact .keep
  · cases h
    exact .shutdown fun hreason => nomatch hreason
  · cases h
    exact .unhealthy _ x.unhealthyGroups
  · split at h
    · cases h
      exact .keep
    · cases h
      exact .unhealthy x.unhealthyCount _
  · cases h
    exact .add hphase
  · obtain ⟨result, hcall, heq⟩ := Option.map_eq_some_iff.mp h
    cases heq
    exact .rank hphase hcall
  · obtain ⟨result, hcall, heq⟩ := Option.map_eq_some_iff.mp h
    cases heq
    exact .slot hphase hcall
  · cases h

theorem closeStep_effect {phase : ClosePhase} (hphase : l.phase = .close phase)
    (h : closeStep cfg p x l phase event = some (y, m)) : Effect cfg p x l event y := by
  unfold closeStep at h
  split at h
  case h_5 =>
    cases h
    exact .shutdown fun hreason => nomatch hreason
  case h_11 =>
    cases h
    exact .assign hphase
  case h_12 =>
    cases h
    exact .mark hphase
  case h_13 => cases h
  all_goals
    cases h
    exact .keep

theorem awaitStep_effect {phase : AwaitPhase} (hphase : l.phase = .await phase)
    (h : awaitStep cfg p x l phase event = some (y, m)) : Effect cfg p x l event y := by
  unfold awaitStep at h
  split at h
  · cases h
    exact .keep
  · cases h
    exact .keep
  · obtain ⟨value, _, heq⟩ := Option.map_eq_some_iff.mp h
    cases heq
    exact .keep
  · split at h
    · cases h
      exact .keep
    · rename_i value hvalue
      split at h
      · cases h
        exact .keep
      · rename_i rank total writtenRound hunpack
        split at h
        · rename_i hread
          obtain ⟨rfl, hassigned, hactive⟩ := hread
          cases h
          rw [unpackRankValue_eq_some.mp hunpack] at hvalue
          exact .returns hphase hvalue hassigned hactive
        · cases h
          exact .keep
  · cases h

theorem agentStep_effect {phase : AgentPhase} (hphase : l.phase = .agent phase)
    (h : agentStep cfg p x l phase event = some (y, m)) : Effect cfg p x l event y := by
  unfold agentStep at h
  split at h
  case h_11 reason after =>
    cases h
    exact .shutdown fun _ => ⟨after, hphase⟩
  case h_13 =>
    cases h
    exact .opens (by simp only [opensRound, hphase])
  case h_14 => cases h
  all_goals
    first
    | cases h; exact .keep
    | split at h
      · cases h
        exact .keep
      · first
        | cases h; done
        | cases h; exact .keep
        | split at h <;> cases h <;> exact .keep

theorem closeOnExit_effect (outcome : Outcome) :
    Effect cfg p x l event (closeOnExit cfg p x outcome) := by
  unfold closeOnExit
  split
  · exact .keep
  · split
    · rename_i reason hreason
      refine .shutdown fun hno => ?_
      cases outcome <;> cases hreason <;> cases hno
    · exact .keep

/-- Every step has one of these effects. -/
theorem jobStep_effect (h : jobStep cfg p x l event = some (y, m)) : Effect cfg p x l event y := by
  unfold jobStep at h
  split at h
  · split at h <;> cases h
    exact .keep
  · split at h <;> cases h
    exact .keep
  · split at h
    · rename_i hphase
      exact constructStep_effect hphase h
    · exact waitStep_effect h
    · rename_i hphase
      exact joinStep_effect hphase h
    · rename_i hphase
      exact closeStep_effect hphase h
    · rename_i hphase
      exact awaitStep_effect hphase h
    · rename_i hphase
      exact agentStep_effect hphase h
    · split at h <;> cases h
      exact .keep
    · split at h <;> cases h
      exact closeOnExit_effect _
    · cases h

end Steps

end ResiliencyExt.FaultTolerance.Rendezvous
