import ResiliencyExt.FaultTolerance.Rendezvous.RankAgreement

set_option autoImplicit false

/-!
# Rendezvous: newer rounds are never overwritten

The slot and rank keys are reused, and each of their values names the round that
wrote it.  Participants write them with a fenced compare-and-set, which cannot go
back in rounds.  The host writes the rank keys with a plain `multi_set`: nothing
stops it from overwriting a newer round but the order of the rounds themselves,
and so only as long as no closed round is reopened.
-/

namespace ResiliencyExt.FaultTolerance.Rendezvous

open Foundation

/-- No reused key went back to an older round. -/
structure RoundsLE (x y : BarrierStore) : Prop where
  slot : ∀ s, CellLE storeValueRound (x.slot s) (y.slot s)
  slotRank : ∀ s, CellLE storeValueRound (x.slotRank s) (y.slotRank s)

theorem RoundsLE.refl (x : BarrierStore) : RoundsLE x x :=
  ⟨fun _ => CellLE.refl _ _, fun _ => CellLE.refl _ _⟩

theorem RoundsLE.trans {x y z : BarrierStore} (hxy : RoundsLE x y) (hyz : RoundsLE y z) :
    RoundsLE x z :=
  ⟨fun s => (hxy.slot s).trans (hyz.slot s), fun s => (hxy.slotRank s).trans (hyz.slotRank s)⟩

/-- While round `n` is open, no rank value is of a later round. -/
theorem StoreInv.rank_round_le {cfg : JobConfig} {x : BarrierStore} (h : StoreInv cfg x)
    {n s : Nat} {b : Bytes} (hopen : x.roundDone n = some .opened)
    (hb : x.slotRank s = some b) : storeValueRound b ≤ n := by
  obtain ⟨k, rank, total, rfl, hopened, _⟩ := h.ranks hb
  simp only [storeValueRound_packed, packRankValue]
  by_contra hlt
  have hclosed : x.roundDone n = some .closed := h.chain hopened (by omega)
  rw [hopen] at hclosed
  cases hclosed

/-- A fenced call moves one of many keys forward. -/
theorem update_fenced_cellLE {cells : Nat → Option Bytes} {key : Nat} {desired : Bytes}
    {call : FencedPhase} {result : Option Bytes × FencedPhase} {l : Launcher}
    (hround : storeValueRound desired = l.round) (hnewer : NotNewer l call)
    (hcall : fencedStep desired (cells key) call = some result) (s : Nat) :
    CellLE storeValueRound (cells s) (Function.update cells key result.1 s) := by
  by_cases hs : s = key
  · subst hs
    rw [Function.update_self]
    obtain ⟨cell', call'⟩ := result
    refine fencedStep_cellLE (fun expected hexpected => ?_) hcall
    subst hexpected
    rw [hround]
    exact hnewer expected rfl
  · rw [Function.update_of_ne hs]
    exact CellLE.refl _ _

theorem Effect.roundsLE {cfg : JobConfig} {p : Nat} {x y : BarrierStore} {l : Launcher}
    {event : Event} (heffect : Effect cfg p x l event y) (hstore : StoreInv cfg x)
    (hlauncher : LauncherInv cfg p x l) : RoundsLE x y := by
  have hinv := hlauncher.phase
  cases heffect with
  | rank hphase hcall =>
    rw [hphase] at hinv
    refine ⟨fun _ => CellLE.refl _ _, fun s => ?_⟩
    exact update_fenced_cellLE (by simp [rankPlaceholder, packRankValue]) hinv.2.2 hcall s
  | slot hphase hcall =>
    rw [hphase] at hinv
    refine ⟨fun s => ?_, fun _ => CellLE.refl _ _⟩
    exact update_fenced_cellLE (by simp [slotValue, packParticipantValue]) hinv.2.2 hcall s
  | @assign _ a hphase =>
    rw [hphase] at hinv
    refine ⟨fun _ => CellLE.refl _ _, fun s => ?_⟩
    simp only [BarrierStore.assign]
    cases a.rank s with
    | none => exact CellLE.refl _ _
    | some rank =>
      refine CellLE.write fun b hb => ?_
      simp only [storeValueRound_packed, packRankValue]
      exact hstore.rank_round_le hinv.1.2.1 hb
  | _ => exact ⟨fun _ => CellLE.refl _ _, fun _ => CellLE.refl _ _⟩

/-- No key goes back in rounds, in any run in which no closed round is reopened. -/
theorem rounds_monotone {cfg : JobConfig} {c d : JobState} {actions : List (Nat × Event)}
    (hc : (job cfg).system.Reachable (Agents.condition Orderly) c)
    (hrun : (job cfg).system.Run (Agents.condition Orderly) c actions d) :
    RoundsLE c.shared d.shared := by
  refine System.Run.monotone (R := fun c d => RoundsLE c.shared d.shared)
    (fun c => RoundsLE.refl c.shared) (fun _ _ _ => RoundsLE.trans) ?_ hc hrun
  intro c a d hreach _ hstep
  obtain ⟨y, m, hlocal, rfl⟩ := Agents.system_step_eq_some.mp hstep
  have hinv := job_invariant hreach
  exact (jobStep_effect hlocal).roundsLE hinv.shared (hinv.agent a.1)

/-- Slot 1 goes from nothing to the rank of round 0. -/
theorem rounds_monotone_firstRound :
    ∃ c : JobState, c.shared.slotRank 1 = some (.packed (packRankValue 0 2 0)) ∧
      RoundsLE (job controlJob).initial.shared c.shared := by
  have hrun : ((job controlJob).system.execute (Agents.condition Orderly)
        (job controlJob).initial firstRound).any
      (fun c => c.shared.slotRank 1 = some (.packed (packRankValue 0 2 0))) = true := by
    decide +kernel
  obtain ⟨c, hc, htest⟩ := Option.any_eq_true _ _ |>.mp hrun
  exact ⟨c, of_decide_eq_true htest,
    rounds_monotone (.init rfl) (System.run_of_execute hc)⟩

/-- Launcher 2 has joined round 2 in slot 1 when the control process, sent back to
round 1 by launcher 1, publishes the ranks of round 1 once more. -/
theorem reopened_round_overwrites_newer :
    ¬ ∀ (cfg : JobConfig) (c d : JobState) (actions : List (Nat × Event)),
        (job cfg).system.Reachable (Agents.condition Promised) c →
          (job cfg).system.Run (Agents.condition Promised) c actions d →
            RoundsLE c.shared d.shared := by
  intro hclaim
  have hrun : ((job controlJob).system.execute (Agents.condition Promised)
        (job controlJob).initial (firstRound ++ secondRound ++
          failWorkers 2 ++ advance 1 2 ++ scanForward 2 ++ joinRound 2 ++ advance 2 2 ++
          advance 1 1 ++ gatherRound ++ advance 1 2)).any
      (fun c => c.shared.isShutdown = false ∧
        c.shared.slotRank 1 = some (rankPlaceholder 2) ∧
        ((job controlJob).system.execute (Agents.condition Promised) c [(0, .next)]).any
          fun d => d.shared.slotRank 1 = some (.packed (packRankValue 0 2 1))) = true := by
    decide +kernel
  obtain ⟨c, hc, htest⟩ := System.exists_reachable_of_execute rfl hrun
  obtain ⟨_, hnewer, hnext⟩ := of_decide_eq_true htest
  obtain ⟨d, hd, holder⟩ := Option.any_eq_true _ _ |>.mp hnext
  have hle := (hclaim controlJob c d _ hc (System.run_of_execute hd)).slotRank 1
  rw [hnewer, of_decide_eq_true holder] at hle
  obtain ⟨b, hb, hround⟩ := hle _ rfl
  obtain rfl := Option.some.inj hb
  simp [rankPlaceholder, packRankValue] at hround

end ResiliencyExt.FaultTolerance.Rendezvous
