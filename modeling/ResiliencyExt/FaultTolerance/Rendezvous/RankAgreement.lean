import ResiliencyExt.FaultTolerance.Rendezvous.JobInvariant

set_option autoImplicit false

/-!
# Rendezvous: rank agreement

Within a round no two launchers return with the same group rank, and a returned
rank is the one that the host assigned to the node in the launcher's own slot.

`open_rendezvous` sets `round_done_N` without looking at it again.  A launcher
that stalls between its `check` and its `set` reopens a round that the others have
closed in the meantime, the host assigns the round once more, and the ranks of the
two assignments need not agree.  In every run without such a step they do.
-/

namespace ResiliencyExt.FaultTolerance.Rendezvous

open Foundation

structure RankAgreement (cfg : JobConfig) (x : BarrierStore) : Prop where
  distinct : ∀ e ∈ x.returned, ∀ f ∈ x.returned, e.round = f.round →
    e.launcher ≠ f.launcher → e.rank ≠ f.rank
  active : ∀ e ∈ x.returned, e.rank < cfg.minNodes ∧ e.writtenRound = e.round
  assigned : ∀ e ∈ x.returned, ∃ a info rank, x.assignment e.round = some a ∧
    a.slots[e.slot - 1]? = some (some info) ∧
    info.nodeDesc = (cfg.participant e.launcher).nodeDesc ∧
    a.ranks.get? info.nodeDesc = some rank ∧ e.rank = rank

/-- The launcher's own slot holds its own node, and its rank was assigned to it. -/
theorem ReturnedOk.own_slot {cfg : JobConfig} {x : BarrierStore} (hstore : StoreInv cfg x)
    {e : Returned} (h : ReturnedOk cfg x e) :
    ∃ a rank, x.assignment e.round = some a ∧
      a.slots[e.slot - 1]? = some (some (cfg.participant e.launcher)) ∧
      a.ranks.get? (cfg.participant e.launcher).nodeDesc = some rank ∧ e.rank = rank := by
  obtain ⟨a, rank, ha, hrank, heq, _⟩ := h.assigned
  obtain ⟨index, info, hslot, hinfo, hget⟩ := assignedRank_eq_some hrank
  obtain ⟨q, hclaimant, rfl⟩ := (hstore.assignments ha).slots index info hinfo
  have hown := h.claimant
  rw [hslot, hclaimant] at hown
  obtain rfl := Option.some.inj hown
  refine ⟨a, rank, ha, ?_, hget, heq⟩
  rw [hslot]
  exact hinfo

/-- Ranks agree in every run in which no closed round is reopened. -/
theorem rank_agreement {cfg : JobConfig} {c : JobState}
    (hc : (job cfg).system.Reachable (Agents.condition Orderly) c) :
    RankAgreement cfg c.shared := by
  have hstore : StoreInv cfg c.shared := (job_invariant hc).shared
  refine ⟨fun e he f hf hround hne hrank => hne ?_, fun e he => ?_, fun e he => ?_⟩
  · obtain ⟨a, rank, ha, _, hget, heq⟩ := (hstore.returned he).own_slot hstore
    obtain ⟨b, rank', hb, _, hget', heq'⟩ := (hstore.returned hf).own_slot hstore
    rw [hround, hb] at ha
    obtain rfl := Option.some.inj ha
    have hsame : rank = rank' := by omega
    subst hsame
    have hnode := (hstore.assignments hb).injective _ _ _ hget hget'
    exact cfg.distinct _ _ hnode
  · have hok := hstore.returned he
    exact ⟨hok.active, hok.writtenRound⟩
  · obtain ⟨a, rank, ha, hslot, hget, heq⟩ := (hstore.returned he).own_slot hstore
    exact ⟨a, cfg.participant e.launcher, rank, ha, hslot, rfl, hget, heq⟩

/-! ## A job with a control process -/

def nodeName : Nat → String
  | 0 => "control"
  | 1 => "node1"
  | 2 => "node2"
  | 3 => "node3"
  | _ => "node"

/-- Process 0 is the control process; two of the launchers train at a time. -/
def controlJob : JobConfig where
  minNodes := 2
  maxNodes := 3
  segment := none
  replacementGroupSize := none
  lastCall := false
  multiLaunchersPerNode := false
  jobArray := false
  maxRestarts := 3
  storeHost := 0
  controlPlane := true
  participant p := ⟨⟨nodeName p, p, 0⟩, p, "none", none⟩
  distinct _ _ h := (NodeDesc.mk.inj h).2.1

/-- The next `n` operations of `p`. -/
def advance (n p : Nat) : List (Nat × Event) :=
  List.replicate n (p, .next)

/-- `p` finds its round open and claims a slot. -/
def joinRound (p : Nat) : List (Nat × Event) :=
  advance 2 p ++ [(p, .hook .healthy), (p, .next)]

/-- `p` finds its round closed and scans forward to the next one. -/
def scanForward (p : Nat) : List (Nat × Event) :=
  [(p, .next), (p, .scan), (p, .next), (p, .next)]

/-- The control process gathers its round, up to the assignment. -/
def gatherRound : List (Nat × Event) :=
  advance 5 0 ++ [(0, .snapshot []), (0, .next), (0, .evaluate false)]

/-- The workers of `p` fail and it is about to open the next round. -/
def failWorkers (p : Nat) : List (Nat × Event) :=
  [(p, .workers .failed), (p, .decide false), (p, .next)]

/-- Launchers 1 and 2 train in round 0. -/
def firstRound : List (Nat × Event) :=
  advance 4 0 ++ advance 3 1 ++ advance 3 2 ++ joinRound 1 ++ advance 4 1 ++ joinRound 2 ++
    advance 4 2 ++ gatherRound ++ advance 2 0 ++ advance 3 1 ++ advance 3 2

/-- Both see their workers fail.  Launcher 1 stalls before it opens round 1;
launcher 2 opens it, and trains in it with launcher 3. -/
def secondRound : List (Nat × Event) :=
  failWorkers 1 ++ failWorkers 2 ++ advance 1 2 ++ scanForward 2 ++ joinRound 2 ++
    advance 6 2 ++ advance 4 3 ++ joinRound 3 ++ advance 6 3 ++ scanForward 0 ++
    gatherRound ++ advance 2 0 ++ advance 3 2 ++ advance 3 3

/-- Two launchers return from round 0. -/
theorem rank_agreement_firstRound :
    ∃ c : JobState, c.shared.returned.map (fun e => (e.launcher, e.rank)) = [(2, 1), (1, 0)] ∧
      RankAgreement controlJob c.shared := by
  have hrun : ((job controlJob).system.execute (Agents.condition Orderly)
        (job controlJob).initial firstRound).any
      (fun c => c.shared.returned.map (fun e => (e.launcher, e.rank)) = [(2, 1), (1, 0)]) =
        true := by
    decide +kernel
  obtain ⟨c, hc, htest⟩ := System.exists_reachable_of_execute rfl hrun
  exact ⟨c, of_decide_eq_true htest, rank_agreement hc⟩

/-- Launcher 1 resumes and sets `round_done_1` back to `"0"`; it joins round 1, and
the control process assigns the round a second time. -/
theorem reopened_round_repeats_rank :
    ¬ ∀ (cfg : JobConfig) (c : JobState),
        (job cfg).system.Reachable (Agents.condition Promised) c →
          RankAgreement cfg c.shared := by
  intro hclaim
  have hrun : ((job controlJob).system.execute (Agents.condition Promised)
        (job controlJob).initial (firstRound ++ secondRound ++ advance 1 1 ++ scanForward 1 ++
          joinRound 1 ++ advance 4 1 ++ gatherRound ++ advance 2 0 ++ advance 3 1)).any
      (fun c => ⟨1, 1, 3, 0, 3, 1⟩ ∈ c.shared.returned ∧
        ⟨2, 1, 1, 0, 2, 1⟩ ∈ c.shared.returned) = true := by
    decide +kernel
  obtain ⟨c, hc, htest⟩ := System.exists_reachable_of_execute rfl hrun
  obtain ⟨hfirst, hsecond⟩ := of_decide_eq_true htest
  exact (hclaim controlJob c hc).distinct _ hfirst _ hsecond rfl (by decide) rfl

end ResiliencyExt.FaultTolerance.Rendezvous
