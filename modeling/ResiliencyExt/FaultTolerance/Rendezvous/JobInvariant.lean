import ResiliencyExt.FaultTolerance.Rendezvous.JobEffect

set_option autoImplicit false

/-!
# Rendezvous: the invariant of the job

The invariant relates the join counters, the slot and rank values, the round
indicators and the assignments.  It has a part for the store and a part for every
process, and it holds in every run in which no step sets `round_done_n` back to
`"0"` after the round was closed.  `open_rendezvous` and `__init__` look at the
key before they set it, but other processes run in between.

Three facts carry the rest.  A closed round stays closed, so the host closes every
round once and its assignment is final.  A slot of a round is claimed by one
process, and only that process writes values of the round to the slot's keys.
While the host gathers a round the round is open, so no later round has begun.
-/

namespace ResiliencyExt.FaultTolerance.Rendezvous

open Foundation Function
open Launcher (goto_phase)
open Option (map_eq_some_iff some)

/-! ## The condition on runs -/

/-- `open_rendezvous` is only called after the caller's round was closed. -/
def OpensAfterClose (x : BarrierStore) (l : Launcher) (event : Event) : Prop :=
  match l.phase, event with
  | .agent (.openCheck _), .next => x.roundDone l.round = some .closed
  | _, _ => True

instance (x : BarrierStore) (l : Launcher) (event : Event) :
    Decidable (OpensAfterClose x l event) := by
  unfold OpensAfterClose
  split <;> infer_instance

/-- No round that is closed is set back to open. -/
def NoReopen (x : BarrierStore) (l : Launcher) (event : Event) : Prop :=
  ∀ n ∈ opensRound l event, x.roundDone n ≠ some .closed

instance (x : BarrierStore) (l : Launcher) (event : Event) :
    Decidable (NoReopen x l event) :=
  inferInstanceAs (Decidable (∀ n ∈ opensRound l event, x.roundDone n ≠ some .closed))

/-- What the callers promise. -/
def Promised (_p : Nat) (x : BarrierStore) (l : Launcher) (event : Event) : Prop :=
  OpensAfterClose x l event

/-- What the callers promise, and what makes the rounds final. -/
def Orderly (_p : Nat) (x : BarrierStore) (l : Launcher) (event : Event) : Prop :=
  OpensAfterClose x l event ∧ NoReopen x l event

instance (p : Nat) (x : BarrierStore) (l : Launcher) (event : Event) :
    Decidable (Promised p x l event) :=
  inferInstanceAs (Decidable (OpensAfterClose x l event))

instance (p : Nat) (x : BarrierStore) (l : Launcher) (event : Event) :
    Decidable (Orderly p x l event) :=
  inferInstanceAs (Decidable (OpensAfterClose x l event ∧ NoReopen x l event))

/-! ## Assertions -/

def Closed (x : BarrierStore) (n : Nat) : Prop :=
  x.roundDone n = some .closed

/-- Every participant of a snapshot of round `n` is the claimant of its slot. -/
def SlotsFrom (cfg : JobConfig) (x : BarrierStore) (n : Nat)
    (slots : List (Option Participant)) : Prop :=
  ∀ index info, slots[index]? = some (some info) →
    ∃ q, x.claimant n (index + 1) = some q ∧ info = cfg.participant q

/-- An assignment made in round `n`. -/
structure AssignmentOk (cfg : JobConfig) (x : BarrierStore) (n : Nat) (a : Assignment) :
    Prop where
  slots : SlotsFrom cfg x n a.slots
  injective : ∀ d e r, a.ranks.get? d = some r → a.ranks.get? e = some r → d = e

/-- The round's assignment gives this rank to this slot. -/
def AssignedAs (x : BarrierStore) (n slot : Nat) (rank : Int) (total : Nat) : Prop :=
  ∃ a r, x.assignment n = some a ∧ a.rank slot = some r ∧ rank = r ∧
    total = a.ranks.entries.length

/-- A slot value was written by the claimant of the slot in the value's round. -/
def SlotOk (cfg : JobConfig) (x : BarrierStore) (slot : Nat) (b : Bytes) : Prop :=
  ∃ n q, b = slotValue cfg q n ∧ x.claimant n slot = some q ∧ x.roundDone n ≠ none

/-- A rank value is a placeholder or comes from the assignment of its round. -/
def RankOk (x : BarrierStore) (slot : Nat) (b : Bytes) : Prop :=
  ∃ n rank total, b = .packed (packRankValue rank total n) ∧ x.roundDone n ≠ none ∧
    (rank ≠ UNASSIGNED → AssignedAs x n slot rank total)

/-- An active rank was returned to the claimant of the slot, as assigned. -/
structure ReturnedOk (cfg : JobConfig) (x : BarrierStore) (e : Returned) : Prop where
  writtenRound : e.writtenRound = e.round
  active : e.rank < cfg.minNodes
  claimant : x.claimant e.round e.slot = some e.launcher
  assigned : AssignedAs x e.round e.slot e.rank e.total

/-- The store's part of the invariant. -/
structure StoreInv (cfg : JobConfig) (x : BarrierStore) : Prop where
  /-- A round begins after all earlier rounds were closed. -/
  chain : ∀ {m n}, x.roundDone m ≠ none → n < m → Closed x n
  claims : ∀ {n slot q}, x.claimant n slot = some q → slot ≤ x.joinCount n
  slots : ∀ {slot b}, x.slot slot = some b → SlotOk cfg x slot b
  ranks : ∀ {slot b}, x.slotRank slot = some b → RankOk x slot b
  assignments : ∀ {n a}, x.assignment n = some a → AssignmentOk cfg x n a
  returned : ∀ {e}, e ∈ x.returned → ReturnedOk cfg x e

/-- The process has seen its round open; the host knows that it still is. -/
def Entered (cfg : JobConfig) (p : Nat) (x : BarrierStore) (l : Launcher) : Prop :=
  x.roundDone l.round ≠ none ∧ (p = cfg.storeHost → x.roundDone l.round = some .opened)

def Claimed (p : Nat) (x : BarrierStore) (l : Launcher) : Prop :=
  x.claimant l.round l.slot = some p

/-- The host gathers its round. -/
def Closing (cfg : JobConfig) (p : Nat) (x : BarrierStore) (l : Launcher) : Prop :=
  p = cfg.storeHost ∧ x.roundDone l.round = some .opened ∧
    (cfg.isControl p = false → Claimed p x l)

/-- A call that is about to swap expects nothing newer than its own round. -/
def NotNewer (l : Launcher) (call : FencedPhase) : Prop :=
  ∀ expected, call.expectation = some expected → storeValueRound expected ≤ l.round

/-- What a process relies on where it is. -/
def PhaseInv (cfg : JobConfig) (p : Nat) (x : BarrierStore) (l : Launcher) : Phase → Prop
  | .join (.rank call) | .join (.slot call) =>
    Entered cfg p x l ∧ Claimed p x l ∧ NotNewer l call
  | .join _ => Entered cfg p x l
  | .close (.recheck _ slots) | .close (.evaluate slots) =>
    Closing cfg p x l ∧ SlotsFrom cfg x l.round slots
  | .close (.assign _ a) => Closing cfg p x l ∧ AssignmentOk cfg x l.round a
  | .close _ => Closing cfg p x l
  | .await _ => Claimed p x l
  | .agent (.signal _ .close) | .agent (.openCheck .close) => Closing cfg p x l
  | .agent (.openSet .close) => Closing cfg p x l ∧ Closed x l.round
  | .agent (.openSet _) => Closed x l.round
  | _ => True

/-- What the host knows about the assignments it made. -/
def HostInv (x : BarrierStore) (l : Launcher) : Phase → Prop
  | .close .mark => ∀ n, n ≠ l.round → x.assignment n ≠ none → Closed x n
  | .leaving _ | .exited _ => True
  | _ => ∀ n, x.assignment n ≠ none → Closed x n

/-- A process's part of the invariant. -/
structure LauncherInv (cfg : JobConfig) (p : Nat) (x : BarrierStore) (l : Launcher) :
    Prop where
  phase : PhaseInv cfg p x l l.phase
  host : p = cfg.storeHost → HostInv x l l.phase

/-! ## How the store evolves -/

/-- What no step undoes. -/
structure Evolves (x y : BarrierStore) : Prop where
  opened : ∀ {n}, x.roundDone n ≠ none → y.roundDone n ≠ none
  closed : ∀ {n}, Closed x n → Closed y n
  claimant : ∀ {n slot q}, x.claimant n slot = some q → y.claimant n slot = some q
  assignment : ∀ {n a}, x.assignment n = some a → y.assignment n = some a

/-- What only the host does. -/
structure LeavesOpen (x y : BarrierStore) : Prop where
  opened : ∀ {n}, x.roundDone n = some .opened → y.roundDone n = some .opened
  assignment : y.assignment = x.assignment

theorem SlotsFrom.evolves {cfg : JobConfig} {x y : BarrierStore} (hxy : Evolves x y)
    {n : Nat} {slots : List (Option Participant)} (h : SlotsFrom cfg x n slots) :
    SlotsFrom cfg y n slots := by
  intro index info hinfo
  obtain ⟨q, hclaimant, heq⟩ := h index info hinfo
  exact ⟨q, hxy.claimant hclaimant, heq⟩

theorem AssignmentOk.evolves {cfg : JobConfig} {x y : BarrierStore} (hxy : Evolves x y)
    {n : Nat} {a : Assignment} (h : AssignmentOk cfg x n a) : AssignmentOk cfg y n a :=
  ⟨h.slots.evolves hxy, h.injective⟩

theorem AssignedAs.evolves {x y : BarrierStore} (hxy : Evolves x y) {n slot total : Nat}
    {rank : Int} (h : AssignedAs x n slot rank total) : AssignedAs y n slot rank total := by
  obtain ⟨a, r, ha, hrest⟩ := h
  exact ⟨a, r, hxy.assignment ha, hrest⟩

theorem SlotOk.evolves {cfg : JobConfig} {x y : BarrierStore} (hxy : Evolves x y)
    {slot : Nat} {b : Bytes} (h : SlotOk cfg x slot b) : SlotOk cfg y slot b := by
  obtain ⟨n, q, hb, hclaimant, hopened⟩ := h
  exact ⟨n, q, hb, hxy.claimant hclaimant, hxy.opened hopened⟩

theorem RankOk.evolves {x y : BarrierStore} (hxy : Evolves x y) {slot : Nat} {b : Bytes}
    (h : RankOk x slot b) : RankOk y slot b := by
  obtain ⟨n, rank, total, hb, hopened, hassigned⟩ := h
  exact ⟨n, rank, total, hb, hxy.opened hopened, fun hrank => (hassigned hrank).evolves hxy⟩

theorem ReturnedOk.evolves {cfg : JobConfig} {x y : BarrierStore} (hxy : Evolves x y)
    {e : Returned} (h : ReturnedOk cfg x e) : ReturnedOk cfg y e :=
  ⟨h.writtenRound, h.active, hxy.claimant h.claimant, h.assigned.evolves hxy⟩

section Stable

variable {cfg : JobConfig} {q : Nat} {x y : BarrierStore} {k : Launcher}

theorem Entered.evolves (hxy : Evolves x y) (hopen : q = cfg.storeHost → LeavesOpen x y)
    (h : Entered cfg q x k) : Entered cfg q y k :=
  ⟨hxy.opened h.1, fun hq => (hopen hq).opened (h.2 hq)⟩

theorem Closing.evolves (hxy : Evolves x y) (hopen : q = cfg.storeHost → LeavesOpen x y)
    (h : Closing cfg q x k) : Closing cfg q y k :=
  ⟨h.1, (hopen h.1).opened h.2.1, fun hcontrol => hxy.claimant (h.2.2 hcontrol)⟩

/-- A process that does not move keeps what it relies on. -/
theorem LauncherInv.evolves (hxy : Evolves x y)
    (hopen : q = cfg.storeHost → LeavesOpen x y) (h : LauncherInv cfg q x k) :
    LauncherInv cfg q y k := by
  obtain ⟨hphase, hhost⟩ := h
  constructor
  · revert hphase
    unfold PhaseInv
    split
    · exact fun h => ⟨h.1.evolves hxy hopen, hxy.claimant h.2.1, h.2.2⟩
    · exact fun h => ⟨h.1.evolves hxy hopen, hxy.claimant h.2.1, h.2.2⟩
    · exact fun h => h.evolves hxy hopen
    · exact fun h => ⟨h.1.evolves hxy hopen, h.2.evolves hxy⟩
    · exact fun h => ⟨h.1.evolves hxy hopen, h.2.evolves hxy⟩
    · exact fun h => ⟨h.1.evolves hxy hopen, h.2.evolves hxy⟩
    · exact fun h => h.evolves hxy hopen
    · exact fun h => hxy.claimant h
    · exact fun h => h.evolves hxy hopen
    · exact fun h => h.evolves hxy hopen
    · exact fun h => ⟨h.1.evolves hxy hopen, hxy.closed h.2⟩
    · exact fun h => hxy.closed h
    · exact fun h => h
  · intro hq
    have hassignment := (hopen hq).assignment
    have hold := hhost hq
    revert hold
    unfold HostInv
    split
    · intro h n hn ha
      rw [hassignment] at ha
      exact hxy.closed (h n hn ha)
    · exact fun h => h
    · exact fun h => h
    · intro h n ha
      rw [hassignment] at ha
      exact hxy.closed (h n ha)

end Stable

/-! ## What a step does to the store's part -/

theorem opensRound_eq_some {l : Launcher} {event : Event} {n : Nat}
    (h : opensRound l event = some n) :
    (l.phase = .construct .setOpen ∧ n = 0) ∨
      ∃ after, l.phase = .agent (.openSet after) ∧ n = l.round + 1 := by
  unfold opensRound at h
  split at h
  · rename_i hphase
    exact Or.inl ⟨hphase, (some.inj h).symm⟩
  · rename_i after hphase
    exact Or.inr ⟨after, hphase, (some.inj h).symm⟩
  · cases h

/-- The opener of round `n + 1` has seen round `n` closed. -/
theorem LauncherInv.closed_of_opensRound {cfg : JobConfig} {p : Nat} {x : BarrierStore}
    {l : Launcher} {event : Event} {n : Nat} (h : LauncherInv cfg p x l)
    (hopens : opensRound l event = some (n + 1)) : Closed x n := by
  obtain ⟨_, hn⟩ | ⟨after, hphase, hn⟩ := opensRound_eq_some hopens
  · omega
  · obtain rfl : n = l.round := by omega
    have hinv := h.phase
    rw [hphase] at hinv
    cases after with
    | close => exact hinv.2
    | restart => exact hinv
    | noRestart _ => exact hinv
    | wait => exact hinv

section StoreStep

variable {cfg : JobConfig} {p : Nat} {x y : BarrierStore} {l : Launcher} {event : Event}

/-- A slot that nobody has claimed yet. -/
theorem StoreInv.claimant_next (h : StoreInv cfg x) (n : Nat) :
    x.claimant n (x.joinCount n + 1) = none := by
  cases hclaimant : x.claimant n (x.joinCount n + 1) with
  | none => rfl
  | some q =>
    have hle := h.claims hclaimant
    omega

/-- A closed round stays closed. -/
theorem Effect.closed (heffect : Effect cfg p x l event y) (hreopen : NoReopen x l event)
    {k : Nat} (h : Closed x k) : Closed y k := by
  cases heffect with
  | @opens n hopens =>
    have hk : k ≠ n := fun hk => hreopen n hopens (hk ▸ h)
    simpa [Closed, BarrierStore.setRoundDone, hk] using h
  | mark _ =>
    by_cases hk : k = l.round
    · simp [Closed, BarrierStore.setRoundDone, hk]
    · simpa [Closed, BarrierStore.setRoundDone, hk] using h
  | _ => exact h

/-- An open round is never forgotten. -/
theorem Effect.opened (heffect : Effect cfg p x l event y) {k : Nat}
    (h : x.roundDone k ≠ none) : y.roundDone k ≠ none := by
  cases heffect with
  | @opens n _ =>
    by_cases hk : k = n
    · simp [BarrierStore.setRoundDone, hk]
    · simpa [BarrierStore.setRoundDone, hk] using h
  | mark _ =>
    by_cases hk : k = l.round
    · simp [BarrierStore.setRoundDone, hk]
    · simpa [BarrierStore.setRoundDone, hk] using h
  | _ => exact h

theorem Effect.evolves (heffect : Effect cfg p x l event y) (hstore : StoreInv cfg x)
    (hlauncher : LauncherInv cfg p x l) (hcond : Orderly p x l event) : Evolves x y := by
  refine ⟨heffect.opened, heffect.closed hcond.2, fun {n slot q} h => ?_,
    fun {n a} h => ?_⟩
  · cases heffect with
    | add _ =>
      by_cases hn : n = l.round
      · subst hn
        have hslot : slot ≠ x.joinCount l.round + 1 := by
          rintro rfl
          rw [hstore.claimant_next] at h
          cases h
        simpa [hslot] using h
      · simpa [hn] using h
    | _ => exact h
  · cases heffect with
    | assign hphase =>
      have hinv := hlauncher.phase
      rw [hphase] at hinv
      have hhost := hlauncher.host hinv.1.1
      rw [hphase] at hhost
      -- the host gathers an open round, and all rounds it has assigned are closed
      have hn : n ≠ l.round := by
        rintro rfl
        have hopen : x.roundDone l.round = some .opened := hinv.1.2.1
        have hclosed : x.roundDone l.round = some .closed := hhost l.round (by simp [h])
        rw [hopen] at hclosed
        cases hclosed
      simpa [BarrierStore.assign, hn] using h
    | _ => exact h

/-- Only the host closes rounds and assigns ranks. -/
theorem Effect.leavesOpen (heffect : Effect cfg p x l event y)
    (hlauncher : LauncherInv cfg p x l) (hhost : p ≠ cfg.storeHost) : LeavesOpen x y := by
  have hinv := hlauncher.phase
  cases heffect with
  | opens _ =>
    refine ⟨fun {k} h => ?_, rfl⟩
    simp only [BarrierStore.setRoundDone, update_apply]
    split
    · rfl
    · exact h
  | mark hphase =>
    rw [hphase] at hinv
    exact absurd hinv.1 hhost
  | assign hphase =>
    rw [hphase] at hinv
    exact absurd hinv.1.1 hhost
  | _ => exact ⟨fun h => h, rfl⟩

theorem Effect.chain (heffect : Effect cfg p x l event y) (hstore : StoreInv cfg x)
    (hlauncher : LauncherInv cfg p x l) (hxy : Evolves x y) {m n : Nat}
    (hm : y.roundDone m ≠ none) (hn : n < m) : Closed y n := by
  cases heffect with
  | @opens k hopens =>
    refine hxy.closed ?_
    by_cases hmk : m = k
    · subst hmk
      obtain ⟨m, rfl⟩ : ∃ k, m = k + 1 := ⟨m - 1, by omega⟩
      have hlast : Closed x m := hlauncher.closed_of_opensRound hopens
      by_cases heq : n = m
      · exact heq ▸ hlast
      · have hopened : x.roundDone m ≠ none := by simp [show x.roundDone m = _ from hlast]
        exact hstore.chain hopened (by omega)
    · refine hstore.chain (m := m) ?_ hn
      simpa [BarrierStore.setRoundDone, hmk] using hm
  | mark hphase =>
    refine hxy.closed (hstore.chain (m := m) ?_ hn)
    by_cases hmk : m = l.round
    · have hinv := hlauncher.phase
      rw [hphase] at hinv
      simp [hmk, hinv.2.1]
    · simpa [BarrierStore.setRoundDone, hmk] using hm
  | _ => exact hxy.closed (hstore.chain hm hn)

theorem Effect.claims (heffect : Effect cfg p x l event y) (hstore : StoreInv cfg x)
    {n slot q : Nat} (h : y.claimant n slot = some q) : slot ≤ y.joinCount n := by
  cases heffect with
  | add _ =>
    by_cases hn : n = l.round
    · subst hn
      simp only [update_self] at h ⊢
      by_cases hslot : slot = x.joinCount l.round + 1
      · exact Nat.le_of_eq hslot
      · rw [update_of_ne hslot] at h
        have hle := hstore.claims h
        omega
    · simp only [update_of_ne hn] at h ⊢
      exact hstore.claims h
  | _ => exact hstore.claims h

/-- A fenced call leaves the key alone or writes its value. -/
theorem update_fenced_eq_some {cells : Nat → Option Bytes} {key s : Nat} {desired b : Bytes}
    {call : FencedPhase} {result : Option Bytes × FencedPhase}
    (hcall : fencedStep desired (cells key) call = some result)
    (h : update cells key result.1 s = some b) :
    cells s = some b ∨ (s = key ∧ b = desired) := by
  by_cases hs : s = key
  · subst hs
    rw [update_self] at h
    obtain ⟨cell', call'⟩ := result
    obtain hcell | ⟨_, _, _, hcell, _⟩ := fencedStep_cell hcall
    · exact Or.inl (hcell ▸ h)
    · rw [hcell] at h
      exact Or.inr ⟨rfl, (some.inj h).symm⟩
  · rw [update_of_ne hs] at h
    exact Or.inl h

section

variable (heffect : Effect cfg p x l event y) (hstore : StoreInv cfg x)
    (hlauncher : LauncherInv cfg p x l)
include heffect hstore hlauncher

theorem Effect.slots (hxy : Evolves x y) {s : Nat} {b : Bytes} (h : y.slot s = some b) :
    SlotOk cfg y s b := by
  cases heffect with
  | slot hphase hcall =>
    obtain hold | ⟨rfl, rfl⟩ := update_fenced_eq_some hcall h
    · exact (hstore.slots hold).evolves hxy
    · have hinv := hlauncher.phase
      rw [hphase] at hinv
      exact ⟨l.round, p, rfl, hinv.2.1, hinv.1.1⟩
  | _ => exact (hstore.slots h).evolves hxy

theorem Effect.ranks (hxy : Evolves x y) {s : Nat} {b : Bytes} (h : y.slotRank s = some b) :
    RankOk y s b := by
  cases heffect with
  | rank hphase hcall =>
    obtain hold | ⟨rfl, rfl⟩ := update_fenced_eq_some hcall h
    · exact (hstore.ranks hold).evolves hxy
    · have hinv := hlauncher.phase
      rw [hphase] at hinv
      exact ⟨l.round, UNASSIGNED, 0, rfl, hinv.1.1, fun hne => absurd rfl hne⟩
  | @assign activeCandidates a hphase =>
    have hinv := hlauncher.phase
    rw [hphase] at hinv
    simp only [BarrierStore.assign] at h
    cases hrank : a.rank s with
    | none =>
      simp only [hrank] at h
      exact (hstore.ranks h).evolves hxy
    | some r =>
      simp only [hrank, some.injEq] at h
      refine ⟨l.round, r, a.ranks.entries.length, h.symm, ?_, fun _ => ?_⟩
      · exact hxy.opened (by simp [hinv.1.2.1])
      · exact ⟨a, r, by simp [BarrierStore.assign], hrank, rfl, rfl⟩
  | _ => exact (hstore.ranks h).evolves hxy

theorem Effect.assignments (hxy : Evolves x y) {n : Nat} {a : Assignment}
    (h : y.assignment n = some a) : AssignmentOk cfg y n a := by
  cases heffect with
  | assign hphase =>
    refine AssignmentOk.evolves hxy ?_
    by_cases hn : n = l.round
    · subst hn
      have hinv := hlauncher.phase
      rw [hphase] at hinv
      simp only [BarrierStore.assign, update_self, some.injEq] at h
      exact h ▸ hinv.2
    · simp only [BarrierStore.assign, update_of_ne hn] at h
      exact hstore.assignments h
  | _ => exact (hstore.assignments h).evolves hxy

theorem Effect.returned (hxy : Evolves x y) {e : Returned} (h : e ∈ y.returned) :
    ReturnedOk cfg y e := by
  refine ReturnedOk.evolves hxy ?_
  cases heffect with
  | returns hphase hvalue hassigned hactive =>
    rcases List.mem_cons.mp h with rfl | hold
    · have hinv := hlauncher.phase
      rw [hphase] at hinv
      obtain ⟨n, rank, total, hb, _, hrank⟩ := hstore.ranks hvalue
      simp only [packRankValue, Bytes.packed.injEq, RendezvousStoreValue.mk.injEq,
        Payload.rank.injEq] at hb
      obtain ⟨rfl, rfl, rfl⟩ := hb
      exact ⟨rfl, hactive, hinv, hrank hassigned⟩
    · exact hstore.returned hold
  | _ => exact hstore.returned h

/-- Every step keeps the store's part. -/
theorem Effect.storeInv (hcond : Orderly p x l event) : StoreInv cfg y := by
  have hxy : Evolves x y := heffect.evolves hstore hlauncher hcond
  exact {
    chain := fun hm hn => heffect.chain hstore hlauncher hxy hm hn
    claims := fun h => heffect.claims hstore h
    slots := fun h => heffect.slots hstore hlauncher hxy h
    ranks := fun h => heffect.ranks hstore hlauncher hxy h
    assignments := fun h => heffect.assignments hstore hlauncher hxy h
    returned := fun h => heffect.returned hstore hlauncher hxy h }

end

end StoreStep

/-! ## What a step does to the part of the process that moves -/

/-- All rounds with an assignment are closed. -/
def Settled (x : BarrierStore) : Prop :=
  ∀ n, x.assignment n ≠ none → Closed x n

theorem HostInv.of_settled {x : BarrierStore} (l : Launcher) (phase : Phase)
    (h : Settled x) : HostInv x l phase := by
  unfold HostInv
  split
  · exact fun n _ => h n
  · trivial
  · trivial
  · exact h

theorem notNewer_fencedStart (l : Launcher) (value : RendezvousStoreValue) :
    NotNewer l (fencedStart (.packed value)) := by
  rw [fencedStart_packed]
  intro expected h
  cases h

theorem NotNewer.step {l : Launcher} {desired : Bytes} {cell : Option Bytes}
    {call : FencedPhase} {result : Option Bytes × FencedPhase}
    (hround : storeValueRound desired = l.round)
    (hcall : fencedStep desired cell call = some result) : NotNewer l result.2 := by
  intro expected hexpected
  obtain ⟨cell', call'⟩ := result
  cases call' with
  | compareSet e =>
    obtain rfl : e = expected := some.inj hexpected
    have hle := (fencedStep_to_compareSet (by rw [hround]; omega) hcall).2.2
    rwa [hround] at hle
  | check => cases hexpected
  | get => cases hexpected
  | done _ => cases hexpected

/-- The snapshot holds what the claimants wrote. -/
theorem StoreInv.slotsFrom {cfg : JobConfig} {x : BarrierStore} (h : StoreInv cfg x)
    (total round : Nat) (missed : List Nat) :
    SlotsFrom cfg x round (x.getAllParticipants total round missed) := by
  intro index info hinfo
  simp only [BarrierStore.getAllParticipants, List.getElem?_map, map_eq_some_iff] at hinfo
  obtain ⟨i, hi, hinfo⟩ := hinfo
  obtain rfl : i = index := by
    obtain ⟨hlt, heq⟩ := List.getElem?_eq_some_iff.mp hi
    simpa using heq.symm
  split at hinfo
  · cases hinfo
  · obtain ⟨value, hvalue, hround⟩ := Option.bind_eq_some_iff.mp hinfo
    obtain ⟨b, hslot, hunpack⟩ := Option.bind_eq_some_iff.mp hvalue
    obtain ⟨n, q, hb, hclaimant, _⟩ := h.slots hslot
    have hpacked := unpackParticipantValue_eq_some.mp (hunpack.trans (by rfl : _ =
      some (value.1, value.2)))
    rw [hpacked] at hb
    simp only [slotValue, packParticipantValue, Bytes.packed.injEq,
      RendezvousStoreValue.mk.injEq, Payload.participant.injEq] at hb
    obtain ⟨hn, hq⟩ := hb
    split at hround
    · rename_i hvalueRound
      cases hround
      exact ⟨q, (hvalueRound.symm.trans hn) ▸ hclaimant, hq⟩
    · cases hround

theorem hostDecision_close {cfg : JobConfig} {round : Nat} {previous : Option Membership}
    {groups : List String} {slots : List (Option Participant)} {expired : Bool}
    {activeCandidates : List Participant} {ranks : Dict NodeDesc Nat}
    (h : hostDecision cfg round previous groups slots expired =
      .close activeCandidates ranks) :
    ∃ active standby, assignGroupRanks cfg.segment cfg.minNodes active standby = .ok ranks := by
  simp only [hostDecision] at h
  split at h
  · cases h
  · cases h
  · split at h
    · cases h
    · split at h
      · cases h
      · split at h
        · cases h
        · rename_i hranks
          cases h
          exact ⟨_, _, hranks⟩

section LauncherStep

variable {cfg : JobConfig} {p : Nat} {x y : BarrierStore} {l m : Launcher} {event : Event}

theorem constructStep_phaseInv {phase : ConstructPhase}
    (h : constructStep cfg p x l phase event = some (y, m)) :
    PhaseInv cfg p y m m.phase := by
  unfold constructStep at h
  split at h
  · cases h
    exact trivial
  · cases h
    exact trivial
  · split at h
    · cases h
      exact trivial
    · split at h <;> cases h <;> exact trivial
  · cases h
    simp only [goto_phase]
    split <;> exact trivial
  · cases h

theorem waitStep_phaseInv {phase : WaitPhase}
    (h : waitStep cfg p x l phase event = some (y, m)) : PhaseInv cfg p y m m.phase := by
  unfold waitStep at h
  split at h
  · split at h <;> cases h
    exact trivial
  · cases h
    simp only [goto_phase]
    split <;> exact trivial
  · split at h
    · rename_i hopen
      cases h
      simp only [goto_phase]
      split
      · rename_i hcontrol
        have hhost : p = cfg.storeHost := by
          simp only [JobConfig.isControl, Bool.and_eq_true, decide_eq_true_eq] at hcontrol
          exact hcontrol.2
        refine ⟨hhost, hopen, fun hnot => ?_⟩
        rw [hcontrol] at hnot
        cases hnot
      · refine ⟨?_, fun _ => hopen⟩
        rw [Launcher.goto_round, hopen]
        simp
    · cases h
      exact trivial
  · split at h <;> cases h
    exact trivial
  · split at h <;> cases h <;> exact trivial
  · cases h

theorem joinStep_phaseInv {phase : JoinPhase}
    (hinv : PhaseInv cfg p x l (.join phase)) (hphase : l.phase = .join phase)
    (h : joinStep cfg p x l phase event = some (y, m)) : PhaseInv cfg p y m m.phase := by
  unfold joinStep at h
  split at h
  · cases h
    exact hinv
  · cases h
    rw [hphase]
    exact hinv
  · cases h
    exact hinv
  · split at h <;> cases h <;> exact trivial
  · cases h
    refine ⟨hinv, ?_, notNewer_fencedStart _ _⟩
    simp [Claimed]
  · obtain ⟨result, hcall, heq⟩ := map_eq_some_iff.mp h
    cases heq
    obtain ⟨hentered, hclaimed, _⟩ := hinv
    have hnext : NotNewer l result.2 := NotNewer.step (by simp [rankPlaceholder,
      packRankValue]) hcall
    simp only [goto_phase]
    split
    · exact ⟨hentered, hclaimed, notNewer_fencedStart _ _⟩
    · exact trivial
    · exact trivial
    · exact ⟨hentered, hclaimed, hnext⟩
  · obtain ⟨result, hcall, heq⟩ := map_eq_some_iff.mp h
    cases heq
    obtain ⟨hentered, hclaimed, _⟩ := hinv
    have hnext : NotNewer l result.2 := NotNewer.step (by simp [slotValue,
      packParticipantValue]) hcall
    simp only [goto_phase]
    split
    · split
      · rename_i hhost
        exact ⟨hhost, hentered.2 hhost, fun _ => hclaimed⟩
      · exact hclaimed
    · exact trivial
    · exact trivial
    · exact ⟨hentered, hclaimed, hnext⟩
  · cases h

theorem PhaseInv.closing {phase : ClosePhase} (h : PhaseInv cfg p x l (.close phase)) :
    Closing cfg p x l := by
  cases phase with
  | recheck _ _ => exact h.1
  | evaluate _ => exact h.1
  | assign _ _ => exact h.1
  | _ => exact h

theorem closeStep_phaseInv {phase : ClosePhase} (hstore : StoreInv cfg x)
    (hinv : PhaseInv cfg p x l (.close phase))
    (h : closeStep cfg p x l phase event = some (y, m)) : PhaseInv cfg p y m m.phase := by
  have hclosing : Closing cfg p x l := hinv.closing
  unfold closeStep at h
  split at h
  · cases h
    exact hclosing
  · cases h
    simp only [goto_phase]
    split <;> exact trivial
  · cases h
    simp only [goto_phase]
    split
    · exact trivial
    · exact hclosing
  · cases h
    simp only [goto_phase]
    split <;> exact hclosing
  · cases h
    exact hclosing
  · cases h
    exact hclosing
  · cases h
    simp only [goto_phase]
    split <;> exact hclosing
  · cases h
    exact ⟨hclosing, hstore.slotsFrom _ _ _⟩
  · cases h
    simp only [goto_phase]
    split
    · exact hinv
    · exact hclosing
  · cases h
    simp only [goto_phase]
    split
    · exact trivial
    · exact hclosing
    · exact hclosing
    · rename_i hdecision
      obtain ⟨_, _, hranks⟩ := hostDecision_close hdecision
      exact ⟨hclosing, hinv.2, assignGroupRanks_injective hranks⟩
  · cases h
    exact hclosing
  · cases h
    simp only [goto_phase]
    split
    · exact trivial
    · rename_i hcontrol
      exact hclosing.2.2 (by simpa using hcontrol)
  · cases h

theorem awaitStep_phaseInv {phase : AwaitPhase} (hclaimed : Claimed p x l)
    (h : awaitStep cfg p x l phase event = some (y, m)) : PhaseInv cfg p y m m.phase := by
  unfold awaitStep at h
  split at h
  · cases h
    simp only [goto_phase]
    split <;> exact trivial
  · cases h
    simp only [goto_phase]
    split
    · exact trivial
    · exact hclaimed
  · obtain ⟨value, _, heq⟩ := map_eq_some_iff.mp h
    cases heq
    exact hclaimed
  · split at h
    · cases h
      exact trivial
    · split at h
      · cases h
        exact trivial
      · split at h <;> cases h <;> exact trivial
  · cases h

/-- Where the code goes on after `open_rendezvous`, the process relies on no more
than it did before. -/
theorem phaseInv_after {after : AfterOpen}
    (h : after = .close → Closing cfg p x l) :
    PhaseInv cfg p x (l.goto after.phase) after.phase := by
  cases after with
  | close => exact h rfl
  | _ => exact trivial

theorem agentStep_phaseInv {phase : AgentPhase}
    (hinv : PhaseInv cfg p x l (.agent phase)) (hphase : l.phase = .agent phase)
    (hcond : Orderly p x l event)
    (h : agentStep cfg p x l phase event = some (y, m)) : PhaseInv cfg p y m m.phase := by
  unfold agentStep at h
  split at h
  case h_11 reason after =>
    cases h
    cases after with
    | close => exact hinv
    | _ => exact trivial
  case h_12 after =>
    cases h
    have hclosed : Closed x l.round := by
      have hopens := hcond.1
      simp only [OpensAfterClose, hphase] at hopens
      exact hopens
    simp only [goto_phase]
    split
    · refine phaseInv_after fun hafter => ?_
      subst hafter
      exact hinv
    · cases after with
      | close => exact ⟨hinv, hclosed⟩
      | _ => exact hclosed
  case h_13 after =>
    cases h
    cases after with
    | close =>
      -- the host that still gathers its round does not open the next one
      have hopen : x.roundDone l.round = some .opened := hinv.1.2.1
      have hclosed : x.roundDone l.round = some .closed := hinv.2
      rw [hopen] at hclosed
      cases hclosed
    | _ => exact trivial
  case h_14 => cases h
  case h_1 =>
    split at h <;> cases h <;> exact trivial
  case h_3 =>
    split at h <;> cases h
    exact trivial
  case h_10 openRendezvous terminateEarly =>
    split at h
    · cases h
      exact trivial
    · split at h
      · cases h
        cases openRendezvous <;> exact trivial
      · cases h
        exact trivial
  case h_8 =>
    cases h
    simp only [goto_phase]
    split <;> exact trivial
  case h_9 =>
    cases h
    simp only [goto_phase]
    split <;> exact trivial
  all_goals
    cases h
    exact trivial

/-- The process that moves knows what it relies on next. -/
theorem jobStep_phaseInv (hstore : StoreInv cfg x) (hlauncher : LauncherInv cfg p x l)
    (hcond : Orderly p x l event) (h : jobStep cfg p x l event = some (y, m)) :
    PhaseInv cfg p y m m.phase := by
  have hinv := hlauncher.phase
  unfold jobStep at h
  split at h
  · split at h <;> cases h
    exact trivial
  · split at h <;> cases h
    exact trivial
  · split at h
    · exact constructStep_phaseInv h
    · exact waitStep_phaseInv h
    · rename_i hphase
      exact joinStep_phaseInv (hphase ▸ hinv) hphase h
    · rename_i hphase
      exact closeStep_phaseInv hstore (hphase ▸ hinv) h
    · rename_i hphase
      rw [hphase] at hinv
      exact awaitStep_phaseInv hinv h
    · rename_i hphase
      exact agentStep_phaseInv (hphase ▸ hinv) hphase hcond h
    · split at h <;> cases h
      exact trivial
    · split at h <;> cases h
      exact trivial
    · cases h

/-! ## The host's part -/

/-- An assignment changes only where the host assigns. -/
theorem Effect.assignment_eq (heffect : Effect cfg p x l event y)
    (hphase : ∀ activeCandidates a, l.phase ≠ .close (.assign activeCandidates a)) :
    y.assignment = x.assignment := by
  cases heffect with
  | assign h => exact absurd h (hphase _ _)
  | _ => rfl

theorem Settled.evolves (hxy : Evolves x y) (hassignment : y.assignment = x.assignment)
    (h : Settled x) : Settled y := by
  intro n hn
  rw [hassignment] at hn
  exact hxy.closed (h n hn)

theorem closeStep_mark (h : closeStep cfg p x l .mark event = some (y, m)) :
    y = x.setRoundDone l.round .closed ∧ m.phase ≠ .close .mark := by
  cases event with
  | next =>
    cases h
    refine ⟨rfl, ?_⟩
    simp only [goto_phase]
    split <;> exact fun heq => nomatch heq
  | _ => cases h

theorem closeStep_assign {activeCandidates : List Participant} {a : Assignment}
    (h : closeStep cfg p x l (.assign activeCandidates a) event = some (y, m)) :
    y = x.assign l.round a ∧ m.phase = .close .mark ∧ m.round = l.round := by
  cases event with
  | next =>
    cases h
    exact ⟨rfl, rfl, rfl⟩
  | _ => cases h

/-- The host that moves knows its assignments afterwards. -/
theorem jobStep_hostInv (hlauncher : LauncherInv cfg p x l) (hxy : Evolves x y)
    (hhost : p = cfg.storeHost) (h : jobStep cfg p x l event = some (y, m)) :
    HostInv y m m.phase := by
  have heffect := jobStep_effect h
  have hinv := hlauncher.host hhost
  -- the phases in which the host knows that all its rounds are closed
  have hsettled : HostInv x l l.phase = Settled x →
      (∀ activeCandidates a, l.phase ≠ .close (.assign activeCandidates a)) →
      HostInv y m m.phase := by
    intro heq hphase
    rw [heq] at hinv
    exact HostInv.of_settled m m.phase (hinv.evolves hxy (heffect.assignment_eq hphase))
  unfold jobStep at h
  split at h
  · split at h <;> cases h
    exact trivial
  · split at h <;> cases h
    exact trivial
  · split at h
    case h_4 phase hphase =>
      cases phase with
      | mark =>
        obtain ⟨rfl, hm⟩ := closeStep_mark h
        rw [hphase] at hinv
        refine HostInv.of_settled m m.phase fun n hn => ?_
        by_cases heq : n = l.round
        · simp [Closed, BarrierStore.setRoundDone, heq]
        · exact hxy.closed (hinv n heq hn)
      | assign activeCandidates a =>
        obtain ⟨rfl, hm, hround⟩ := closeStep_assign h
        rw [hphase] at hinv
        rw [hm]
        intro n hn hassigned
        rw [hround] at hn
        simp only [BarrierStore.assign, update_of_ne hn] at hassigned
        exact hinv n hassigned
      | _ =>
        refine hsettled ?_ ?_
        · rw [hphase]
          rfl
        · rw [hphase]
          exact fun _ _ heq => nomatch heq
    case h_8 =>
      split at h <;> cases h
      exact trivial
    case h_9 => cases h
    all_goals
      rename_i hphase
      refine hsettled ?_ ?_
      · rw [hphase]
        rfl
      · rw [hphase]
        exact fun _ _ heq => nomatch heq

end LauncherStep

/-! ## The invariant holds in every orderly run -/

theorem job_preserves (cfg : JobConfig) :
    (job cfg).Preserves Orderly (StoreInv cfg) (LauncherInv cfg) where
  shared _ _ _ _ _ _ hstore hlauncher hcond hstep :=
    (jobStep_effect hstep).storeInv hstore hlauncher hcond
  agent p x l event y m hstore hlauncher hcond hstep := by
    have hxy : Evolves x y := (jobStep_effect hstep).evolves hstore hlauncher hcond
    exact ⟨jobStep_phaseInv hstore hlauncher hcond hstep,
      fun hhost => jobStep_hostInv hlauncher hxy hhost hstep⟩
  others p q x l k event y m hpq hstore hlauncher hother hcond hstep := by
    have heffect := jobStep_effect hstep
    refine hother.evolves (heffect.evolves hstore hlauncher hcond) fun hq => ?_
    exact heffect.leavesOpen hlauncher fun hp => hpq (hp.trans hq.symm)

theorem job_initial (cfg : JobConfig) :
    Agents.Holding (StoreInv cfg) (LauncherInv cfg) (job cfg).initial where
  shared := {
    chain := fun h => absurd rfl h
    claims := fun h => nomatch h
    slots := fun h => nomatch h
    ranks := fun h => nomatch h
    assignments := fun h => nomatch h
    returned := fun h => nomatch h }
  agent _ := ⟨trivial, fun _ _ h => absurd rfl h⟩

/-- The invariant holds in every state of an orderly run. -/
theorem job_invariant {cfg : JobConfig} {c : JobState}
    (hc : (job cfg).system.Reachable (Agents.condition Orderly) c) :
    Agents.Holding (StoreInv cfg) (LauncherInv cfg) c :=
  (job_preserves cfg).reachable (job_initial cfg) hc

end ResiliencyExt.FaultTolerance.Rendezvous
