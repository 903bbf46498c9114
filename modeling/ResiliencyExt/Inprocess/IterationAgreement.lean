import Mathlib.Data.List.Perm.Subperm
import ResiliencyExt.Inprocess.Iteration

set_option autoImplicit false

/-!
# Inprocess: agreement on the terminated ranks

The iteration barrier completes when every rank has arrived, and whoever arrives
on behalf of another rank has recorded it before.  So nothing new is recorded
after the barrier completed, as long as every record is made in time: by a main
process on its way to the barrier, or while the barrier is incomplete.

The monitor process and the sibling monitor do not make sure of that.  The hard
timeout checks that the rank is not at the barrier and records it afterwards,
and the barrier may complete in between.
-/

namespace ResiliencyExt.Inprocess

open Foundation List Function
open Option (map_eq_some_iff some)

/-! ## The store as the agents read it -/

/-- The ranks recorded and arrived so far, and whether the barrier completed. -/
structure IterationView where
  recorded : List Nat
  arrived : List Nat
  completed : Bool

namespace IterationView

/-- Every rank has arrived. -/
def Full (cfg : IterationConfig) (v : IterationView) : Prop :=
  ∀ rank < cfg.worldSize, rank ∈ v.arrived

/-- What an operation does to the lists. -/
def apply (v : IterationView) : StoreOp → IterationView
  | .read => v
  | .record _ ranks => { v with recorded := v.recorded ++ ranks }
  | .arrive ranks => { v with arrived := v.arrived ++ ranks }
  | .complete => { v with completed := true }

/-- The texts of the store are the lists of the view. -/
structure Shows (cfg : IterationConfig) (store : Store) (v : IterationView) : Prop where
  recorded : ∃ records : List (List Nat), records.flatten = v.recorded ∧
    store.text cfg.scope .terminatedRanks = Text.entries records
  arrived : ∃ arrivals : List (List Nat), arrivals.flatten = v.arrived ∧
    store.text cfg.scope (.arrived .iterationBarrier) = Text.entries arrivals
  completed : barrierCompleted cfg store = v.completed

variable {cfg : IterationConfig} {store : Store} {v : IterationView}

theorem Shows.getTerminatedRanks (h : Shows cfg store v) :
    getTerminatedRanks store cfg.scope = .ok (v.recorded.map fun rank : Nat => (rank : Int)) := by
  obtain ⟨records, hflat, htext⟩ := h.recorded
  rw [getTerminatedRanks_entries htext, hflat]

theorem Shows.arrivedRanks (h : Shows cfg store v) :
    arrivedRanks store cfg.scope .iterationBarrier =
      .ok (v.arrived.map fun rank : Nat => (rank : Int)).dedup := by
  obtain ⟨arrivals, hflat, htext⟩ := h.arrived
  rw [arrivedRanks_entries htext, hflat]

/-- An operation that leaves a key alone leaves its text alone. -/
theorem text_congr {store store' : Store} {scope : StoreScope} {key : StoreKey}
    (h : store' scope key = store scope key) : store'.text scope key = store.text scope key := by
  rw [Store.text, Store.text, h]

theorem perform_record_of_ne {interruption : Interruption} {ranks : List Nat} {key : StoreKey}
    (hkey : key = .arrived .iterationBarrier ∨ key = .lastWorkerArrived .iterationBarrier) :
    (StoreOp.record interruption ranks).perform cfg.scope store cfg.scope key =
      store cfg.scope key := by
  simp only [StoreOp.perform]
  rw [recordTerminatedRanks_of_ne, recordInterrupted_of_ne]
  · rcases hkey with rfl | rfl
    · simp
    · simp
  · rcases hkey with rfl | rfl
    · simp
    · simp

/-- The texts follow the lists. -/
theorem Shows.perform (h : Shows cfg store v) {op : StoreOp}
    (hop : ∀ interruption ranks, op = .record interruption ranks → ranks ≠ []) :
    Shows cfg (op.perform cfg.scope store) (v.apply op) := by
  obtain ⟨records, hrecords, hrecorded⟩ := h.recorded
  obtain ⟨arrivals, harrivals, harrived⟩ := h.arrived
  cases op with
  | read => exact h
  | record interruption ranks =>
    refine ⟨⟨records ++ [ranks], by simp [apply, hrecords], ?_⟩,
      ⟨arrivals, harrivals, ?_⟩, ?_⟩
    · refine text_recordTerminatedRanks_int ?_ (hop interruption ranks rfl)
      rw [text_congr (recordInterrupted_of_ne _ _ _ (by simp))]
      exact hrecorded
    · rw [text_congr (perform_record_of_ne (Or.inl rfl))]
      exact harrived
    · rw [barrierCompleted, perform_record_of_ne (Or.inr rfl)]
      exact h.completed
  | arrive ranks =>
    refine ⟨⟨records, hrecords, ?_⟩,
      ⟨arrivals ++ [ranks], by simp [apply, harrivals], text_arrive_int harrived ranks⟩, ?_⟩
    · rw [StoreOp.perform, arrive, text_congr (Store.append_of_ne _ _ (Or.inl (by simp)))]
      exact hrecorded
    · rw [barrierCompleted, StoreOp.perform, arrive,
        Store.append_of_ne _ _ (Or.inl (by simp))]
      exact h.completed
  | complete =>
    refine ⟨⟨records, hrecords, ?_⟩, ⟨arrivals, harrivals, ?_⟩, ?_⟩
    · rw [StoreOp.perform, text_congr (Store.set_of_ne _ _ (Or.inl (by simp)))]
      exact hrecorded
    · rw [StoreOp.perform, text_congr (Store.set_of_ne _ _ (Or.inl (by simp)))]
      exact harrived
    · simp [barrierCompleted, StoreOp.perform, Store.set, apply]

/-- A count of arrivals that reaches the world size means that every rank has
arrived. -/
theorem full_of_length (hworld : ∀ rank ∈ v.arrived, rank < cfg.worldSize)
    (hlength : (v.arrived.map fun rank : Nat => (rank : Int)).dedup.length = cfg.worldSize) :
    v.Full cfg := by
  have hsub : (v.arrived.map fun rank : Nat => (rank : Int)).dedup ⊆
      (List.range cfg.worldSize).map fun rank : Nat => (rank : Int) := by
    intro value hvalue
    obtain ⟨rank, hrank, rfl⟩ := mem_map.mp (mem_dedup.mp hvalue)
    exact mem_map_of_mem (mem_range.mpr (hworld rank hrank))
  have hperm := (subperm_of_subset (nodup_dedup _) hsub).perm_of_length_le (by
    rw [hlength, length_map, length_range])
  intro rank hrank
  have hmem : (rank : Int) ∈ (v.arrived.map fun rank : Nat => (rank : Int)).dedup :=
    hperm.mem_iff.mpr (mem_map_of_mem (mem_range.mpr hrank))
  obtain ⟨other, hother, heq⟩ := mem_map.mp (mem_dedup.mp hmem)
  rwa [Int.ofNat_inj.mp heq] at hother

/-- How the lists grow: once the barrier completed, nobody new is recorded. -/
structure Grows (v w : IterationView) : Prop where
  recorded : v.recorded ⊆ w.recorded
  arrived : v.arrived ⊆ w.arrived
  completed : v.completed = true → w.completed = true
  closed : v.completed = true → w.recorded ⊆ v.recorded

end IterationView

/-! ## What the agents know -/

/-- What the barrier's last step relies on. -/
def BarrierOk (cfg : IterationConfig) (v : IterationView) (phase : BarrierPhase) : Prop :=
  phase = .completing → v.Full cfg

/-- A main process has read what was recorded when the barrier completed, and
goes on only if it is not among the terminated ranks. -/
structure MainOk (cfg : IterationConfig) (v : IterationView) (rank : Nat) (main : MainProcess) :
    Prop where
  barrier : ∀ exiting phase, main.phase = .barrier exiting phase → BarrierOk cfg v phase
  reading : main.phase = .reading → v.completed = true
  read : ∀ ranks, main.terminatedRanks = some ranks → v.completed = true ∧
    ∀ value, value ∈ ranks ↔ value ∈ v.recorded.map fun rank : Nat => (rank : Int)
  survivor : main.survivor = true →
    ∃ ranks, main.terminatedRanks = some ranks ∧ (rank : Int) ∉ ranks

/-- A monitor process at the barrier has recorded its rank. -/
def MonitorOk (cfg : IterationConfig) (v : IterationView) (rank : Nat) (phase : MonitorPhase) :
    Prop :=
  ∀ handling barrierPhase, phase = .barrier handling barrierPhase →
    rank ∈ v.recorded ∧ BarrierOk cfg v barrierPhase

/-- A sibling monitor at the barrier has recorded the ranks it announces. -/
structure SiblingOk (cfg : IterationConfig) (v : IterationView) (phase : SiblingPhase) : Prop where
  found : ∀ ranks, phase = .found ranks → ranks ≠ [] ∧ ∀ rank ∈ ranks, rank < cfg.worldSize
  barrier : ∀ ranks barrierPhase, phase = .barrier ranks barrierPhase →
    (∀ rank ∈ ranks, rank < cfg.worldSize ∧ rank ∈ v.recorded) ∧ BarrierOk cfg v barrierPhase

section Growth

variable {cfg : IterationConfig} {v w : IterationView}

theorem BarrierOk.mono {phase : BarrierPhase} (h : BarrierOk cfg v phase) (hgrows : v.Grows w) :
    BarrierOk cfg w phase :=
  fun hphase rank hrank => hgrows.arrived (h hphase rank hrank)

theorem MainOk.mono {rank : Nat} {main : MainProcess} (h : MainOk cfg v rank main)
    (hgrows : v.Grows w) : MainOk cfg w rank main where
  barrier exiting phase hphase := (h.barrier exiting phase hphase).mono hgrows
  reading hphase := hgrows.completed (h.reading hphase)
  read ranks hranks := by
    obtain ⟨hcompleted, hread⟩ := h.read ranks hranks
    refine ⟨hgrows.completed hcompleted, fun value => (hread value).trans ?_⟩
    constructor
    · exact fun hmem => map_subset _ hgrows.recorded hmem
    · exact fun hmem => map_subset _ (hgrows.closed hcompleted) hmem
  survivor := h.survivor

theorem MonitorOk.mono {rank : Nat} {phase : MonitorPhase} (h : MonitorOk cfg v rank phase)
    (hgrows : v.Grows w) : MonitorOk cfg w rank phase := by
  intro handling barrierPhase hphase
  obtain ⟨hrecorded, hbarrier⟩ := h handling barrierPhase hphase
  exact ⟨hgrows.recorded hrecorded, hbarrier.mono hgrows⟩

theorem SiblingOk.mono {phase : SiblingPhase} (h : SiblingOk cfg v phase) (hgrows : v.Grows w) :
    SiblingOk cfg w phase where
  found := h.found
  barrier ranks barrierPhase hphase := by
    obtain ⟨hranks, hbarrier⟩ := h.barrier ranks barrierPhase hphase
    exact ⟨fun rank hrank => ⟨(hranks rank hrank).1, hgrows.recorded (hranks rank hrank).2⟩,
      hbarrier.mono hgrows⟩

end Growth

/-! ## One step of each agent -/

section Steps

variable {cfg : IterationConfig} {store : Store} {v : IterationView} {op : StoreOp}

variable {rank : Nat} {main : MainProcess}

/-- The three operations of a barrier call. -/
theorem barrierStep_cases {ranks : List Nat} {phase next : BarrierPhase}
    (hshows : v.Shows cfg store) (hworld : ∀ rank ∈ v.arrived, rank < cfg.worldSize)
    (hphase : BarrierOk cfg v phase)
    (hstep : barrierStep cfg ranks store phase = some (op, next)) :
    (phase = .arriving ∧ op = .arrive ranks ∧ next = .counting) ∨
      (op = .read ∧ BarrierOk cfg v next) ∨
      (op = .complete ∧ v.Full cfg ∧ next = .waiting) := by
  cases phase with
  | arriving =>
    cases hstep
    exact Or.inl ⟨rfl, rfl, rfl⟩
  | counting =>
    simp only [barrierStep, hshows.arrivedRanks] at hstep
    split at hstep
    · simp at hstep
    · split at hstep
      · rename_i hlength
        cases hstep
        exact Or.inr (Or.inl ⟨rfl, fun _ => IterationView.full_of_length hworld hlength⟩)
      · cases hstep
        exact Or.inr (Or.inl ⟨rfl, fun heq => by simp at heq⟩)
  | completing =>
    cases hstep
    exact Or.inr (Or.inr ⟨rfl, hphase rfl, rfl⟩)
  | waiting => simp [barrierStep] at hstep

/-- What a main process does for its rank, and what it knows afterwards. -/
structure MainMoves (cfg : IterationConfig) (v : IterationView) (rank : Nat)
    (main main' : MainProcess) (op : StoreOp) : Prop where
  ok : MainOk cfg v rank main'
  arrived : main.arrived = true → main'.arrived = true
  op : op = .read ∨ (∃ interruption, op = .record interruption [rank]) ∨
    (op = .arrive [rank] ∧ main'.arrived = true) ∨ (op = .complete ∧ v.Full cfg)

/-- Moving on to another phase. -/
theorem MainOk.setPhase (h : MainOk cfg v rank main) {phase : MainPhase}
    (hbarrier : ∀ exiting barrierPhase, phase = .barrier exiting barrierPhase →
      BarrierOk cfg v barrierPhase)
    (hreading : phase = .reading → v.completed = true) :
    MainOk cfg v rank { main with phase := phase } where
  barrier := hbarrier
  reading := hreading
  read := h.read
  survivor := h.survivor

theorem mainNext_moves {main' : MainProcess} (h : MainOk cfg v rank main)
    (hshows : v.Shows cfg store) (hworld : ∀ q ∈ v.arrived, q < cfg.worldSize)
    (hstep : mainNext cfg rank store main = some (op, main')) :
    MainMoves cfg v rank main main' op := by
  unfold mainNext at hstep
  split at hstep
  · cases hstep
    refine ⟨h.setPhase ?_ (by simp), id, Or.inr (Or.inl ⟨_, rfl⟩)⟩
    intro exiting phase heq
    obtain ⟨_, rfl⟩ := MainPhase.barrier.inj heq
    exact fun harriving => by simp at harriving
  · split at hstep
    · rename_i hcompleted
      cases hstep
      refine ⟨h.setPhase ?_ fun _ => hshows.completed ▸ hcompleted, id, Or.inl rfl⟩
      intro exiting phase heq
      split at heq
      · simp at heq
      · simp at heq
    · simp at hstep
  · rename_i exiting phase _ hphase
    obtain ⟨⟨op', next⟩, hbarrier, heq⟩ := map_eq_some_iff.mp hstep
    obtain ⟨rfl, rfl⟩ := Prod.mk.inj heq
    have hok : ∀ barrierPhase, BarrierOk cfg v barrierPhase →
        MainOk cfg v rank
          { main with phase := .barrier exiting barrierPhase, arrived := true } := by
      intro barrierPhase hbarrierOk
      refine ⟨?_, by simp, h.read, h.survivor⟩
      intro exiting' phase' heq'
      obtain ⟨_, rfl⟩ := MainPhase.barrier.inj heq'
      exact hbarrierOk
    obtain ⟨_, rfl, rfl⟩ | ⟨rfl, hnext⟩ | ⟨rfl, hfull, rfl⟩ :=
      barrierStep_cases hshows hworld (h.barrier exiting phase hphase) hbarrier
    · exact ⟨hok _ fun heq' => by simp at heq', fun _ => rfl,
        Or.inr (Or.inr (Or.inl ⟨rfl, rfl⟩))⟩
    · exact ⟨hok _ hnext, fun _ => rfl, Or.inl rfl⟩
    · exact ⟨hok _ fun heq' => by simp at heq', fun _ => rfl,
        Or.inr (Or.inr (Or.inr ⟨rfl, hfull⟩))⟩
  · rename_i hphase
    rw [hshows.getTerminatedRanks] at hstep
    cases hstep
    have hcompleted := h.reading hphase
    refine ⟨⟨by simp, by simp, ?_, ?_⟩, id, Or.inl rfl⟩
    · intro ranks hranks
      obtain rfl := some.inj hranks
      exact ⟨hcompleted, fun _ => Iff.rfl⟩
    · intro hsurvivor
      obtain ⟨ranks, hranks, hmem⟩ := h.survivor hsurvivor
      exact ⟨_, rfl, fun hrank => hmem (((h.read ranks hranks).2 _).mpr hrank)⟩
  · split at hstep
    · simp at hstep
    · rename_i ranks hranks
      split at hstep
      · cases hstep
        exact ⟨h.setPhase (by simp) (by simp), id, Or.inl rfl⟩
      · rename_i hmem
        cases hstep
        exact ⟨⟨by simp, by simp, h.read, fun _ => ⟨ranks, hranks, hmem⟩⟩, id, Or.inl rfl⟩
  · simp at hstep

theorem mainStep_moves {main' : MainProcess} {event : MainEvent} (h : MainOk cfg v rank main)
    (hshows : v.Shows cfg store) (hworld : ∀ q ∈ v.arrived, q < cfg.worldSize)
    (hstep : mainStep cfg rank store main event = some (op, main')) :
    MainMoves cfg v rank main main' op := by
  cases event with
  | restart =>
    simp only [mainStep] at hstep
    split at hstep
    · cases hstep
      refine ⟨h.setPhase ?_ (by simp), id, Or.inl rfl⟩
      intro exiting phase heq
      obtain ⟨_, rfl⟩ := MainPhase.barrier.inj heq
      exact fun harriving => by simp at harriving
    · simp at hstep
  | raise =>
    obtain ⟨phase, hraise, heq⟩ := map_eq_some_iff.mp hstep
    obtain ⟨rfl, rfl⟩ := Prod.mk.inj heq
    have hphase : phase = .interrupted ∨ phase = .exited := by
      unfold MainPhase.raise at hraise
      split at hraise
      all_goals simp at hraise
      all_goals simp [← hraise]
    refine ⟨h.setPhase ?_ ?_, id, Or.inl rfl⟩
    · rintro exiting barrierPhase rfl
      simp at hphase
    · rintro rfl
      simp at hphase
  | complete =>
    simp only [mainStep] at hstep
    split at hstep
    · cases hstep
      exact ⟨h.setPhase (by simp) (by simp), id, Or.inl rfl⟩
    · simp at hstep
  | kill =>
    cases hstep
    exact ⟨h.setPhase (by simp) (by simp), id, Or.inl rfl⟩
  | step => exact mainNext_moves h hshows hworld hstep

/-- What the other agents do: they record before they arrive. -/
def OtherOp (cfg : IterationConfig) (v : IterationView) (op : StoreOp) : Prop :=
  op = .read ∨ (∃ interruption ranks, op = .record interruption ranks ∧ ranks ≠ []) ∨
    (∃ ranks, op = .arrive ranks ∧ ∀ q ∈ ranks, q < cfg.worldSize ∧ q ∈ v.recorded) ∨
    (op = .complete ∧ v.Full cfg)

theorem monitorOk_of_ne {phase : MonitorPhase}
    (h : ∀ handling barrierPhase, phase ≠ .barrier handling barrierPhase) :
    MonitorOk cfg v rank phase :=
  fun handling barrierPhase heq => absurd heq (h handling barrierPhase)

theorem monitorStep_moves {phase phase' : MonitorPhase} {target target' : MainProcess}
    {event : MonitorEvent} (h : MonitorOk cfg v rank phase) (hrank : rank < cfg.worldSize)
    (hshows : v.Shows cfg store) (hworld : ∀ q ∈ v.arrived, q < cfg.worldSize)
    (hstep : monitorStep cfg rank store target phase event = some (op, phase', target')) :
    OtherOp cfg v op ∧ MonitorOk cfg (v.apply op) rank phase' ∧
      (target' = target ∨ target' = { target with phase := .dead }) := by
  cases event with
  | hardTimeout =>
    simp only [monitorStep] at hstep
    split at hstep
    · split at hstep
      · simp at hstep
      · split at hstep
        · obtain ⟨rfl, rfl, rfl⟩ := by simpa using hstep
          exact ⟨Or.inl rfl, monitorOk_of_ne (by simp), Or.inl rfl⟩
        · obtain ⟨rfl, rfl, rfl⟩ := by simpa using hstep
          exact ⟨Or.inl rfl, monitorOk_of_ne (by simp), Or.inl rfl⟩
    · simp at hstep
  | targetTerminated =>
    simp only [monitorStep] at hstep
    split at hstep
    · split at hstep
      · obtain ⟨rfl, rfl, rfl⟩ := by simpa using hstep
        exact ⟨Or.inl rfl, monitorOk_of_ne (by simp), Or.inl rfl⟩
      · simp at hstep
    · simp at hstep
  | fail =>
    obtain ⟨next, hfail, heq⟩ := map_eq_some_iff.mp hstep
    obtain ⟨rfl, rfl, rfl⟩ := by simpa using heq
    refine ⟨Or.inl rfl, monitorOk_of_ne ?_, Or.inl rfl⟩
    unfold MonitorPhase.fail at hfail
    split at hfail
    all_goals simp at hfail
    all_goals simp [← hfail]
  | step =>
    simp only [monitorStep, monitorNext] at hstep
    split at hstep
    · obtain ⟨rfl, rfl, rfl⟩ := by simpa using hstep
      exact ⟨Or.inr (Or.inl ⟨_, _, rfl, by simp⟩), monitorOk_of_ne (by simp), Or.inl rfl⟩
    · obtain ⟨rfl, rfl, rfl⟩ := by simpa using hstep
      exact ⟨Or.inl rfl, monitorOk_of_ne (by simp), Or.inr rfl⟩
    · obtain ⟨rfl, rfl, rfl⟩ := by simpa using hstep
      refine ⟨Or.inr (Or.inl ⟨_, _, rfl, by simp⟩), ?_, Or.inl rfl⟩
      intro handling barrierPhase heq
      obtain ⟨_, rfl⟩ := MonitorPhase.barrier.inj heq
      exact ⟨by simp [IterationView.apply], fun harriving => by simp at harriving⟩
    · split at hstep
      · obtain ⟨rfl, rfl, rfl⟩ := by simpa using hstep
        exact ⟨Or.inl rfl, monitorOk_of_ne (by simp), Or.inl rfl⟩
      · simp at hstep
    · rename_i handling barrierPhase _
      obtain ⟨⟨op', next⟩, hbarrier, heq⟩ := map_eq_some_iff.mp hstep
      obtain ⟨rfl, rfl, rfl⟩ := by simpa using heq
      obtain ⟨hrecorded, hphase⟩ := h handling barrierPhase rfl
      obtain ⟨_, rfl, rfl⟩ | ⟨rfl, hnext⟩ | ⟨rfl, hfull, rfl⟩ :=
        barrierStep_cases hshows hworld hphase hbarrier
      · refine ⟨Or.inr (Or.inr (Or.inl ⟨_, rfl, ?_⟩)), ?_, Or.inl rfl⟩
        · intro q hq
          obtain rfl := mem_singleton.mp hq
          exact ⟨hrank, hrecorded⟩
        · intro handling' phase' heq'
          obtain ⟨_, rfl⟩ := MonitorPhase.barrier.inj heq'
          exact ⟨hrecorded, fun hcounting => by simp at hcounting⟩
      · refine ⟨Or.inl rfl, ?_, Or.inl rfl⟩
        intro handling' phase' heq'
        obtain ⟨_, rfl⟩ := MonitorPhase.barrier.inj heq'
        exact ⟨hrecorded, hnext⟩
      · refine ⟨Or.inr (Or.inr (Or.inr ⟨rfl, hfull⟩)), ?_, Or.inl rfl⟩
        intro handling' phase' heq'
        obtain ⟨_, rfl⟩ := MonitorPhase.barrier.inj heq'
        exact ⟨hrecorded, fun hwaiting => by simp at hwaiting⟩
    · simp at hstep

theorem siblingStep_moves {phase phase' : SiblingPhase} {event : SiblingEvent}
    (h : SiblingOk cfg v phase) (hshows : v.Shows cfg store)
    (hworld : ∀ q ∈ v.arrived, q < cfg.worldSize)
    (hstep : siblingStep cfg store phase event = some (op, phase')) :
    OtherOp cfg v op ∧ SiblingOk cfg (v.apply op) phase' := by
  cases event with
  | unresponsive ranks =>
    simp only [siblingStep] at hstep
    split at hstep
    · rename_i hguard
      cases hstep
      refine ⟨Or.inl rfl, ?_, by simp⟩
      intro ranks' heq
      obtain rfl := SiblingPhase.found.inj heq
      exact hguard.2
    · simp at hstep
  | step =>
    simp only [siblingStep, siblingNext] at hstep
    split at hstep
    · simp at hstep
    · rename_i ranks
      cases hstep
      obtain ⟨hne, hranks⟩ := h.found ranks rfl
      refine ⟨Or.inr (Or.inl ⟨_, _, rfl, hne⟩), by simp, ?_⟩
      intro ranks' barrierPhase heq
      obtain ⟨rfl, rfl⟩ := SiblingPhase.barrier.inj heq
      exact ⟨fun q hq => ⟨hranks q hq, mem_append_right _ hq⟩,
        fun harriving => by simp at harriving⟩
    · cases hstep
      exact ⟨Or.inl rfl, by simp, by simp⟩
    · rename_i ranks barrierPhase _
      obtain ⟨⟨op', next⟩, hbarrier, heq⟩ := map_eq_some_iff.mp hstep
      obtain ⟨rfl, rfl⟩ := Prod.mk.inj heq
      obtain ⟨hranks, hphase⟩ := h.barrier ranks barrierPhase rfl
      have hok : ∀ w : IterationView, v.recorded ⊆ w.recorded →
          ∀ nextPhase, BarrierOk cfg w nextPhase →
          SiblingOk cfg w (.barrier ranks nextPhase) := by
        intro w hsub nextPhase hnext
        refine ⟨by simp, ?_⟩
        intro ranks' phase' heq'
        obtain ⟨rfl, rfl⟩ := SiblingPhase.barrier.inj heq'
        exact ⟨fun q hq => ⟨(hranks q hq).1, hsub (hranks q hq).2⟩, hnext⟩
      obtain ⟨_, rfl, rfl⟩ | ⟨rfl, hnext⟩ | ⟨rfl, hfull, rfl⟩ :=
        barrierStep_cases hshows hworld hphase hbarrier
      · exact ⟨Or.inr (Or.inr (Or.inl ⟨_, rfl, hranks⟩)),
          hok (v.apply (.arrive ranks)) (List.Subset.refl _) .counting
            fun hcounting => by simp at hcounting⟩
      · exact ⟨Or.inl rfl, hok _ (List.Subset.refl _) _ hnext⟩
      · exact ⟨Or.inr (Or.inr (Or.inr ⟨rfl, hfull⟩)),
          hok (v.apply .complete) (List.Subset.refl _) .waiting
            fun hwaiting => by simp at hwaiting⟩

end Steps

/-! ## Records in time -/

/-- The operation of a step. -/
def nextOp (cfg : IterationConfig) (s : Iteration) : IterationAction → Option StoreOp
  | .main rank event => (mainStep cfg rank s.store (s.main rank) event).map Prod.fst
  | .monitor rank event =>
    (monitorStep cfg rank s.store (s.main rank) (s.monitor rank) event).map Prod.fst
  | .sibling rank event => (siblingStep cfg s.store (s.sibling rank) event).map Prod.fst

/-- The ranks that a step records as terminated. -/
def recordedBy (cfg : IterationConfig) (s : Iteration) (action : IterationAction) : List Nat :=
  match nextOp cfg s action with
  | some (.record _ ranks) => ranks
  | _ => []

/-- A main process acts that has not arrived at the barrier. -/
def beforeArrival (s : Iteration) : IterationAction → Bool
  | .main rank _ => !(s.main rank).arrived
  | _ => false

/-- The rank is recorded already. -/
def isRecorded (cfg : IterationConfig) (store : Store) (rank : Nat) : Bool :=
  match getTerminatedRanks store cfg.scope with
  | .error _ => false
  | .ok ranks => (rank : Int) ∈ ranks

/-- Ranks that are not recorded yet are recorded by a main process before it
arrives, or while the barrier is incomplete. -/
def inTime (cfg : IterationConfig) (s : Iteration) (action : IterationAction) : Bool :=
  beforeArrival s action || !barrierCompleted cfg s.store ||
    (recordedBy cfg s action).all (isRecorded cfg s.store)

/-! ## The invariant of an iteration -/

/-- The store shows `v`, whose arrivals are accounted for, and every agent knows
what its phase says. -/
structure Sound (cfg : IterationConfig) (s : Iteration) (v : IterationView) : Prop where
  shows : v.Shows cfg s.store
  world : ∀ q ∈ v.arrived, q < cfg.worldSize
  covered : ∀ q ∈ v.arrived, q ∈ v.recorded ∨ (s.main q).arrived = true
  completed : v.completed = true → v.Full cfg
  main : ∀ rank, MainOk cfg v rank (s.main rank)
  monitor : ∀ rank, MonitorOk cfg v rank (s.monitor rank)
  sibling : ∀ rank, SiblingOk cfg v (s.sibling rank)

section Run

variable {cfg : IterationConfig} {s t : Iteration} {v : IterationView}

variable {action : IterationAction}

theorem sound_start : Sound cfg startIteration ⟨[], [], false⟩ where
  shows := ⟨⟨[], rfl, rfl⟩, ⟨[], rfl, rfl⟩, rfl⟩
  world := by simp
  covered := by simp
  completed := by simp
  main rank := ⟨by simp [startIteration], by simp [startIteration], by simp [startIteration],
    by simp [startIteration]⟩
  monitor rank := monitorOk_of_ne (by simp [startIteration])
  sibling rank := ⟨by simp [startIteration], by simp [startIteration]⟩

theorem isRecorded_iff {store : Store} (h : v.Shows cfg store) (rank : Nat) :
    isRecorded cfg store rank = true ↔ rank ∈ v.recorded := by
  have hcast : ∀ other : Nat, (other : Int) = rank ↔ other = rank := fun other => Int.ofNat_inj
  rw [isRecorded, h.getTerminatedRanks]
  simp [hcast]

/-- A step in time records nobody new once the barrier completed. -/
theorem Sound.closed (h : Sound cfg s v) (htime : inTime cfg s action = true)
    {interruption : Interruption} {ranks : List Nat}
    (hop : nextOp cfg s action = some (.record interruption ranks))
    (hmain : ∀ rank event, action = .main rank event → ranks = [rank] ∧ rank < cfg.worldSize)
    (hcompleted : v.completed = true) : ranks ⊆ v.recorded := by
  simp only [inTime, Bool.or_eq_true, Bool.not_eq_true'] at htime
  obtain (hbefore | hopen) | hrecorded := htime
  · cases action with
    | main rank event =>
      obtain ⟨rfl, hrank⟩ := hmain rank event rfl
      intro q hq
      obtain rfl := mem_singleton.mp hq
      obtain hrecorded | harrived := h.covered q (h.completed hcompleted q hrank)
      · exact hrecorded
      · simp [beforeArrival, harrived] at hbefore
    | monitor rank event => simp [beforeArrival] at hbefore
    | sibling rank event => simp [beforeArrival] at hbefore
  · rw [h.shows.completed, hcompleted] at hopen
    simp at hopen
  · intro q hq
    have hall := all_eq_true.mp hrecorded q
    rw [recordedBy, hop] at hall
    exact (isRecorded_iff h.shows q).mp (hall hq)

theorem grows_apply {op : StoreOp}
    (hclosed : ∀ interruption ranks, op = .record interruption ranks →
      v.completed = true → ranks ⊆ v.recorded) : v.Grows (v.apply op) := by
  cases op with
  | read => exact ⟨List.Subset.refl _, List.Subset.refl _, id, fun _ => List.Subset.refl _⟩
  | record interruption ranks =>
    refine ⟨subset_append_left _ _, List.Subset.refl _, id, fun hcompleted => ?_⟩
    exact append_subset.mpr ⟨List.Subset.refl _, hclosed interruption ranks rfl hcompleted⟩
  | arrive ranks =>
    exact ⟨List.Subset.refl _, subset_append_left _ _, id, fun _ => List.Subset.refl _⟩
  | complete =>
    exact ⟨List.Subset.refl _, List.Subset.refl _, fun _ => rfl, fun _ => List.Subset.refl _⟩

/-- The store's part of the invariant, for an operation of any agent. -/
theorem Sound.perform (h : Sound cfg s v) {op : StoreOp}
    (hstore : t.store = op.perform cfg.scope s.store)
    (hrecord : ∀ interruption ranks, op = .record interruption ranks → ranks ≠ [])
    (harrive : ∀ ranks, op = .arrive ranks →
      ∀ q ∈ ranks, q < cfg.worldSize ∧ (q ∈ v.recorded ∨ (t.main q).arrived = true))
    (hcomplete : op = .complete → v.Full cfg)
    (harrived : ∀ q, (s.main q).arrived = true → (t.main q).arrived = true)
    (hmain : ∀ rank, MainOk cfg (v.apply op) rank (t.main rank))
    (hmonitor : ∀ rank, MonitorOk cfg (v.apply op) rank (t.monitor rank))
    (hsibling : ∀ rank, SiblingOk cfg (v.apply op) (t.sibling rank)) :
    Sound cfg t (v.apply op) := by
  have hkept : ∀ q ∈ v.arrived, q ∈ v.recorded ∨ (t.main q).arrived = true := fun q hq =>
    (h.covered q hq).imp id (harrived q)
  refine ⟨hstore ▸ h.shows.perform hrecord, ?_, ?_, ?_, hmain, hmonitor, hsibling⟩
  · intro q hq
    cases op with
    | read => exact h.world q hq
    | record interruption ranks => exact h.world q hq
    | complete => exact h.world q hq
    | arrive ranks =>
      rcases mem_append.mp hq with hq | hq
      · exact h.world q hq
      · exact (harrive ranks rfl q hq).1
  · intro q hq
    cases op with
    | read => exact hkept q hq
    | complete => exact hkept q hq
    | record interruption ranks =>
      exact (hkept q hq).imp (fun hmem => mem_append_left _ hmem) id
    | arrive ranks =>
      rcases mem_append.mp hq with hq | hq
      · exact hkept q hq
      · exact (harrive ranks rfl q hq).2
  · intro hcompleted
    cases op with
    | read => exact h.completed hcompleted
    | record interruption ranks => exact h.completed hcompleted
    | complete => exact hcomplete rfl
    | arrive ranks =>
      intro rank hrank
      exact mem_append_left _ (h.completed hcompleted rank hrank)

theorem Sound.main_step (h : Sound cfg s v) {rank : Nat} {event : MainEvent}
    (hrank : rank < cfg.worldSize) (htime : inTime cfg s (.main rank event) = true)
    {op : StoreOp} {main' : MainProcess}
    (hstep : mainStep cfg rank s.store (s.main rank) event = some (op, main'))
    (hstore : t.store = op.perform cfg.scope s.store)
    (hmain : t.main = update s.main rank main')
    (hmonitor : t.monitor = s.monitor) (hsibling : t.sibling = s.sibling) :
    Sound cfg t (v.apply op) := by
  have hmoves := mainStep_moves (h.main rank) h.shows h.world hstep
  have hself : ∀ interruption ranks, op = .record interruption ranks → ranks = [rank] := by
    rintro interruption ranks rfl
    obtain hop | ⟨_, hop⟩ | ⟨hop, _⟩ | ⟨hop, _⟩ := hmoves.op
    · simp at hop
    · exact (StoreOp.record.inj hop).2
    · simp at hop
    · simp at hop
  have hgrows : v.Grows (v.apply op) := by
    refine grows_apply fun interruption ranks hop hcompleted => ?_
    subst hop
    refine h.closed htime (by rw [nextOp, hstep]; rfl) ?_ hcompleted
    intro rank' event' heq
    obtain ⟨rfl, rfl⟩ := IterationAction.main.inj heq
    exact ⟨hself interruption ranks rfl, hrank⟩
  refine h.perform hstore ?_ ?_ ?_ ?_ ?_ (fun r => hmonitor ▸ (h.monitor r).mono hgrows)
    (fun r => hsibling ▸ (h.sibling r).mono hgrows)
  · intro interruption ranks hop
    rw [hself interruption ranks hop]
    simp
  · rintro ranks rfl q hq
    obtain hop | ⟨_, hop⟩ | ⟨hop, harrived⟩ | ⟨hop, _⟩ := hmoves.op
    · simp at hop
    · simp at hop
    · obtain rfl := StoreOp.arrive.inj hop
      obtain rfl := mem_singleton.mp hq
      refine ⟨hrank, Or.inr ?_⟩
      rw [hmain, update_self]
      exact harrived
    · simp at hop
  · rintro rfl
    obtain hop | ⟨_, hop⟩ | ⟨hop, _⟩ | ⟨_, hfull⟩ := hmoves.op
    · simp at hop
    · simp at hop
    · simp at hop
    · exact hfull
  · intro q hq
    by_cases hqr : q = rank
    · subst hqr
      rw [hmain, update_self]
      exact hmoves.arrived hq
    · rw [hmain, update_of_ne hqr]
      exact hq
  · intro r
    by_cases hr : r = rank
    · subst hr
      rw [hmain, update_self]
      exact hmoves.ok.mono hgrows
    · rw [hmain, update_of_ne hr]
      exact (h.main r).mono hgrows

/-- The store's part for the agents that record before they arrive. -/
theorem Sound.other_step (h : Sound cfg s v) (htime : inTime cfg s action = true)
    (hother : ∀ rank event, action ≠ .main rank event) {op : StoreOp}
    (hop : nextOp cfg s action = some op) (hkind : OtherOp cfg v op)
    (hstore : t.store = op.perform cfg.scope s.store)
    (hmain : ∀ rank, t.main rank = s.main rank ∨ t.main rank = { s.main rank with phase := .dead })
    (hmonitor : v.Grows (v.apply op) → ∀ rank, MonitorOk cfg (v.apply op) rank (t.monitor rank))
    (hsibling : v.Grows (v.apply op) → ∀ rank, SiblingOk cfg (v.apply op) (t.sibling rank)) :
    Sound cfg t (v.apply op) := by
  have hgrows : v.Grows (v.apply op) := by
    refine grows_apply fun interruption ranks heq hcompleted => ?_
    subst heq
    exact h.closed htime hop (fun rank event heq => absurd heq (hother rank event)) hcompleted
  refine h.perform hstore ?_ ?_ ?_ ?_ ?_ (hmonitor hgrows) (hsibling hgrows)
  · rintro interruption ranks rfl
    obtain heq | ⟨_, _, heq, hne⟩ | ⟨_, heq, _⟩ | ⟨heq, _⟩ := hkind
    · simp at heq
    · exact (StoreOp.record.inj heq).2 ▸ hne
    · simp at heq
    · simp at heq
  · rintro ranks rfl q hq
    obtain heq | ⟨_, _, heq, _⟩ | ⟨_, heq, hranks⟩ | ⟨heq, _⟩ := hkind
    · simp at heq
    · simp at heq
    · obtain rfl := StoreOp.arrive.inj heq
      exact ⟨(hranks q hq).1, Or.inl (hranks q hq).2⟩
    · simp at heq
  · rintro rfl
    obtain heq | ⟨_, _, heq, _⟩ | ⟨_, heq, _⟩ | ⟨_, hfull⟩ := hkind
    · simp at heq
    · simp at heq
    · simp at heq
    · exact hfull
  · intro q hq
    rcases hmain q with heq | heq
    · rw [heq]
      exact hq
    · rw [heq]
      exact hq
  · intro rank
    rcases hmain rank with heq | heq
    · rw [heq]
      exact (h.main rank).mono hgrows
    · rw [heq]
      exact ((h.main rank).setPhase (by simp) (by simp)).mono hgrows

theorem sound_step (h : Sound cfg s v) (htime : inTime cfg s action = true)
    (hstep : iterationStep cfg s action = some t) : ∃ w, Sound cfg t w := by
  unfold iterationStep at hstep
  split at hstep
  · rename_i hrank
    cases action with
    | main rank event =>
      obtain ⟨⟨op, main'⟩, hmain, rfl⟩ := map_eq_some_iff.mp hstep
      exact ⟨_, h.main_step hrank htime hmain rfl rfl rfl rfl⟩
    | monitor rank event =>
      obtain ⟨⟨op, phase', target'⟩, hmonitor, rfl⟩ := map_eq_some_iff.mp hstep
      obtain ⟨hkind, hok, htarget⟩ :=
        monitorStep_moves (h.monitor rank) hrank h.shows h.world hmonitor
      refine ⟨_, h.other_step htime (by simp) (by rw [nextOp, hmonitor]; rfl) hkind rfl ?_ ?_
        fun hgrows r => (h.sibling r).mono hgrows⟩
      · intro r
        by_cases hr : r = rank
        · subst hr
          simpa using htarget
        · exact Or.inl (update_of_ne hr _ _)
      · intro hgrows r
        by_cases hr : r = rank
        · subst hr
          simpa using hok
        · simpa [hr] using (h.monitor r).mono hgrows
    | sibling rank event =>
      obtain ⟨⟨op, phase'⟩, hsibling, rfl⟩ := map_eq_some_iff.mp hstep
      obtain ⟨hkind, hok⟩ := siblingStep_moves (h.sibling rank) h.shows h.world hsibling
      refine ⟨_, h.other_step htime (by simp) (by rw [nextOp, hsibling]; rfl) hkind rfl
        (fun _ => Or.inl rfl) (fun hgrows r => (h.monitor r).mono hgrows) ?_⟩
      intro hgrows r
      by_cases hr : r = rank
      · subst hr
        simpa using hok
      · simpa [hr] using (h.sibling r).mono hgrows
  · simp at hstep

theorem sound_reachable
    (hs : (iterationSystem cfg).Reachable (fun s action => inTime cfg s action = true) s) :
    ∃ v, Sound cfg s v := by
  refine System.Reachable.invariant (P := fun s => ∃ v, Sound cfg s v) ?_ ?_ hs
  · rintro s rfl
    exact ⟨_, sound_start⟩
  · rintro s action t ⟨v, hv⟩ htime hstep
    exact sound_step hv htime hstep

end Run

/-! ## Agreement -/

/-- All main processes that read the terminated ranks read the same set, and no
rank of that set goes on as a survivor. -/
def AgreesOnTerminated (s : Iteration) : Prop :=
  (∀ a b ranks ranks', (s.main a).terminatedRanks = some ranks →
    (s.main b).terminatedRanks = some ranks' → ∀ value, value ∈ ranks ↔ value ∈ ranks') ∧
  ∀ a b ranks, (s.main a).terminatedRanks = some ranks → ((b : Nat) : Int) ∈ ranks →
    (s.main b).survivor = false

/-- Main processes agree in every iteration whose records are made in time. -/
theorem terminated_ranks_agree {cfg : IterationConfig} {s : Iteration}
    (hs : (iterationSystem cfg).Reachable (fun s action => inTime cfg s action = true) s) :
    AgreesOnTerminated s := by
  obtain ⟨v, hsound⟩ := sound_reachable hs
  refine ⟨?_, ?_⟩
  · intro a b ranks ranks' ha hb value
    have hfirst := ((hsound.main a).read ranks ha).2 value
    have hsecond := ((hsound.main b).read ranks' hb).2 value
    exact hfirst.trans hsecond.symm
  · intro a b ranks ha hmem
    by_contra hsurvivor
    obtain ⟨ranks', hb, hnot⟩ := (hsound.main b).survivor (by simpa using hsurvivor)
    have hrecorded := ((hsound.main a).read ranks ha).2 b
    have hread := ((hsound.main b).read ranks' hb).2 b
    exact hnot (hread.mpr (hrecorded.mp hmem))

/-- Two ranks in the first iteration. -/
def pairIteration : IterationConfig where
  iteration := 0
  worldSize := 2

/-- Rank 0 dies and its monitor process records it before the barrier completes. -/
theorem terminated_ranks_agree_pair :
    ∃ s, ((s.main 1).terminatedRanks = some [0] ∧ (s.main 1).survivor = true) ∧
      AgreesOnTerminated s := by
  have hrun : ((iterationSystem pairIteration).execute
        (fun s action => inTime pairIteration s action = true) startIteration
        [.main 0 .kill, .monitor 0 .targetTerminated, .monitor 0 .step, .monitor 0 .step,
          .monitor 0 .step, .main 1 .restart, .main 1 .step, .main 1 .step, .main 1 .step,
          .main 1 .step, .main 1 .step, .main 1 .step]).any
      (fun s => (s.main 1).terminatedRanks = some [0] ∧ (s.main 1).survivor = true) = true := by
    decide
  obtain ⟨s, hs, htest⟩ := System.exists_reachable_of_execute rfl hrun
  exact ⟨s, of_decide_eq_true htest, terminated_ranks_agree hs⟩

/-- The hard timeout of rank 0 expires just before rank 0 arrives, and its
monitor process records it when rank 1 has gone on. -/
theorem hard_timeout_splits_survivors :
    ¬ ∀ (cfg : IterationConfig) (s : Iteration),
        (iterationSystem cfg).Reachable (fun _ _ => True) s → AgreesOnTerminated s := by
  intro hclaim
  have hrun : ((iterationSystem pairIteration).execute (fun _ _ => True) startIteration
        [.monitor 0 .hardTimeout, .main 0 .restart, .main 0 .step, .main 0 .step,
          .main 1 .restart, .main 1 .step, .main 1 .step, .main 1 .step, .main 1 .step,
          .main 1 .step, .main 1 .step, .monitor 0 .step, .main 0 .step, .main 0 .step]).any
      (fun s => (s.main 0).terminatedRanks = some [0] ∧
        (s.main 1).terminatedRanks = some []) = true := by
    decide
  obtain ⟨s, hs, htest⟩ := System.exists_reachable_of_execute rfl hrun
  obtain ⟨hfirst, hsecond⟩ := of_decide_eq_true htest
  have hagree := (hclaim pairIteration s hs).1 0 1 [0] [] hfirst hsecond 0
  simp at hagree

end ResiliencyExt.Inprocess
