import ResiliencyExt.Inprocess.GroupedFilterInvariant
import ResiliencyExt.Inprocess.ShiftRanks

set_option autoImplicit false

/-!
# Inprocess: agreement of the grouped filter

All alive ranks return the same set, and `ShiftRanks` then numbers the survivors
without gaps.  That ranks return at all rests on three things: a barrier that all
have reached is open or about to be opened, a rank only ever moves on, and there
are only so many positions in the call.
-/

namespace ResiliencyExt.Inprocess

open Foundation Function

namespace FilterCountGroupedByKey

variable {F : FilterCountGroupedByKey} {store store' : KeyValue (List Char)}
  {phase : Nat → FilterPhase} {rank : Nat} {next : FilterPhase}

/-! ## No interleaving gets stuck -/

/-- When every alive rank has arrived at a barrier, it is open or one of them is about
to open it. -/
def Released (F : FilterCountGroupedByKey) (store : KeyValue (List Char))
    (phase : Nat → FilterPhase) (b : FilterBarrier) : Prop :=
  F.alive.Nonempty → F.AllArrived phase b → F.opened store b ∨ ∃ rank ∈ F.alive,
    phase rank = .barrier b .completing ∨
      phase rank = .barrier b (.appending F.aliveWorldSize)

/-- A step at which its rank does not arrive, and which leaves the barrier to its opener. -/
theorem Released.keep {b : FilterBarrier} (h : F.Released store phase b)
    (hflag : F.opened store b → F.opened store' b)
    (hcross : rank ∈ F.alive → b.position < next.position → b.position < (phase rank).position)
    (hopener : phase rank = .barrier b .completing ∨
        phase rank = .barrier b (.appending F.aliveWorldSize) →
      F.opened store' b ∨ next = .barrier b .completing) :
    F.Released store' (update phase rank next) b := by
  intro hne hall
  have hbefore : F.AllArrived phase b := by
    intro other hother
    have hafter := hall other hother
    rcases eq_or_ne other rank with rfl | hdiff
    · rw [update_self] at hafter
      exact hcross hother hafter
    · rwa [update_of_ne hdiff] at hafter
  rcases h hne hbefore with hopen | ⟨other, hother, hat⟩
  · exact Or.inl (hflag hopen)
  · rcases eq_or_ne other rank with rfl | hdiff
    · rcases hopener hat with hopen | hcompleting
      · exact Or.inl hopen
      · exact Or.inr ⟨other, hother, Or.inl (by rw [update_self, hcompleting])⟩
    · exact Or.inr ⟨other, hother, by rwa [update_of_ne hdiff]⟩

/-- The rank that finds everyone arrived is the one to open the barrier. -/
theorem Released.add {b : FilterBarrier} (hinv : F.Inv store phase) (hrank : rank ∈ F.alive)
    (hphase : phase rank = .barrier b .adding) :
    F.Released store' (update phase rank
        (.barrier b (.appending (store.add (F.key (.barrier b .count)) 1).2))) b := by
  have hvalue := hinv.arrivedCount_eq hrank hphase
  set count := (store.add (F.key (.barrier b .count)) 1).2
  have hvalue := hvalue (.barrier b (.appending count)) (Nat.lt_succ_self _)
  intro _ hall
  have hfull := (countPast_eq_card_iff (P := ArrivedAt b)).mpr hall
  refine Or.inr ⟨rank, hrank, Or.inr ?_⟩
  rw [update_self, ← F.card_alive, ← hfull, ← hvalue]

theorem Released.move {b : FilterBarrier} (h : F.Released store phase b)
    (hinv : F.Inv store phase) (hrank : rank ∈ F.alive)
    (hmove : F.FilterMove rank store (phase rank) store' next) :
    F.Released store' (update phase rank next) b := by
  have hok := hinv.ok rank hrank
  generalize hphase : phase rank = before at hmove hok
  cases hmove with
  | count =>
    refine h.keep (fun ho => opened_keep ho (store.add_of_ne 1 (key_ne (by simp))))
      (fun _ hlt => ?_) (by rw [hphase]; simp)
    cases b <;> simp at hlt
  | add b' =>
    by_cases hb : b = b'
    · subst hb
      exact Released.add hinv hrank hphase
    · refine h.keep (fun ho => opened_keep ho (store.add_of_ne 1 (key_ne (by simp))))
        (fun _ hlt => ?_) (by rw [hphase]; simp)
      rw [hphase]
      cases b <;> cases b' <;>
        simp at hb hlt ⊢
  | append b' arrivedCount =>
    have hle := hok.2.1
    refine h.keep (fun ho => opened_keep ho (store.append_of_ne _ (key_ne (by simp))))
      (fun _ hlt => ?_) (fun hopener => Or.inr ?_)
    · rw [hphase]
      rw [afterAppend, if_neg (by omega)] at hlt
      split at hlt <;> cases b <;> cases b' <;>
        simp at hlt ⊢
    · rw [hphase] at hopener
      have hcount : b' = b ∧ arrivedCount = F.aliveWorldSize := by simpa using hopener
      rw [afterAppend, hcount.2, if_neg (Nat.lt_irrefl _), if_pos rfl, hcount.1]
  | complete b' =>
    refine h.keep (fun ho => ?_) (fun _ hlt => ?_) (fun hopener => Or.inl ?_)
    · by_cases hb : b = b'
      · subst hb
        simp [opened]
      · refine opened_keep ho (store.set_of_ne _ (key_ne fun heq => hb ?_))
        exact (FilterKey.barrier.inj heq).1
    · rw [hphase]
      cases b <;> cases b' <;>
        simp at hlt ⊢
    · rw [hphase] at hopener
      have hb : b' = b := by simpa using hopener
      subst hb
      simp [opened]
  | pass b' _ =>
    refine h.keep id (fun _ hlt => ?_) (by rw [hphase]; simp)
    rw [hphase]
    rw [position_afterBarrier] at hlt
    cases b <;> cases b' <;>
      simp at hlt ⊢
  | expire b' => exact h.keep id (fun _ hlt => by rw [hphase]; exact hlt) (by rw [hphase]; simp)
  | decide =>
    rw [hinv.decideGroup_eq hok hrank]
    refine h.keep id (fun _ hlt => ?_) (by rw [hphase]; simp)
    rw [hphase]
    split at hlt <;> cases b <;>
      simp at hlt ⊢
  | submit =>
    refine h.keep (fun ho => opened_keep ho (store.append_of_ne _ (key_ne (by simp))))
      (fun _ hlt => ?_) (by rw [hphase]; simp)
    rw [hphase]
    cases b <;> simp at hlt ⊢
  | absent | present | collect =>
    refine h.keep id (fun _ _ => ?_) (by rw [hphase]; simp)
    rw [hphase]
    cases b <;> decide

theorem reachable_inv (htimeout : F.timeout ≠ 0)
    {c : Agents.Configuration (KeyValue (List Char)) FilterPhase}
    (hc : F.agents.system.Reachable (fun _ _ => True) c) :
    F.Inv c.shared c.agent ∧ ∀ b, F.Released c.shared c.agent b := by
  refine hc.invariant
    (P := fun c => F.Inv c.shared c.agent ∧ ∀ b, F.Released c.shared c.agent b) ?_ ?_
  · rintro _ rfl
    refine ⟨inv_init F, fun b ⟨rank, hrank⟩ hall => ?_⟩
    exact absurd (hall rank hrank) (Nat.not_lt_zero _)
  · rintro c ⟨rank, event⟩ d ⟨hinv, hreleased⟩ _ hstep
    obtain ⟨store, next, hlocal, rfl⟩ := Agents.system_step_eq_some.mp hstep
    obtain ⟨hlt, hlocal⟩ : rank < F.worldSize ∧
        F.step rank c.shared (c.agent rank) event = some (store, next) := by
      simpa [agents] using hlocal
    rcases step_move hlocal with ⟨hterm, hphase, rfl, rfl⟩ | ⟨hstart, hmove⟩
    · refine ⟨hinv.skip hterm, fun b => (hreleased b).keep id (fun h => ?_) ?_⟩
      · exact absurd hterm (F.mem_alive.mp h).2
      · rw [hphase]
        simp
    · have hrank : rank ∈ F.alive := by
        refine F.mem_alive.mpr ⟨hlt, fun hterm => ?_⟩
        rcases hinv.terminated rank hterm with hphase | hphase
        · exact hstart hphase hterm
        · rw [hphase] at hmove
          cases hmove
      exact ⟨hinv.move htimeout hrank hmove, fun b => (hreleased b).move hinv hrank hmove⟩

/-- A rank that has no next operation waits at a closed barrier or has left the call. -/
theorem step_eq_none {event : FilterEvent} (hevent : event = .step)
    (h : F.step rank store (phase rank) event = none) :
    (∃ b, phase rank = .barrier b .waiting ∧ ¬ F.opened store b) ∨
      13 ≤ (phase rank).position ∨ ∃ b, phase rank = .timedOut b := by
  subst hevent
  generalize phase rank = at_ at h
  match at_ with
  | .starting =>
    simp only [step] at h
    split at h <;> cases h
  | .barrier b .waiting =>
    simp only [step] at h
    split at h
    · cases h
    · rename_i hclosed
      exact Or.inl ⟨b, rfl, fun hopen => hclosed (Or.inr hopen)⟩
  | .checking =>
    simp only [step] at h
    split at h <;> cases h
  | .barrier _ .adding | .barrier _ (.appending _) | .barrier _ .completing | .counting
  | .submitting | .reading => cases h
  | .returned _ | .raised _ => exact Or.inr (Or.inl (Nat.le_refl _))
  | .timedOut b => exact Or.inr (Or.inr ⟨b, rfl⟩)

/-- Unless a rank timed out, some rank has a next operation until all have returned. -/
theorem returned_of_stuck (hreleased : ∀ b, F.Released store phase b)
    (htimely : ∀ rank ∈ F.alive, ∀ b, phase rank ≠ .timedOut b)
    (hstuck : ∀ rank ∈ F.alive, F.step rank store (phase rank) .step = none) :
    ∀ rank ∈ F.alive, 13 ≤ (phase rank).position := by
  have hcases : ∀ rank ∈ F.alive,
      (∃ b, phase rank = .barrier b .waiting ∧ ¬ F.opened store b) ∨
        13 ≤ (phase rank).position := by
    intro rank hrank
    rcases step_eq_none rfl (hstuck rank hrank) with hwait | hleft | ⟨b, htimed⟩
    · exact Or.inl hwait
    · exact Or.inr hleft
    · exact absurd htimed (htimely rank hrank b)
  -- a barrier that every alive rank has reached is open, as nobody is left to open it
  have hopen : ∀ b, F.alive.Nonempty → F.AllArrived phase b → F.opened store b := by
    intro b hne hall
    rcases hreleased b hne hall with hopened | ⟨rank, hrank, hat⟩
    · exact hopened
    · rcases hcases rank hrank with ⟨b', hwait, _⟩ | hleft
      · rcases hat with hat | hat <;> rw [hat] at hwait <;> cases hwait
      · rcases hat with hat | hat <;> rw [hat] at hleft <;> cases b <;> simp at hleft
  have hfirst : ∀ rank ∈ F.alive, phase rank ≠ .barrier .countAlive .waiting ∨
      F.opened store .countAlive := by
    intro rank hrank
    refine Or.inr (hopen _ ⟨rank, hrank⟩ fun other hother => ?_)
    rcases hcases other hother with ⟨b', hwait, _⟩ | hleft
    · rw [hwait]
      cases b' <;> decide
    · exact Nat.lt_of_lt_of_le (by decide) hleft
  intro rank hrank
  rcases hcases rank hrank with ⟨b, hwait, hclosed⟩ | hleft
  · refine absurd (hopen b ⟨rank, hrank⟩ fun other hother => ?_) hclosed
    rcases hcases other hother with ⟨b', hwait', hclosed'⟩ | hleft
    · rw [hwait']
      cases b with
      | countAlive => cases b' <;> decide
      | submitMismatching =>
        cases b' with
        | countAlive => exact ((hfirst other hother).elim (absurd hwait') (absurd · hclosed'))
        | submitMismatching => decide
    · cases b <;> exact Nat.lt_of_lt_of_le (by decide) hleft
  · exact hleft

/-! ## The length of runs -/

/-- What a rank has done; a timeout counts for half a step. -/
def progress (at_ : FilterPhase) : Nat :=
  match at_ with
  | .timedOut _ => 2 * at_.position + 1
  | _ => 2 * at_.position

theorem progress_le (at_ : FilterPhase) : progress at_ ≤ 26 := by
  match at_ with
  | .barrier b stage => cases b <;> cases stage <;> simp [progress]
  | .timedOut b => cases b <;> decide
  | .starting | .counting | .submitting | .checking | .reading => decide
  | .returned _ | .raised _ => exact Nat.le_refl _

theorem FilterMove.progress_lt {at_ : FilterPhase} (h : F.FilterMove rank store at_ store' next) :
    progress at_ < progress next := by
  cases h with
  | count => decide
  | add b => cases b <;> simp [progress]
  | append b arrivedCount =>
    unfold afterAppend
    split
    · cases b <;> simp [progress]
    · split <;> cases b <;> simp [progress]
  | complete b => cases b <;> decide
  | pass b _ => cases b <;> decide
  | expire b => cases b <;> decide
  | decide =>
    unfold decideGroup
    split
    · simp [progress]
    · split
      · simp [progress]
      · split <;> decide
  | submit => decide
  | absent => simp [progress]
  | present => decide
  | collect =>
    unfold FilterCountGroupedByKey.collect
    split
    · simp [progress]
    · split <;> simp [progress]

/-- Every run ends: a rank has only so much to do. -/
theorem run_length_le {c d : Agents.Configuration (KeyValue (List Char)) FilterPhase}
    {actions : List (Nat × FilterEvent)}
    (hrun : F.agents.system.Run (fun _ _ => True) c actions d) :
    actions.length ≤ 26 * F.worldSize := by
  have hlength := hrun.length_le
    (M := fun c => ∑ rank ∈ Finset.range F.worldSize, (26 - progress (c.agent rank)))
    (by
      rintro c ⟨rank, event⟩ d hstep
      obtain ⟨store, next, hlocal, rfl⟩ := Agents.system_step_eq_some.mp hstep
      obtain ⟨hlt, hlocal⟩ : rank < F.worldSize ∧
          F.step rank c.shared (c.agent rank) event = some (store, next) := by
        simpa [agents] using hlocal
      have hprogress : progress (c.agent rank) < progress next := by
        rcases step_move hlocal with ⟨_, hphase, _, rfl⟩ | ⟨_, hmove⟩
        · rw [hphase]
          simp [progress]
        · exact hmove.progress_lt
      have hle := progress_le next
      have hless : 26 - progress next < 26 - progress (c.agent rank) := by omega
      exact sum_update_lt (w := fun at_ => 26 - progress at_) (Finset.mem_range.mpr hlt) hless)
  refine hlength.trans ?_
  calc ∑ rank ∈ Finset.range F.worldSize, (26 - progress (c.agent rank))
      ≤ ∑ _rank ∈ Finset.range F.worldSize, 26 :=
        Finset.sum_le_sum fun _ _ => Nat.sub_le _ _
    _ = 26 * F.worldSize := by
        rw [Finset.sum_const, Finset.card_range, Nat.nsmul_eq_mul, Nat.mul_comm]

/-! ## Agreement -/

def survivors (F : FilterCountGroupedByKey) : Finset Nat :=
  F.alive \ F.mismatching

theorem mismatching_subset (F : FilterCountGroupedByKey) : F.mismatching ⊆ F.alive :=
  Finset.filter_subset _ _

theorem disjoint_terminated (F : FilterCountGroupedByKey) :
    Disjoint F.terminatedRanks F.mismatching :=
  Finset.disjoint_left.mpr fun _ hterm hmis =>
    (F.mem_alive.mp (F.mismatching_subset hmis)).2 hterm

theorem card_survivors (F : FilterCountGroupedByKey) :
    F.survivors.card = F.worldSize - (F.terminatedRanks ∪ F.mismatching).card := by
  rw [survivors, Finset.card_sdiff_of_subset F.mismatching_subset, F.card_alive, aliveWorldSize,
    Finset.card_union_of_disjoint F.disjoint_terminated]
  omega

/-- `ShiftRanks` after the filter numbers the survivors without gaps and discards the
ranks whose group failed, when each alive rank returned the set given. -/
def ShiftsWithoutGaps (F : FilterCountGroupedByKey) (terminatedRanks : Nat → Finset Nat) : Prop :=
  ∃ newRank : Nat → Nat,
    (∀ rank ∈ F.survivors, shiftRanksCall ⟨rank, F.worldSize, terminatedRanks rank⟩ =
      .ok ⟨newRank rank, F.survivors.card, ∅⟩) ∧
    (∀ rank ∈ F.mismatching, shiftRanksCall ⟨rank, F.worldSize, terminatedRanks rank⟩ =
      .error ⟨rank, terminatedRanks rank⟩) ∧
    Set.BijOn newRank F.survivors {k | k < F.survivors.card}

theorem shiftsWithoutGaps {terminatedRanks : Nat → Finset Nat}
    (h : ∀ rank ∈ F.alive, terminatedRanks rank = F.terminatedRanks ∪ F.mismatching) :
    F.ShiftsWithoutGaps terminatedRanks := by
  have hlt : ∀ rank ∈ F.terminatedRanks ∪ F.mismatching, rank < F.worldSize := by
    intro rank hrank
    rcases Finset.mem_union.mp hrank with hterm | hmis
    · exact F.terminated_lt rank hterm
    · exact (F.mem_alive.mp (F.mismatching_subset hmis)).1
  have hsurvivor : ∀ rank, rank ∈ F.survivors ↔
      rank < F.worldSize ∧ rank ∉ F.terminatedRanks ∪ F.mismatching := by
    intro rank
    rw [survivors, Finset.mem_sdiff, F.mem_alive, Finset.notMem_union, and_assoc]
  have hnumbering := numbering_shiftedRank hlt
  rw [← F.card_survivors] at hnumbering
  refine ⟨fun rank => rank - terminatedBelow (F.terminatedRanks ∪ F.mismatching) rank,
    fun rank hrank => ?_, fun rank hmis => ?_, ?_⟩
  · have hnot := ((hsurvivor rank).mp hrank).2
    rw [h rank (Finset.mem_sdiff.mp hrank).1, shiftRanksCall, if_neg hnot, F.card_survivors]
  · rw [h rank (F.mismatching_subset hmis), shiftRanksCall,
      if_pos (Finset.mem_union_right _ hmis)]
  · have hshifted : ∀ rank ∈ F.survivors,
        shiftedRank F.worldSize (F.terminatedRanks ∪ F.mismatching) rank =
          some (rank - terminatedBelow (F.terminatedRanks ∪ F.mismatching) rank) := by
      intro rank hrank
      obtain ⟨hrankLt, hnot⟩ := (hsurvivor rank).mp hrank
      rw [shiftedRank, if_pos hrankLt, shiftRanksCall, if_neg hnot]
    refine hnumbering.bijOn (fun rank => ⟨fun hrank => ?_, fun hsome => ?_⟩) hshifted
    · rw [hshifted rank hrank]
      rfl
    · refine (hsurvivor rank).mpr ?_
      unfold shiftedRank shiftRanksCall at hsome
      split at hsome
      · rename_i hrankLt
        refine ⟨hrankLt, fun hmem => ?_⟩
        rw [if_pos hmem] at hsome
        cases hsome
      · cases hsome

/-- The set that the claim of agreement names, and what `ShiftRanks` makes of it. -/
def Agreement (F : FilterCountGroupedByKey)
    (c : Agents.Configuration (KeyValue (List Char)) FilterPhase) : Prop :=
  (∀ rank ∈ F.alive, ∀ terminatedRanks, c.agent rank = .returned terminatedRanks →
    terminatedRanks = F.terminatedRanks ∪ F.mismatching) ∧
  ∀ terminatedRanks : Nat → Finset Nat,
    (∀ rank ∈ F.alive, c.agent rank = .returned (terminatedRanks rank)) →
    F.ShiftsWithoutGaps terminatedRanks

/-- No rank is left behind: no call raises anything but a timeout, every run is finite,
and until a rank times out some rank has a next operation or all have returned. -/
def Completes (F : FilterCountGroupedByKey)
    (c : Agents.Configuration (KeyValue (List Char)) FilterPhase) : Prop :=
  (∀ rank ∈ F.alive, ∀ error, c.agent rank ≠ .raised error) ∧
  (∀ actions d, F.agents.system.Run (fun _ _ => True) c actions d →
    actions.length ≤ 26 * F.worldSize) ∧
  ((∀ rank ∈ F.alive, ∀ b, c.agent rank ≠ .timedOut b) →
    (∀ rank, F.agents.system.step c (rank, .step) = none) →
    ∀ rank ∈ F.alive, ∃ terminatedRanks, c.agent rank = .returned terminatedRanks)

/-- With a barrier timeout that is not zero the alive ranks agree. -/
theorem filter_agreement {F : FilterCountGroupedByKey} (htimeout : F.timeout ≠ 0)
    {c : Agents.Configuration (KeyValue (List Char)) FilterPhase}
    (hc : F.agents.system.Reachable (fun _ _ => True) c) : F.Agreement c ∧ F.Completes c := by
  obtain ⟨hinv, hreleased⟩ := reachable_inv htimeout hc
  have hreturned : ∀ rank ∈ F.alive, ∀ terminatedRanks,
      c.agent rank = .returned terminatedRanks →
      terminatedRanks = F.terminatedRanks ∪ F.mismatching := by
    intro rank hrank terminatedRanks hphase
    have hok := hinv.ok rank hrank
    rwa [hphase] at hok
  have hsound : ∀ rank ∈ F.alive, ∀ error, c.agent rank ≠ .raised error := by
    intro rank hrank error hphase
    have hok := hinv.ok rank hrank
    rwa [hphase] at hok
  refine ⟨⟨hreturned, fun terminatedRanks hall => ?_⟩, hsound, fun _ _ => run_length_le,
    fun htimely hstuck rank hrank => ?_⟩
  · exact shiftsWithoutGaps fun rank hrank =>
      hreturned rank hrank (terminatedRanks rank) (hall rank hrank)
  · have hstuckAlive : ∀ rank ∈ F.alive, F.step rank c.shared (c.agent rank) .step = none := by
      intro other hother
      have hnone := hstuck other
      simpa [Agents.system, agents, (F.mem_alive.mp hother).1] using hnone
    have hleft := returned_of_stuck hreleased htimely hstuckAlive rank hrank
    generalize hphase : c.agent rank = at_ at hleft
    match at_ with
    | .returned terminatedRanks => exact ⟨terminatedRanks, rfl⟩
    | .raised error => exact absurd hphase (hsound rank hrank error)
    | .barrier b stage => cases b <;> cases stage <;> simp at hleft
    | .timedOut b => exact absurd hphase (htimely rank hrank b)
    | .starting | .counting | .submitting | .checking | .reading => simp at hleft

/-! ## Pairs of ranks -/

/-- Ranks in pairs, of which four are alive; a pair with one alive rank is to go. -/
def pairs : FilterCountGroupedByKey where
  name := ['0']
  keyOrFn rank := Text.decimal (rank / 2)
  condition count := count = 2
  timeout := 60
  worldSize := 8
  terminatedRanks := {1, 4, 5, 6}
  terminated_lt := by decide
  store _ := none
  fresh _ := rfl

/-- All alive ranks add, decide and read one after another. -/
def pairsRun : List (Nat × FilterEvent) :=
  [(0, 3), (2, 3), (3, 3), (7, 4), (0, 5), (2, 4), (3, 4), (7, 6), (7, 3), (3, 3), (2, 3),
    (0, 3)].flatMap fun entry => List.replicate entry.2 (entry.1, .step)

/-- Ranks 0 and 7 have lost their partners. -/
theorem filter_agreement_pairs :
    ∃ c : Agents.Configuration (KeyValue (List Char)) FilterPhase,
      (∀ rank ∈ [0, 2, 3, 7], c.agent rank = .returned {1, 4, 5, 6, 0, 7}) ∧
        pairs.Agreement c := by
  have hrun : (pairs.agents.system.execute (fun _ _ => True) pairs.agents.initial pairsRun).any
      (fun c => ∀ rank ∈ [0, 2, 3, 7], c.agent rank = .returned {1, 4, 5, 6, 0, 7}) = true := by
    decide +kernel
  obtain ⟨c, hc, htest⟩ := System.exists_reachable_of_execute rfl hrun
  have htimeout : pairs.timeout ≠ 0 := by decide
  exact ⟨c, of_decide_eq_true htest, (filter_agreement htimeout hc).1⟩

/-- One pair whose barriers do not wait. -/
def unguardedPair : FilterCountGroupedByKey where
  name := ['0']
  keyOrFn _ := ['0']
  condition count := count = 2
  timeout := 0
  worldSize := 2
  terminatedRanks := ∅
  terminated_lt := by decide
  store _ := none
  fresh _ := rfl

/-- Without the wait the first rank reads a counter that its partner has not reached. -/
theorem zero_timeout_disagrees :
    ¬ ∀ (F : FilterCountGroupedByKey)
        (c : Agents.Configuration (KeyValue (List Char)) FilterPhase),
        F.agents.system.Reachable (fun _ _ => True) c → F.Agreement c := by
  intro hclaim
  have hrun : (unguardedPair.agents.system.execute (fun _ _ => True)
      unguardedPair.agents.initial (List.replicate 11 (0, .step))).any
      (fun c => c.agent 0 = .returned {0}) = true := by
    decide +kernel
  obtain ⟨c, hc, htest⟩ := System.exists_reachable_of_execute rfl hrun
  have hphase : c.agent 0 = .returned {0} := of_decide_eq_true htest
  have hset := (hclaim unguardedPair c hc).1 0 (by decide) _ hphase
  have hempty : unguardedPair.terminatedRanks ∪ unguardedPair.mismatching = ∅ := by decide
  rw [hempty] at hset
  exact absurd hset (by decide)

end FilterCountGroupedByKey

end ResiliencyExt.Inprocess
