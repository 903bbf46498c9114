import ResiliencyExt.Inprocess.GroupedFilter

set_option autoImplicit false

/-!
# Inprocess: the invariant of the grouped filter

A group's counter is final once every alive rank has added to it, and every rank
adds before it arrives at the first barrier.  The list is final once every alive
rank has decided, and every rank decides before it arrives at the second.  So the
invariant follows each rank's position in the call: the counters count the ranks
past a position, and a barrier that is open means that every alive rank is past
its arrival there.
-/

namespace ResiliencyExt.Inprocess

open Foundation Function

/-! ## Positions in the call -/

/-- The position before the arrival at a barrier. -/
@[simp] def FilterBarrier.position : FilterBarrier → Nat
  | .countAlive => 1
  | .submitMismatching => 7

@[simp] def BarrierStage.offset : BarrierStage → Nat
  | .adding => 0
  | .appending _ => 1
  | .completing => 2
  | .waiting => 3

@[simp] def FilterPhase.position : FilterPhase → Nat
  | .starting => 0
  | .barrier b stage => b.position + stage.offset
  | .counting => 5
  | .submitting => 6
  | .checking => 11
  | .reading => 12
  | .returned _ | .raised _ => 13
  | .timedOut b => b.position + 3

namespace FilterCountGroupedByKey

variable {F : FilterCountGroupedByKey}

theorem position_afterBarrier (b : FilterBarrier) :
    (afterBarrier b).position = b.position + 4 := by
  cases b <;> rfl

/-- Every alive rank has arrived at the barrier. -/
def AllArrived (F : FilterCountGroupedByKey) (phase : Nat → FilterPhase) (b : FilterBarrier) :
    Prop :=
  ∀ rank ∈ F.alive, b.position < (phase rank).position

/-- What the phase of an alive rank says about the others. -/
def PhaseOk (F : FilterCountGroupedByKey) (phase : Nat → FilterPhase) (rank : Nat) :
    FilterPhase → Prop
  | .starting | .timedOut _ => True
  | .barrier b stage =>
    (b = .submitMismatching → F.AllArrived phase .countAlive) ∧
      match stage with
      | .adding | .waiting => True
      | .appending arrivedCount =>
        arrivedCount ≤ F.aliveWorldSize ∧
          (arrivedCount = F.aliveWorldSize → F.AllArrived phase b)
      | .completing => F.AllArrived phase b
  | .counting => F.AllArrived phase .countAlive
  | .submitting => F.AllArrived phase .countAlive ∧ F.condition (F.groupSize rank) = false
  | .checking => F.AllArrived phase .submitMismatching
  | .reading => F.AllArrived phase .submitMismatching ∧ F.mismatching ≠ ∅
  | .returned terminatedRanks => terminatedRanks = F.terminatedRanks ∪ F.mismatching
  | .raised _ => False

theorem PhaseOk.mono {phase phase' : Nat → FilterPhase} {rank : Nat} {at_ : FilterPhase}
    (h : ∀ b, F.AllArrived phase b → F.AllArrived phase' b) (hok : F.PhaseOk phase rank at_) :
    F.PhaseOk phase' rank at_ := by
  cases at_ with
  | barrier b stage =>
    refine ⟨fun hb => h _ (hok.1 hb), ?_⟩
    cases stage with
    | appending arrivedCount => exact ⟨hok.2.1, fun heq => h _ (hok.2.2 heq)⟩
    | completing => exact h _ hok.2
    | _ => trivial
  | counting | checking => exact h _ hok
  | submitting | reading => exact ⟨h _ hok.1, hok.2⟩
  | _ => exact hok

/-- A rank has added to the counter of the group. -/
def CountedIn (F : FilterCountGroupedByKey) (key : List Char) (rank : Nat)
    (phase : FilterPhase) : Prop :=
  F.keyOrFn rank = key ∧ 0 < phase.position

instance (key : List Char) (rank : Nat) (phase : FilterPhase) :
    Decidable (F.CountedIn key rank phase) :=
  inferInstanceAs (Decidable (_ ∧ _))

/-- A rank has added to the count of the barrier. -/
def ArrivedAt (b : FilterBarrier) (_rank : Nat) (phase : FilterPhase) : Prop :=
  b.position < phase.position

instance (b : FilterBarrier) (rank : Nat) (phase : FilterPhase) :
    Decidable (ArrivedAt b rank phase) :=
  inferInstanceAs (Decidable (_ < _))

/-- A rank is past its append to the list, and had to make it. -/
def Submitted (F : FilterCountGroupedByKey) (rank : Nat) (phase : FilterPhase) : Prop :=
  rank ∈ F.mismatching ∧ 7 ≤ phase.position

structure Inv (F : FilterCountGroupedByKey) (store : KeyValue (List Char))
    (phase : Nat → FilterPhase) : Prop where
  counter : ∀ key, store.HoldsCount (F.key (.counter key))
    (countPast F.alive (F.CountedIn key) phase)
  arrived : ∀ b, store.HoldsCount (F.key (.barrier b .count))
    (countPast F.alive (ArrivedAt b) phase)
  flag : ∀ b, F.opened store b → F.AllArrived phase b
  log : ∃ log, store.HoldsLog (F.key .ranksToTerminate) log ∧
    ∀ rank, rank ∈ log ↔ F.Submitted rank (phase rank)
  ok : ∀ rank ∈ F.alive, F.PhaseOk phase rank (phase rank)
  terminated : ∀ rank ∈ F.terminatedRanks,
    phase rank = .starting ∨ phase rank = .returned F.terminatedRanks

theorem inv_init (F : FilterCountGroupedByKey) : F.Inv F.store fun _ => .starting where
  counter key := by
    refine Or.inl ⟨F.fresh _, ?_⟩
    simp [countPast, CountedIn]
  arrived b := by
    refine Or.inl ⟨F.fresh _, ?_⟩
    simp [countPast, ArrivedAt]
  flag b h := absurd (F.fresh _) h
  log := by
    refine ⟨[], F.fresh _, fun rank => ?_⟩
    simp [Submitted]
  ok _ _ := trivial
  terminated _ _ := Or.inl rfl

/-! ## What a step can do -/

inductive FilterMove (F : FilterCountGroupedByKey) (rank : Nat)
    (store : KeyValue (List Char)) : FilterPhase → KeyValue (List Char) → FilterPhase → Prop
  | count : FilterMove F rank store .starting
      (store.add (F.key (.counter (F.keyOrFn rank))) 1).1 (.barrier .countAlive .adding)
  | add (b : FilterBarrier) : FilterMove F rank store (.barrier b .adding)
      (store.add (F.key (.barrier b .count)) 1).1
      (.barrier b (.appending (store.add (F.key (.barrier b .count)) 1).2))
  | append (b : FilterBarrier) (arrivedCount : Nat) :
      FilterMove F rank store (.barrier b (.appending arrivedCount))
        (store.append (F.key (.barrier b .arrived)) (Text.entry ',' [Text.decimal rank]))
        (F.afterAppend b arrivedCount)
  | complete (b : FilterBarrier) : FilterMove F rank store (.barrier b .completing)
      (store.set (F.key (.barrier b .lastWorkerArrived)) ['1']) (.barrier b .waiting)
  | pass (b : FilterBarrier) (hopened : F.timeout = 0 ∨ F.opened store b) :
      FilterMove F rank store (.barrier b .waiting) store (afterBarrier b)
  | expire (b : FilterBarrier) :
      FilterMove F rank store (.barrier b .waiting) store (.timedOut b)
  | decide : FilterMove F rank store .counting store (F.decideGroup rank store)
  | submit : FilterMove F rank store .submitting
      (store.append (F.key .ranksToTerminate) (Text.entry ',' [Text.decimal rank]))
      (.barrier .submitMismatching .adding)
  | absent (h : store (F.key .ranksToTerminate) = none) :
      FilterMove F rank store .checking store (.returned F.terminatedRanks)
  | present (h : store (F.key .ranksToTerminate) ≠ none) :
      FilterMove F rank store .checking store .reading
  | collect : FilterMove F rank store .reading store (F.collect store)

/-- A terminated rank returns at once; an alive one makes a move. -/
theorem step_move {rank : Nat} {store next : KeyValue (List Char)}
    {phase phase' : FilterPhase} {event : FilterEvent}
    (h : F.step rank store phase event = some (next, phase')) :
    (rank ∈ F.terminatedRanks ∧ phase = .starting ∧ next = store ∧
      phase' = .returned F.terminatedRanks) ∨
    ((phase = .starting → rank ∉ F.terminatedRanks) ∧
      F.FilterMove rank store phase next phase') := by
  unfold step at h
  split at h
  · split at h
    · rename_i hmem
      cases h
      exact Or.inl ⟨hmem, rfl, rfl, rfl⟩
    · rename_i hnot
      cases h
      exact Or.inr ⟨fun _ => hnot, .count⟩
  · cases h
    exact Or.inr ⟨nofun, .add _⟩
  · cases h
    exact Or.inr ⟨nofun, .append _ _⟩
  · cases h
    exact Or.inr ⟨nofun, .complete _⟩
  · split at h
    · rename_i hopened
      cases h
      exact Or.inr ⟨nofun, .pass _ hopened⟩
    · cases h
  · split at h
    · cases h
      exact Or.inr ⟨nofun, .expire _⟩
    · cases h
  · cases h
    exact Or.inr ⟨nofun, .decide⟩
  · cases h
    exact Or.inr ⟨nofun, .submit⟩
  · split at h
    · rename_i habsent
      cases h
      exact Or.inr ⟨nofun, .absent habsent⟩
    · rename_i hpresent
      cases h
      exact Or.inr ⟨nofun, .present hpresent⟩
  · cases h
    exact Or.inr ⟨nofun, .collect⟩
  · cases h

/-! ## Steps and the invariant -/

theorem key_ne {k k' : FilterKey} (h : k ≠ k') : F.key k ≠ F.key k' :=
  fun heq => h (FilterKey.format_injective F.name heq)

theorem opened_of_eq {store store' : KeyValue (List Char)} {b : FilterBarrier}
    (h : F.opened store' b)
    (heq : store' (F.key (.barrier b .lastWorkerArrived)) =
      store (F.key (.barrier b .lastWorkerArrived))) : F.opened store b := by
  rwa [opened, ← heq]

theorem opened_keep {store store' : KeyValue (List Char)} {b : FilterBarrier}
    (h : F.opened store b)
    (heq : store' (F.key (.barrier b .lastWorkerArrived)) =
      store (F.key (.barrier b .lastWorkerArrived))) : F.opened store' b := by
  rwa [opened, heq]

theorem AllArrived.update {phase : Nat → FilterPhase} {rank : Nat} {next : FilterPhase}
    (hmono : rank ∈ F.alive → (phase rank).position ≤ next.position) {b : FilterBarrier}
    (h : F.AllArrived phase b) : F.AllArrived (update phase rank next) b := by
  intro other hother
  have hbefore := h other hother
  rcases eq_or_ne other rank with rfl | hne
  · rw [update_self]
    exact Nat.lt_of_lt_of_le hbefore (hmono hother)
  · rwa [update_of_ne hne]

variable {store store' : KeyValue (List Char)} {phase : Nat → FilterPhase} {rank : Nat}
  {next : FilterPhase}

variable {b : FilterBarrier}

section

variable (hinv : F.Inv store phase)
include hinv

/-- What is left to prove of a step: the keys it writes, and its own phase. -/
theorem Inv.frame (hmono : rank ∈ F.alive → (phase rank).position ≤ next.position)
    (hcounter : ∀ key, store'.HoldsCount (F.key (.counter key))
      (countPast F.alive (F.CountedIn key) (update phase rank next)))
    (harrived : ∀ b, store'.HoldsCount (F.key (.barrier b .count))
      (countPast F.alive (ArrivedAt b) (update phase rank next)))
    (hflag : ∀ b, F.opened store' b → F.AllArrived phase b)
    (hlog : ∃ log, store'.HoldsLog (F.key .ranksToTerminate) log ∧
      ∀ other, other ∈ log ↔ F.Submitted other (update phase rank next other))
    (hok : rank ∈ F.alive → F.PhaseOk (update phase rank next) rank next)
    (hterm : rank ∈ F.terminatedRanks → next = .returned F.terminatedRanks) :
    F.Inv store' (update phase rank next) where
  counter := hcounter
  arrived := harrived
  flag b h := (hflag b h).update hmono
  log := hlog
  ok := by
    intro other hother
    rcases eq_or_ne other rank with rfl | hne
    · rw [update_self]
      exact hok hother
    · rw [update_of_ne hne]
      exact (hinv.ok other hother).mono fun b h => h.update hmono
  terminated := by
    intro other hother
    rcases eq_or_ne other rank with rfl | hne
    · rw [update_self]
      exact Or.inr (hterm hother)
    · rw [update_of_ne hne]
      exact hinv.terminated other hother

/-- A step that moves its rank past no milestone keeps the counters. -/
theorem Inv.counter_update (key : List Char)
    (hstore : store' (F.key (.counter key)) = store (F.key (.counter key)))
    (h : rank ∈ F.alive → (0 < next.position ↔ 0 < (phase rank).position)) :
    store'.HoldsCount (F.key (.counter key))
      (countPast F.alive (F.CountedIn key) (update phase rank next)) := by
  rw [countPast_update_of_iff fun hmem => and_congr_right fun _ => h hmem]
  exact (hinv.counter key).congr hstore

theorem Inv.arrived_update (b : FilterBarrier)
    (hstore : store' (F.key (.barrier b .count)) = store (F.key (.barrier b .count)))
    (h : rank ∈ F.alive → (b.position < next.position ↔ b.position < (phase rank).position)) :
    store'.HoldsCount (F.key (.barrier b .count))
      (countPast F.alive (ArrivedAt b) (update phase rank next)) := by
  rw [countPast_update_of_iff h]
  exact (hinv.arrived b).congr hstore

theorem Inv.log_update
    (hstore : store' (F.key .ranksToTerminate) = store (F.key .ranksToTerminate))
    (h : rank ∈ F.mismatching → (7 ≤ next.position ↔ 7 ≤ (phase rank).position)) :
    ∃ log, store'.HoldsLog (F.key .ranksToTerminate) log ∧
      ∀ other, other ∈ log ↔ F.Submitted other (update phase rank next other) := by
  obtain ⟨log, hlog, hmem⟩ := hinv.log
  refine ⟨log, hlog.congr hstore, fun other => (hmem other).trans ?_⟩
  rcases eq_or_ne other rank with rfl | hne
  · rw [update_self]
    exact (and_congr_right fun hmis => h hmis).symm
  · rw [update_of_ne hne]

/-- A step that writes no counter and no list, and moves past no milestone. -/
theorem Inv.quiet (hrank : rank ∈ F.alive) (hmono : (phase rank).position ≤ next.position)
    (hpos : 0 < (phase rank).position)
    (hcross : ∀ b : FilterBarrier, b.position < next.position → b.position < (phase rank).position)
    (hsubmit : rank ∈ F.mismatching → 7 ≤ next.position → 7 ≤ (phase rank).position)
    (hstore : ∀ key : FilterKey, (∀ b part, key = .barrier b part → part = .count) →
      store' (F.key key) = store (F.key key))
    (hflag : ∀ b, F.opened store' b → F.AllArrived phase b)
    (hok : F.PhaseOk (update phase rank next) rank next) :
    F.Inv store' (update phase rank next) := by
  refine hinv.frame (fun _ => hmono) (fun key => ?_) (fun b => ?_) hflag ?_ (fun _ => hok) ?_
  · exact hinv.counter_update key (hstore _ nofun) fun _ => ⟨fun _ => hpos, fun h => by omega⟩
  · refine hinv.arrived_update b (hstore _ ?_) fun _ => ⟨hcross b, fun h => by omega⟩
    rintro _ _ ⟨⟩
    rfl
  · exact hinv.log_update (hstore _ nofun) fun h => ⟨hsubmit h, fun h => by omega⟩
  · exact fun hterm => absurd hterm (F.mem_alive.mp hrank).2

/-- The counter of a group is final once every alive rank has arrived. -/
theorem Inv.counter_final (h : F.AllArrived phase .countAlive) (hrank : rank ∈ F.alive) :
    store (F.key (.counter (F.keyOrFn rank))) = some (Text.decimal (F.groupSize rank)) := by
  have hcount : countPast F.alive (F.CountedIn (F.keyOrFn rank)) phase = F.groupSize rank := by
    refine congrArg Finset.card (Finset.filter_congr fun other hother => ?_)
    refine and_iff_left ?_
    have harrived := h other hother
    omega
  have hpos : 0 < F.groupSize rank :=
    Finset.card_pos.mpr ⟨rank, Finset.mem_filter.mpr ⟨hrank, rfl⟩⟩
  rw [← hcount] at hpos ⊢
  exact (hinv.counter _).eq_some hpos

/-- What the first barrier guards: the read finds the size of the group. -/
theorem Inv.decideGroup_eq (h : F.AllArrived phase .countAlive) (hrank : rank ∈ F.alive) :
    F.decideGroup rank store =
      if F.condition (F.groupSize rank) then .barrier .submitMismatching .adding
      else .submitting := by
  rw [decideGroup, hinv.counter_final h hrank]
  simp only [Text.parseInt_decimal, Int.toNat_natCast]

/-- The list is final once every alive rank has arrived at the second barrier. -/
theorem Inv.log_final (h : F.AllArrived phase .submitMismatching) :
    ∃ log, store.HoldsLog (F.key .ranksToTerminate) log ∧ log.toFinset = F.mismatching := by
  obtain ⟨log, hlog, hmem⟩ := hinv.log
  refine ⟨log, hlog, Finset.ext fun other => ?_⟩
  rw [List.mem_toFinset, hmem]
  refine and_iff_left_of_imp fun hmis => ?_
  have harrived := h other (Finset.mem_filter.mp hmis).1
  exact Nat.le_of_lt harrived

/-- The key of the list exists exactly when some rank is mismatching. -/
theorem Inv.present_iff (h : F.AllArrived phase .submitMismatching) :
    store (F.key .ranksToTerminate) = none ↔ F.mismatching = ∅ := by
  obtain ⟨log, hlog, hset⟩ := hinv.log_final h
  rw [← hset, List.toFinset_eq_empty_iff, hlog]
  simp

/-- What the second barrier guards: the list names the mismatching ranks. -/
theorem Inv.collect_eq (h : F.AllArrived phase .submitMismatching) (hne : F.mismatching ≠ ∅) :
    F.collect store = .returned (F.terminatedRanks ∪ F.mismatching) := by
  obtain ⟨log, hlog, hset⟩ := hinv.log_final h
  have hlogne : log ≠ [] := by
    rintro rfl
    exact hne hset.symm
  rw [KeyValue.HoldsLog, if_neg hlogne] at hlog
  rw [collect, hlog]
  simp only [Text.unpack_entries_singleton hlogne, Text.mapM_parseInt_decimal]
  have hback : (log.map fun n : Nat => (n : Int)).map Int.toNat = log := by
    simp [comp_def]
  rw [hback, hset]

/-! ## One lemma for each move -/

theorem Inv.count (hrank : rank ∈ F.alive) (hphase : phase rank = .starting) :
    F.Inv (store.add (F.key (.counter (F.keyOrFn rank))) 1).1
      (update phase rank (.barrier .countAlive .adding)) := by
  have hpos : (phase rank).position = 0 := by rw [hphase]; rfl
  refine hinv.frame (fun _ => by rw [hpos]; exact Nat.zero_le _) (fun key => ?_) (fun b => ?_)
    (fun b h => hinv.flag b (opened_of_eq h (store.add_of_ne 1 (key_ne nofun)))) ?_
    (fun _ => ⟨nofun, trivial⟩) ?_
  · by_cases hkey : F.keyOrFn rank = key
    · subst hkey
      rw [countPast_update_succ hrank (fun h => by have := h.2; omega) ⟨rfl, Nat.one_pos⟩]
      exact (hinv.counter _).add 1
    · have hother : F.key (.counter key) ≠ F.key (.counter (F.keyOrFn rank)) :=
        key_ne fun h => hkey (FilterKey.counter.inj h).symm
      rw [countPast_update_of_iff fun _ => ⟨fun h => absurd h.1 hkey, fun h => absurd h.1 hkey⟩]
      exact (hinv.counter key).congr (store.add_of_ne 1 hother)
  · refine hinv.arrived_update b (store.add_of_ne 1 (key_ne nofun)) fun _ => ?_
    rw [hpos]
    cases b <;> simp
  · refine hinv.log_update (store.add_of_ne 1 (key_ne nofun)) fun _ => ?_
    rw [hpos]
    simp
  · exact fun hterm => absurd hterm (F.mem_alive.mp hrank).2

/-- The count that `add` returns is that of the ranks that have arrived by then. -/
theorem Inv.arrivedCount_eq (hrank : rank ∈ F.alive) (hphase : phase rank = .barrier b .adding)
    (next : FilterPhase) (hnext : b.position < next.position) :
    (store.add (F.key (.barrier b .count)) 1).2 =
      countPast F.alive (ArrivedAt b) (update phase rank next) := by
  have hbefore : ¬ ArrivedAt b rank (phase rank) := by
    rw [hphase, ArrivedAt]
    exact Nat.lt_irrefl _
  rw [countPast_update_succ hrank hbefore hnext, (hinv.arrived b).snd_add]

theorem Inv.add (hrank : rank ∈ F.alive) (hphase : phase rank = .barrier b .adding) :
    F.Inv (store.add (F.key (.barrier b .count)) 1).1
      (update phase rank
        (.barrier b (.appending (store.add (F.key (.barrier b .count)) 1).2))) := by
  have hpos : (phase rank).position = b.position := by rw [hphase]; rfl
  have hvalue := hinv.arrivedCount_eq hrank hphase
  set count := (store.add (F.key (.barrier b .count)) 1).2 with hcount
  have hnext : (FilterPhase.barrier b (.appending count)).position = b.position + 1 := rfl
  have hvalue := hvalue (.barrier b (.appending count)) (by rw [hnext]; omega)
  refine hinv.frame (fun _ => by rw [hpos, hnext]; omega) (fun key => ?_) (fun b' => ?_)
    (fun b' h => hinv.flag b' (opened_of_eq h (store.add_of_ne 1 (key_ne nofun)))) ?_
    (fun _ => ⟨?_, ?_, fun hall => ?_⟩) ?_
  · refine hinv.counter_update key (store.add_of_ne 1 (key_ne nofun)) fun _ => ?_
    rw [hpos, hnext]
    cases b <;> simp
  · by_cases hb : b' = b
    · subst hb
      rw [← hvalue, hcount, (hinv.arrived b').snd_add]
      exact (hinv.arrived b').add 1
    · refine hinv.arrived_update b' (store.add_of_ne 1 (key_ne fun h => ?_)) fun _ => ?_
      · exact hb (FilterKey.barrier.inj h).1
      · rw [hpos, hnext]
        cases b <;> cases b' <;> simp at hb ⊢
  · refine hinv.log_update (store.add_of_ne 1 (key_ne nofun)) fun _ => ?_
    rw [hpos, hnext]
    cases b <;> simp
  · intro hb
    have hok := hinv.ok rank hrank
    rw [hphase] at hok
    exact (hok.1 hb).update fun _ => by rw [hpos, hnext]; omega
  · rw [hvalue, ← F.card_alive]
    exact countPast_le
  · rw [hvalue, ← F.card_alive] at hall
    exact countPast_eq_card_iff.mp hall
  · exact fun hterm => absurd hterm (F.mem_alive.mp hrank).2

end

theorem Inv.append {arrivedCount : Nat} (hinv : F.Inv store phase) (hrank : rank ∈ F.alive)
    (hphase : phase rank = .barrier b (.appending arrivedCount)) :
    F.Inv (store.append (F.key (.barrier b .arrived)) (Text.entry ',' [Text.decimal rank]))
      (update phase rank (F.afterAppend b arrivedCount)) := by
  have hpos : (phase rank).position = b.position + 1 := by rw [hphase]; rfl
  obtain ⟨hfirst, hle, hall⟩ : F.PhaseOk phase rank (.barrier b (.appending arrivedCount)) := by
    rw [← hphase]
    exact hinv.ok rank hrank
  have hstage : ∃ stage, F.afterAppend b arrivedCount = .barrier b stage ∧
      1 < stage.offset ∧ stage.offset < 4 ∧
      (stage = .completing ∧ F.AllArrived phase b ∨ stage = .waiting) := by
    rw [afterAppend, if_neg (by omega)]
    split
    · rename_i heq
      exact ⟨.completing, rfl, by decide, by decide, Or.inl ⟨rfl, hall heq⟩⟩
    · exact ⟨.waiting, rfl, by decide, by decide, Or.inr rfl⟩
  obtain ⟨stage, hafter, hlow, hhigh, hcases⟩ := hstage
  have hnext : (FilterPhase.barrier b stage).position = b.position + stage.offset := rfl
  have hmono : (phase rank).position ≤ (FilterPhase.barrier b stage).position := by
    rw [hpos, hnext]
    omega
  rw [hafter]
  refine hinv.quiet hrank hmono (by rw [hpos]; omega) (fun b' => ?_) (fun _ => ?_)
    (fun key hkey => store.append_of_ne _ (key_ne fun h => ?_)) (fun b' h => hinv.flag b'
      (opened_of_eq h (store.append_of_ne _ (key_ne nofun)))) ⟨fun hb => ?_, ?_⟩
  · rw [hpos, hnext]
    cases b <;> cases b' <;> simp only [FilterBarrier.position] <;> omega
  · rw [hpos, hnext]
    cases b <;> simp only [FilterBarrier.position] <;> omega
  · exact nomatch hkey _ _ h
  · exact (hfirst hb).update fun _ => hmono
  · rcases hcases with ⟨rfl, harrived⟩ | rfl
    · exact harrived.update fun _ => hmono
    · trivial

section

variable (hinv : F.Inv store phase) (hrank : rank ∈ F.alive)
include hinv hrank

theorem Inv.complete (hphase : phase rank = .barrier b .completing) :
    F.Inv (store.set (F.key (.barrier b .lastWorkerArrived)) ['1'])
      (update phase rank (.barrier b .waiting)) := by
  have hpos : (phase rank).position = b.position + 2 := by rw [hphase]; rfl
  have hnext : (FilterPhase.barrier b .waiting).position = b.position + 3 := rfl
  obtain ⟨hfirst, hall⟩ : F.PhaseOk phase rank (.barrier b .completing) := by
    rw [← hphase]
    exact hinv.ok rank hrank
  have hmono : (phase rank).position ≤ (FilterPhase.barrier b .waiting).position := by
    rw [hpos, hnext]
    omega
  refine hinv.quiet hrank hmono (by rw [hpos]; omega) (fun b' => ?_) (fun _ => ?_)
    (fun key hkey => store.set_of_ne _ (key_ne fun h => ?_)) (fun b' h => ?_)
    ⟨fun hb => (hfirst hb).update fun _ => hmono, trivial⟩
  · rw [hpos, hnext]
    cases b <;> cases b' <;> simp only [FilterBarrier.position] <;> omega
  · rw [hpos, hnext]
    cases b <;> simp only [FilterBarrier.position] <;> omega
  · exact nomatch hkey _ _ h
  · by_cases hb : b' = b
    · subst hb
      exact hall
    · refine hinv.flag b' (opened_of_eq h (store.set_of_ne _ (key_ne fun heq => ?_)))
      exact hb (FilterKey.barrier.inj heq).1

/-- A step of an alive rank that leaves the store alone. -/
theorem Inv.local_step (hmono : (phase rank).position ≤ next.position)
    (hpos : 0 < (phase rank).position)
    (hcross : ∀ b : FilterBarrier, b.position < next.position → b.position < (phase rank).position)
    (hsubmit : rank ∈ F.mismatching → 7 ≤ next.position → 7 ≤ (phase rank).position)
    (hok : F.PhaseOk phase rank next) : F.Inv store (update phase rank next) :=
  hinv.quiet hrank hmono hpos hcross hsubmit (fun _ _ => rfl) hinv.flag
    (hok.mono fun _ h => h.update fun _ => hmono)

theorem Inv.pass (hphase : phase rank = .barrier b .waiting) (hopened : F.opened store b) :
    F.Inv store (update phase rank (afterBarrier b)) := by
  have hpos : (phase rank).position = b.position + 3 := by rw [hphase]; rfl
  have hall := hinv.flag b hopened
  refine hinv.local_step hrank ?_ (by rw [hpos]; omega) (fun b' => ?_) (fun _ => ?_) ?_
  · rw [hpos, position_afterBarrier]
    omega
  · rw [hpos, position_afterBarrier]
    cases b <;> cases b' <;> simp only [FilterBarrier.position] <;> omega
  · rw [hpos, position_afterBarrier]
    cases b <;> simp only [FilterBarrier.position] <;> omega
  · cases b <;> exact hall

theorem Inv.expire (hphase : phase rank = .barrier b .waiting) :
    F.Inv store (update phase rank (.timedOut b)) := by
  have hpos : (phase rank).position = (FilterPhase.timedOut b).position := by rw [hphase]; rfl
  have hpositive : 0 < (FilterPhase.timedOut b).position := Nat.succ_pos _
  exact hinv.local_step hrank (by omega) (by omega) (fun b' h => by omega) (fun _ h => by omega)
    trivial

theorem Inv.decide (hphase : phase rank = .counting) :
    F.Inv store (update phase rank (F.decideGroup rank store)) := by
  have hpos : (phase rank).position = 5 := by rw [hphase]; rfl
  have hall : F.AllArrived phase .countAlive := by
    have hok := hinv.ok rank hrank
    rwa [hphase] at hok
  rw [hinv.decideGroup_eq hall hrank]
  cases hcondition : F.condition (F.groupSize rank) with
  | true =>
    refine hinv.local_step hrank (by rw [hpos]; decide) (by omega) (fun b' h => ?_)
      (fun hmis _ => ?_) ⟨fun _ => hall, trivial⟩
    · rw [hpos]
      cases b' <;> simp_all
    · have hfails := (Finset.mem_filter.mp hmis).2
      rw [hcondition] at hfails
      cases hfails
  | false =>
    refine hinv.local_step hrank (by rw [hpos]; decide) (by omega) (fun b' h => ?_)
      (fun _ h => ?_) ⟨hall, hcondition⟩
    · rw [hpos]
      cases b' <;> simp_all
    · simp at h

theorem Inv.submit (hphase : phase rank = .submitting) :
    F.Inv (store.append (F.key .ranksToTerminate) (Text.entry ',' [Text.decimal rank]))
      (update phase rank (.barrier .submitMismatching .adding)) := by
  have hpos : (phase rank).position = 6 := by rw [hphase]; rfl
  obtain ⟨hall, hcondition⟩ : F.PhaseOk phase rank .submitting := by
    rw [← hphase]
    exact hinv.ok rank hrank
  have hmis : rank ∈ F.mismatching := Finset.mem_filter.mpr ⟨hrank, hcondition⟩
  have hmono : (phase rank).position ≤
      (FilterPhase.barrier .submitMismatching .adding).position := by
    rw [hpos]
    decide
  refine hinv.frame (fun _ => hmono) (fun key => ?_) (fun b => ?_)
    (fun b h => hinv.flag b (opened_of_eq h (store.append_of_ne _ (key_ne nofun)))) ?_
    (fun _ => ⟨fun _ => hall.update fun _ => hmono, trivial⟩) ?_
  · refine hinv.counter_update key (store.append_of_ne _ (key_ne nofun)) fun _ => ?_
    rw [hpos]
    decide
  · refine hinv.arrived_update b (store.append_of_ne _ (key_ne nofun)) fun _ => ?_
    rw [hpos]
    cases b <;> decide
  · obtain ⟨log, hlog, hmem⟩ := hinv.log
    refine ⟨log ++ [rank], hlog.append rank, fun other => ?_⟩
    rw [List.mem_append, List.mem_singleton, hmem]
    rcases eq_or_ne other rank with rfl | hne
    · rw [update_self]
      exact ⟨fun _ => ⟨hmis, by decide⟩, fun _ => Or.inr rfl⟩
    · rw [update_of_ne hne]
      exact or_iff_left hne
  · exact fun hterm => absurd hterm (F.mem_alive.mp hrank).2

theorem Inv.finish (hpos : 11 ≤ (phase rank).position)
    (hmono : (phase rank).position ≤ next.position) (hok : F.PhaseOk phase rank next) :
    F.Inv store (update phase rank next) :=
  hinv.local_step hrank hmono (by omega)
    (fun b' _ => by cases b' <;> simp only [FilterBarrier.position] <;> omega)
    (fun _ _ => by omega) hok

end

theorem Inv.move (hinv : F.Inv store phase) (htimeout : F.timeout ≠ 0) (hrank : rank ∈ F.alive)
    (hmove : F.FilterMove rank store (phase rank) store' next) :
    F.Inv store' (update phase rank next) := by
  have hok := hinv.ok rank hrank
  generalize hphase : phase rank = before at hmove hok
  cases hmove with
  | count => exact hinv.count hrank hphase
  | add b => exact hinv.add hrank hphase
  | append b arrivedCount => exact hinv.append hrank hphase
  | complete b => exact hinv.complete hrank hphase
  | pass b hopened => exact hinv.pass hrank hphase (hopened.resolve_left htimeout)
  | expire b => exact hinv.expire hrank hphase
  | decide => exact hinv.decide hrank hphase
  | submit => exact hinv.submit hrank hphase
  | absent habsent =>
    refine hinv.finish hrank (by rw [hphase]; decide)
      (by rw [hphase]; exact Nat.le_add_right 11 2) ?_
    have hempty := (hinv.present_iff hok).mp habsent
    rw [PhaseOk, hempty, Finset.union_empty]
  | present hpresent =>
    refine hinv.finish hrank (by rw [hphase]; decide) (by rw [hphase]; decide) ⟨hok, ?_⟩
    exact fun hempty => hpresent ((hinv.present_iff hok).mpr hempty)
  | collect =>
    rw [hinv.collect_eq hok.1 hok.2]
    exact hinv.finish hrank (by rw [hphase]; decide)
      (by rw [hphase]; exact Nat.le_add_right 12 1) rfl

/-- A terminated rank returns what it was given. -/
theorem Inv.skip (hinv : F.Inv store phase) (hrank : rank ∈ F.terminatedRanks) :
    F.Inv store (update phase rank (.returned F.terminatedRanks)) := by
  have hnot : rank ∉ F.alive := fun h => (F.mem_alive.mp h).2 hrank
  have hmis : rank ∉ F.mismatching := fun h => hnot (Finset.mem_filter.mp h).1
  exact hinv.frame (fun h => absurd h hnot)
    (fun key => hinv.counter_update key rfl fun h => absurd h hnot)
    (fun b => hinv.arrived_update b rfl fun h => absurd h hnot) hinv.flag
    (hinv.log_update rfl fun h => absurd h hmis) (fun h => absurd h hnot) fun _ => rfl

end FilterCountGroupedByKey

end ResiliencyExt.Inprocess
