import Mathlib.Algebra.GroupWithZero.Nat
import Mathlib.Algebra.Order.BigOperators.Group.List
import Mathlib.Algebra.Order.Group.Nat
import ResiliencyExt.Attribution.TraceAnalyzer.WindowGroups

set_option autoImplicit false

/-!
# Trace analyzer: what the grouping by windows keeps

The loops of `group_collectives_by_windows` place one collective after another.  The log of
these placements carries the argument: a rank has placed a beginning of its trace, the groups
are the placements by their keys, and the windows of a process group go up by one at a time.
Every round places a collective, so that the loops end.
-/

namespace ResiliencyExt.Attribution.TraceAnalyzer

open Foundation List Function

/-! ## Where a collective goes -/

/-- A collective of a rank in a window of its process group. -/
structure Placement where
  rank : List Char
  collective : Collective
  window : Nat

def Placement.pgKey (p : Placement) : PgKey :=
  p.collective.pgKey

def Placement.key (p : Placement) : WindowKey :=
  (p.pgKey, p.window)

/-- The groups hold what was placed, and every rank has the rest of its collectives before it. -/
structure Placed (collectives : CollectivesByFile) (log : List Placement) (s : WindowState) :
    Prop where
  traces : ∀ rank, (log.filter fun p => p.rank = rank).map Placement.collective ++
    s.remaining rank = collectives.trace rank
  groups : Dict.Groups Placement.key [] (fun group p => group ++ [p.collective]) log
    s.matchedGroups
  participants : ∀ key, s.pgWindowParticipants key ≠ [] → ∃ p ∈ log, p.key = key

/-- Collectives were placed in a window only. -/
structure PlacedIn (window : WindowKey) (log log' : List Placement) (s s' : WindowState) :
    Prop where
  more : ∃ more, log' = log ++ more ∧ ∀ p ∈ more, p.key = window
  counter : s'.pgWindowCounter = s.pgWindowCounter

variable {collectives : CollectivesByFile} {log : List Placement} {s : WindowState}
  {ranks : List (List Char)} {window : WindowKey}

variable {s' : WindowState} {rank : List Char} {c : Collective} {fuel : Nat} {pg : PgKey}
    {more : List Placement} {α : Type}

theorem PlacedIn.refl (window : WindowKey) (log : List Placement) (s : WindowState) :
    PlacedIn window log log s s :=
  ⟨⟨[], (append_nil _).symm, fun _ h => absurd h not_mem_nil⟩, rfl⟩

theorem PlacedIn.trans {log' log'' : List Placement} {s'' : WindowState}
    (h : PlacedIn window log log' s s') (h' : PlacedIn window log' log'' s' s'') :
    PlacedIn window log log'' s s'' := by
  obtain ⟨more, rfl, hmore⟩ := h.more
  obtain ⟨more', rfl, hmore'⟩ := h'.more
  refine ⟨⟨more ++ more', append_assoc _ _ _, fun p hp => ?_⟩, h'.counter.trans h.counter⟩
  exact (mem_append.mp hp).elim (hmore p) (hmore' p)

theorem Placed.place (h : Placed collectives log s) {rest : List Collective}
    (hrest : s.remaining rank = c :: rest) (hkey : c.pgKey = window.1) :
    Placed collectives (log ++ [⟨rank, c, window.2⟩]) (s.place rank c rest window) where
  traces := by
    intro other
    rw [filter_append, map_append, append_assoc]
    rcases eq_or_ne other rank with rfl | hne
    · have hone : (List.filter (fun p : Placement => p.rank = other) [⟨other, c, window.2⟩]) =
          [⟨other, c, window.2⟩] := filter_cons_of_pos (by simp)
      rw [hone, ← h.traces other, hrest]
      exact congrArg (_ ++ ·) (congrArg (c :: ·) (update_self ..))
    · have hnone : (List.filter (fun p : Placement => p.rank = other) [⟨rank, c, window.2⟩]) =
          [] := filter_cons_of_neg (by simpa using hne.symm)
      rw [hnone, ← h.traces other]
      exact congrArg (_ ++ ·) (update_of_ne hne ..)
  groups := by
    have hplaced := h.groups.alter ⟨rank, c, window.2⟩
    have hwindow : Placement.key ⟨rank, c, window.2⟩ = window := Prod.ext hkey rfl
    rwa [hwindow] at hplaced
  participants := by
    intro key hne
    rcases eq_or_ne key window with rfl | hother
    · exact ⟨_, mem_append_right _ mem_cons_self, Prod.ext hkey rfl⟩
    · have hsame : (s.place rank c rest window).pgWindowParticipants key =
          s.pgWindowParticipants key := update_of_ne hother ..
      rw [hsame] at hne
      obtain ⟨p, hp, hpkey⟩ := h.participants key hne
      exact ⟨p, mem_append_left _ hp, hpkey⟩

/-! ## One sweep over the ranks -/

/-- The rank is at a collective of the process group. -/
def AtPg (s : WindowState) (pg : PgKey) (rank : List Char) : Prop :=
  (s.remaining rank).head?.map Collective.pgKey = some pg

/-- How many collectives the ranks have before them. -/
def left (ranks : List (List Char)) (s : WindowState) : Nat :=
  (ranks.map fun rank => (s.remaining rank).length).sum

theorem left_place_lt (window : WindowKey) {rest : List Collective} (hmem : rank ∈ ranks)
    (hrest : s.remaining rank = c :: rest) :
    left ranks (s.place rank c rest window) < left ranks s := by
  refine sum_lt_sum _ _ (fun other _ => ?_) ⟨rank, hmem, ?_⟩
  · rcases eq_or_ne other rank with rfl | hne
    · change (update s.remaining other rest other).length ≤ _
      rw [update_self, hrest]
      exact Nat.le_succ _
    · exact (congrArg List.length (update_of_ne hne ..)).le
  · change (update s.remaining rank rest rank).length < _
    rw [update_self, hrest]
    exact Nat.lt_succ_self _

/-- What the loop over the ranks does for a rank. -/
theorem takeNext_cases (window : WindowKey) (acc : WindowState × Bool) (rank : List Char) :
    (∃ c rest, acc.1.remaining rank = c :: rest ∧ c.pgKey = window.1 ∧
        WindowState.takeNext window acc rank = (acc.1.place rank c rest window, true)) ∨
      ¬ AtPg acc.1 window.1 rank ∧ WindowState.takeNext window acc rank = acc := by
  unfold WindowState.takeNext AtPg
  cases hrest : acc.1.remaining rank with
  | nil => exact .inr ⟨(Option.some_ne_none _).symm, rfl⟩
  | cons c rest =>
    dsimp only
    split
    · next hkey => exact .inl ⟨c, rest, rfl, hkey, rfl⟩
    · next hkey => exact .inr ⟨fun h => hkey (Option.some.inj h), rfl⟩

/-- A sweep finds no rank at the process group, or it places a collective. -/
theorem sweep_spec (window : WindowKey) {todo : List (List Char)} (hsub : todo ⊆ ranks) :
    ∀ (acc : WindowState × Bool) {log : List Placement}, Placed collectives log acc.1 →
      ∃ log', Placed collectives log' (todo.foldl (WindowState.takeNext window) acc).1 ∧
        PlacedIn window log log' acc.1 (todo.foldl (WindowState.takeNext window) acc).1 ∧
        (todo.foldl (WindowState.takeNext window) acc = acc ∧
            (∀ rank ∈ todo, ¬ AtPg acc.1 window.1 rank) ∨
          (todo.foldl (WindowState.takeNext window) acc).2 = true ∧
            left ranks (todo.foldl (WindowState.takeNext window) acc).1 < left ranks acc.1 ∧
              log.length < log'.length) := by
  induction todo with
  | nil =>
    intro acc log h
    exact ⟨log, h, .refl _ _ _, .inl ⟨rfl, fun _ hrank => absurd hrank not_mem_nil⟩⟩
  | cons rank todo ih =>
    obtain ⟨hmem, hsub⟩ := cons_subset.mp hsub
    intro acc log h
    rw [foldl_cons]
    rcases takeNext_cases window acc rank with ⟨c, rest, hrest, hkey, htake⟩ | ⟨hnot, htake⟩
    · rw [htake]
      have hless := left_place_lt window hmem hrest
      have hin : PlacedIn window log (log ++ [⟨rank, c, window.2⟩]) acc.1
          (acc.1.place rank c rest window) :=
        ⟨⟨_, rfl, fun p hp => mem_singleton.mp hp ▸ Prod.ext hkey rfl⟩, rfl⟩
      obtain ⟨log', hplaced, hin', hswept⟩ := ih hsub
        (acc.1.place rank c rest window, true) (h.place hrest hkey)
      refine ⟨log', hplaced, hin.trans hin', .inr ?_⟩
      have hgrown : log.length < log'.length := by
        obtain ⟨more, rfl, _⟩ := hin'.more
        simp only [length_append, length_singleton]
        omega
      rcases hswept with ⟨hsame, _⟩ | ⟨htrue, hless', _⟩
      · rw [hsame]
        exact ⟨rfl, hless, hgrown⟩
      · exact ⟨htrue, hless'.trans hless, hgrown⟩
    · rw [htake]
      obtain ⟨log', hplaced, hin, hswept⟩ := ih hsub acc h
      refine ⟨log', hplaced, hin, hswept.imp_left fun ⟨hsame, hnone⟩ => ⟨hsame, ?_⟩⟩
      exact forall_mem_cons.mpr ⟨hnot, hnone⟩

/-- Sweeps end, with at least one collective placed when a rank is at the process group. -/
theorem takeWindow_spec (window : WindowKey) :
    ∀ (s : WindowState) {log : List Placement}, left ranks s < fuel → Placed collectives log s →
      ∃ s' log', WindowState.takeWindow ranks window fuel s = some s' ∧
        Placed collectives log' s' ∧ PlacedIn window log log' s s' ∧
          left ranks s' ≤ left ranks s ∧
            ((∃ rank ∈ ranks, AtPg s window.1 rank) →
              left ranks s' < left ranks s ∧ log.length < log'.length) := by
  induction fuel with
  | zero => exact fun _ _ h => absurd h (Nat.not_lt_zero _)
  | succ fuel ih =>
    intro s log hfuel h
    have hsweep := sweep_spec window (List.Subset.refl ranks) (s, false) h
    dsimp only at hsweep
    obtain ⟨swept, hplaced, hin, hcases⟩ := hsweep
    unfold WindowState.takeWindow
    rcases hcases with ⟨hsame, hnone⟩ | ⟨htrue, hless, hgrown⟩
    · rw [hsame] at hplaced hin ⊢
      exact ⟨s, swept, rfl, hplaced, hin, Nat.le_refl _,
        fun ⟨rank, hrank, hat⟩ => absurd hat (hnone rank hrank)⟩
    · obtain ⟨s', log', hrun, hplaced', hin', hle, _⟩ := ih _ (by omega) hplaced
      rw [if_pos htrue]
      refine ⟨s', log', hrun, hplaced', hin.trans hin', by omega, fun _ => ⟨by omega, ?_⟩⟩
      obtain ⟨more, rfl, _⟩ := hin'.more
      rw [length_append]
      omega

/-! ## One round -/

/-- The windows of every process group were used in order, none of them left out. -/
structure Grouped (collectives : CollectivesByFile) (log : List Placement) (s : WindowState) :
    Prop extends Placed collectives log s where
  sorted : ∀ pg, ((log.filter fun p => p.pgKey = pg).map Placement.window).Pairwise (· ≤ ·)
  le_counter : ∀ p ∈ log, p.window ≤ s.pgWindowCounter p.pgKey
  used : ∀ pg, (∀ p ∈ log, p.pgKey ≠ pg) ∧ s.pgWindowCounter pg = 0 ∨
    ∀ w ≤ s.pgWindowCounter pg, ∃ p ∈ log, p.key = (pg, w)

theorem grouped_start (collectives : CollectivesByFile) :
    Grouped collectives [] (.start collectives) where
  traces := fun _ => rfl
  groups := ⟨fun _ h => absurd h not_mem_nil, fun _ h => absurd h not_mem_nil⟩
  participants := fun _ h => absurd rfl h
  sorted := fun _ => .nil
  le_counter := fun _ h => absurd h not_mem_nil
  used := fun _ => .inl ⟨fun _ h => absurd h not_mem_nil, rfl⟩

/-- A round goes on with the window of before, or begins the next one after that has been
used. -/
theorem windowIdx_cases (s : WindowState) (ranks : List (List Char)) (pg : PgKey) :
    s.windowIdx ranks pg = s.pgWindowCounter pg ∨
      s.windowIdx ranks pg = s.pgWindowCounter pg + 1 ∧
        s.pgWindowParticipants (pg, s.pgWindowCounter pg) ≠ [] := by
  unfold WindowState.windowIdx
  dsimp only
  split
  · next hnew =>
    refine .inr ⟨rfl, ?_⟩
    rcases hnew.2 with halready | ⟨hprevious, _⟩
    · intro hnil
      rw [hnil] at halready
      exact halready rfl
    · exact hprevious
  · exact .inl rfl

/-- The placements of one window do not touch other process groups. -/
theorem filter_more_of_ne (hmore : ∀ p ∈ more, p.key = window) (hne : window.1 ≠ pg) :
    more.filter (fun p => p.pgKey = pg) = [] := by
  refine filter_eq_nil_iff.mpr fun p hp heq => hne ?_
  rw [← hmore p hp]
  exact of_decide_eq_true heq

theorem filter_more_of_eq (hmore : ∀ p ∈ more, p.key = window) :
    more.filter (fun p => p.pgKey = window.1) = more := by
  refine filter_eq_self.mpr fun p hp => decide_eq_true ?_
  rw [← hmore p hp]
  rfl

/-- Placements in a window that is due keep the windows in order. -/
theorem Grouped.append (h : Grouped collectives log s)
    (hplaced : Placed collectives (log ++ more) s') (hmore : ∀ p ∈ more, p.key = window)
    (hne : more ≠ [])
    (hcounter : s'.pgWindowCounter = update s.pgWindowCounter window.1 window.2)
    (hdue : window.2 = s.pgWindowCounter window.1 ∨ window.2 = s.pgWindowCounter window.1 + 1 ∧
      ∃ p ∈ log, p.key = (window.1, s.pgWindowCounter window.1)) :
    Grouped collectives (log ++ more) s' where
  toPlaced := hplaced
  sorted := by
    intro pg
    rw [filter_append, map_append]
    rcases eq_or_ne window.1 pg with rfl | hother
    · rw [filter_more_of_eq hmore]
      refine pairwise_append.mpr ⟨h.sorted _, ?_, ?_⟩
      · refine pairwise_map.mpr (pairwise_of_forall_mem_list fun p hp q hq => ?_)
        rw [show p.window = q.window from
          (congrArg Prod.snd (hmore p hp)).trans (congrArg Prod.snd (hmore q hq)).symm]
      · rintro _ hw _ hw'
        obtain ⟨p, hp, rfl⟩ := mem_map.mp hw
        obtain ⟨q, hq, rfl⟩ := mem_map.mp hw'
        have hle := h.le_counter p (mem_of_mem_filter hp)
        have hpg : p.pgKey = window.1 := of_decide_eq_true (mem_filter.mp hp).2
        have hwindow : q.window = window.2 := congrArg Prod.snd (hmore q hq)
        rw [hpg] at hle
        omega
    · rw [filter_more_of_ne hmore hother, map_nil, append_nil]
      exact h.sorted pg
  le_counter := by
    intro p hp
    rw [hcounter]
    rcases mem_append.mp hp with hp | hp
    · have hle := h.le_counter p hp
      rcases eq_or_ne p.pgKey window.1 with heq | hother
      · rw [heq] at hle
        rw [heq, update_self]
        omega
      · rwa [update_of_ne hother]
    · rw [show p.pgKey = window.1 from congrArg Prod.fst (hmore p hp), update_self,
        show p.window = window.2 from congrArg Prod.snd (hmore p hp)]
  used := by
    intro pg
    rw [hcounter]
    rcases eq_or_ne pg window.1 with rfl | hother
    · rw [update_self]
      refine .inr fun w hw => ?_
      rcases Nat.lt_or_eq_of_le hw with hless | rfl
      · rcases h.used window.1 with ⟨hnone, hzero⟩ | hused
        · rcases hdue with hsame | ⟨_, p, hp, hkey⟩
          · omega
          · exact absurd (congrArg Prod.fst hkey) (hnone p hp)
        · obtain ⟨p, hp, hkey⟩ := hused w (by omega)
          exact ⟨p, mem_append_left _ hp, hkey⟩
      · obtain ⟨p, hp⟩ := exists_mem_of_ne_nil more hne
        exact ⟨p, mem_append_right _ hp, hmore p hp⟩
    · rw [update_of_ne hother]
      rcases h.used pg with ⟨hnone, hzero⟩ | hused
      · refine .inl ⟨fun p hp => ?_, hzero⟩
        rcases mem_append.mp hp with hp | hp
        · exact hnone p hp
        · exact fun heq => hother (heq.symm.trans (congrArg Prod.fst (hmore p hp)))
      · refine .inr fun w hw => ?_
        obtain ⟨p, hp, hkey⟩ := hused w hw
        exact ⟨p, mem_append_left _ hp, hkey⟩

theorem mem_currentPgTypes (h : pg ∈ s.currentPgTypes ranks) :
    ∃ rank ∈ ranks, AtPg s pg rank := by
  obtain ⟨rank, hrank, hpg⟩ := mem_filterMap.mp h
  exact ⟨rank, hrank, hpg⟩

/-- A round ends, and leaves fewer collectives. -/
theorem round_spec (h : Grouped collectives log s) (hfuel : left ranks s < fuel)
    (hpg : pg ∈ s.currentPgTypes ranks) :
    ∃ s' log', s.round fuel ranks pg = some s' ∧ Grouped collectives log' s' ∧
      left ranks s' < left ranks s := by
  have hstart : Placed collectives log { s with
      pgWindowCounter := update s.pgWindowCounter pg (s.windowIdx ranks pg) } :=
    ⟨h.traces, h.groups, h.participants⟩
  obtain ⟨taken, log', hrun, hplaced, hin, _, hprogress⟩ :=
    takeWindow_spec (pg, s.windowIdx ranks pg) { s with
      pgWindowCounter := update s.pgWindowCounter pg (s.windowIdx ranks pg) } hfuel hstart
  obtain ⟨hless, hgrown⟩ := hprogress (mem_currentPgTypes hpg)
  obtain ⟨more, rfl, hmore⟩ := hin.more
  refine ⟨{ taken with pgsWithActiveRanksLastIter := taken.currentPgTypes ranks }, log ++ more,
    ?_, ?_, hless⟩
  · unfold WindowState.round
    dsimp only
    rw [hrun]
    rfl
  · refine h.append ⟨hplaced.traces, hplaced.groups, hplaced.participants⟩ hmore ?_ hin.counter ?_
    · rintro rfl
      rw [append_nil] at hgrown
      exact Nat.lt_irrefl _ hgrown
    · rcases windowIdx_cases s ranks pg with hsame | ⟨hnext, hne⟩
      · exact .inl hsame
      · exact .inr ⟨hnext, h.participants _ hne⟩

/-! ## All rounds -/

theorem moreCommon_foldl [DecidableEq α] (items : List α) :
    ∀ (more : List α) (best : Option α), (∀ item ∈ more, item ∈ items) →
      (∀ item, best = some item → item ∈ items) → (more ≠ [] ∨ best ≠ none) →
        ∃ item ∈ items, more.foldl (moreCommon items) best = some item := by
  intro more
  induction more with
  | nil =>
    intro best _ hbest hsome
    obtain ⟨item, hitem⟩ := Option.ne_none_iff_exists'.mp (hsome.resolve_left fun h => h rfl)
    exact ⟨item, hbest item hitem, hitem⟩
  | cons first more ih =>
    intro best hmore hbest _
    obtain ⟨hfirst, hmore⟩ := forall_mem_cons.mp hmore
    have hstep : ∃ item ∈ items, moreCommon items best first = some item := by
      cases best with
      | none => exact ⟨first, hfirst, rfl⟩
      | some other =>
        unfold moreCommon
        dsimp only
        split
        · exact ⟨first, hfirst, rfl⟩
        · exact ⟨other, hbest other rfl, rfl⟩
    obtain ⟨item, hitem, hnext⟩ := hstep
    rw [foldl_cons, hnext]
    exact ih (some item) hmore (fun other heq => Option.some.inj heq ▸ hitem)
      (.inr (Option.some_ne_none item))

/-- There is a most common item where there is an item. -/
theorem exists_mostCommon [DecidableEq α] {items : List α} (hne : items ≠ []) :
    ∃ item ∈ items, mostCommon items = some item :=
  moreCommon_foldl items items none (fun _ h => h)
    (fun _ h => absurd h.symm (Option.some_ne_none _))
    (.inl hne)

theorem currentPgTypes_ne_nil (hrank : rank ∈ ranks) (hrest : (s.remaining rank).isEmpty = false) :
    s.currentPgTypes ranks ≠ [] := by
  cases hhead : s.remaining rank with
  | nil =>
    rw [hhead] at hrest
    exact absurd hrest.symm Bool.false_ne_true
  | cons c rest =>
    have hmem : c.pgKey ∈ s.currentPgTypes ranks := by
      refine mem_filterMap.mpr ⟨rank, hrank, ?_⟩
      rw [hhead]
      rfl
    exact ne_nil_of_mem hmem

/-- The rounds end with nothing left. -/
theorem rounds_spec (fuel n : Nat) :
    ∀ {s : WindowState} {log : List Placement}, Grouped collectives log s →
      left ranks s < n → left ranks s < fuel →
        ∃ s' log', WindowState.rounds fuel ranks n s = some s' ∧ Grouped collectives log' s' ∧
          ∀ rank ∈ ranks, s'.remaining rank = [] := by
  induction n with
  | zero => exact fun _ h => absurd h (Nat.not_lt_zero _)
  | succ n ih =>
    intro s log h hn hfuel
    unfold WindowState.rounds
    split
    · next hdone =>
      exact ⟨s, log, rfl, h, fun rank hrank =>
        List.isEmpty_iff.mp (all_eq_true.mp hdone rank hrank)⟩
    · next hmore =>
      have hrest : ∃ rank ∈ ranks, (s.remaining rank).isEmpty = false := by
        simpa [all_eq_true] using hmore
      obtain ⟨rank, hrank, hrest⟩ := hrest
      obtain ⟨pg, hpg, hcommon⟩ := exists_mostCommon (currentPgTypes_ne_nil hrank hrest)
      obtain ⟨next, log', hround, hgrouped, hless⟩ := round_spec h hfuel hpg
      rw [hcommon]
      dsimp only
      rw [hround]
      exact ih hgrouped (by omega) (by omega)

/-! ## More fuel -/

theorem takeWindow_mono {more : Nat} (hle : fuel ≤ more) :
    ∀ {s s' : WindowState}, WindowState.takeWindow ranks window fuel s = some s' →
      WindowState.takeWindow ranks window more s = some s' := by
  induction fuel generalizing more with
  | zero =>
    intro s s' h
    cases h
  | succ fuel ih =>
    intro s s' h
    obtain ⟨more, rfl⟩ := Nat.exists_eq_add_of_le' (Nat.lt_of_lt_of_le (Nat.succ_pos _) hle)
    unfold WindowState.takeWindow at h ⊢
    dsimp only at h ⊢
    split at h
    · next hswept =>
      rw [if_pos hswept]
      exact ih (by omega) h
    · next hswept => rwa [if_neg hswept]

theorem round_mono {more : Nat} (hle : fuel ≤ more) (h : s.round fuel ranks pg = some s') :
    s.round more ranks pg = some s' := by
  obtain ⟨taken, hrun, hnext⟩ := Option.bind_eq_some_iff.mp h
  exact Option.bind_eq_some_iff.mpr ⟨taken, takeWindow_mono hle hrun, hnext⟩

theorem rounds_mono {more n m : Nat} (hle : fuel ≤ more) (hnm : n ≤ m) :
    ∀ {s s' : WindowState}, WindowState.rounds fuel ranks n s = some s' →
      WindowState.rounds more ranks m s = some s' := by
  induction n generalizing m with
  | zero =>
    intro s s' h
    cases h
  | succ n ih =>
    intro s s' h
    obtain ⟨m, rfl⟩ := Nat.exists_eq_add_of_le' (Nat.lt_of_lt_of_le (Nat.succ_pos _) hnm)
    unfold WindowState.rounds at h ⊢
    split at h
    · next hdone => rwa [if_pos hdone]
    · next hmore =>
      rw [if_neg hmore]
      split at h
      · exact h
      · next pg hpg =>
        obtain ⟨next, hround, hrest⟩ := Option.bind_eq_some_iff.mp h
        exact Option.bind_eq_some_iff.mpr
          ⟨next, round_mono hle hround, ih (by omega) hrest⟩

/-! ## The groups -/

/-- How many collectives there are. -/
def CollectivesByFile.count (collectives : CollectivesByFile) : Nat :=
  left collectives.ranks (.start collectives)

/-- The collectives under a key. -/
def groupAt (groups : Dict WindowKey (List Collective)) (key : WindowKey) : List Collective :=
  (groups.get? key).getD []

/-- The groups hold every collective once, in a window of its own process group: `windows` says
which one, for the collectives of a rank one after another. -/
structure WindowGrouping (collectives : CollectivesByFile)
    (groups : Dict WindowKey (List Collective)) (windows : List Char → List Nat) : Prop where
  /-- Every collective has a window. -/
  length_windows : ∀ rank, (windows rank).length = (collectives.trace rank).length
  /-- Under a key, a rank has its collectives of that process group and window, in the order of
  its trace. -/
  group : ∀ key rank, (groupAt groups key).filter (fun c => c.fileId = rank) =
    (((collectives.trace rank).zip (windows rank)).filter fun e =>
      (e.1.pgKey, e.2) = key).map Prod.fst
  /-- All collectives of all groups are those of the ranks. -/
  perm : (groups.entries.flatMap Prod.snd).Perm (collectives.files.entries.flatMap Prod.snd)
  /-- A key carries the process group of each of its collectives. -/
  own : ∀ e ∈ groups.entries, ∀ c ∈ e.2, c.pgKey = e.1.1
  /-- The windows of a process group are 0 up to the last one. -/
  used : ∀ rank, ∀ c ∈ collectives.trace rank, ∃ last, ∀ w,
    (c.pgKey, w) ∈ groups.keys ↔ w ≤ last
  /-- Along a trace the windows of a process group do not go back. -/
  monotone : ∀ rank pg, ((((collectives.trace rank).zip (windows rank)).filter fun e =>
    e.1.pgKey = pg).map Prod.snd).Pairwise (· ≤ ·)

theorem foldl_append_singleton {β : Type} (f : α → β) (items : List α) :
    ∀ sofar, items.foldl (fun group item => group ++ [f item]) sofar = sofar ++ items.map f := by
  induction items with
  | nil => exact fun sofar => (append_nil sofar).symm
  | cons item items ih =>
    intro sofar
    rw [foldl_cons, ih, append_assoc]
    rfl

/-- A group holds the placements under its key. -/
theorem Placed.value_eq (h : Placed collectives log s) {e : WindowKey × List Collective}
    (he : e ∈ s.matchedGroups.entries) :
    e.2 = (log.filter fun p => p.key = e.1).map Placement.collective := by
  rw [(h.groups.value e he).2, foldl_append_singleton, nil_append]

theorem Placed.groupAt_eq (h : Placed collectives log s) (key : WindowKey) :
    groupAt s.matchedGroups key = (log.filter fun p => p.key = key).map Placement.collective := by
  unfold groupAt
  cases hget : s.matchedGroups.get? key with
  | some group => exact h.value_eq (Dict.mem_of_get?_eq_some hget)
  | none =>
    have hnone : log.filter (fun p => p.key = key) = [] := by
      refine filter_eq_nil_iff.mpr fun p hp heq => ?_
      have hmem := h.groups.covers p hp
      rw [of_decide_eq_true heq] at hmem
      have hsome := Dict.get?_isSome_iff.mpr hmem
      rw [hget] at hsome
      exact Bool.false_ne_true hsome
    rw [hnone]
    rfl

/-- When nothing is left, every trace has been placed. -/
theorem Placed.trace_eq (h : Placed collectives log s)
    (hdone : ∀ rank ∈ collectives.ranks, s.remaining rank = []) (rank : List Char) :
    collectives.trace rank = (log.filter fun p => p.rank = rank).map Placement.collective := by
  have htrace := h.traces rank
  by_cases hrank : rank ∈ collectives.ranks
  · rw [hdone rank hrank, append_nil] at htrace
    exact htrace.symm
  · have hnone : collectives.trace rank = [] := by
      have hget : collectives.files.get? rank = none := by
        rw [← Option.not_isSome_iff_eq_none, Dict.get?_isSome_iff]
        exact hrank
      unfold CollectivesByFile.trace
      rw [hget]
      rfl
    rw [hnone, append_eq_nil_iff] at htrace
    rw [hnone, htrace.1]

theorem fileId_of_mem_trace (h : c ∈ collectives.trace rank) :
    c.fileId = rank ∧ rank ∈ collectives.ranks := by
  unfold CollectivesByFile.trace at h
  cases hget : collectives.files.get? rank with
  | none =>
    rw [hget] at h
    exact absurd h not_mem_nil
  | some trace =>
    rw [hget] at h
    exact ⟨collectives.fileId_eq _ (Dict.mem_of_get?_eq_some hget) c h,
      Dict.mem_keys_of_get? hget⟩

/-- What has been placed when nothing is left. -/
theorem Grouped.windowGrouping (h : Grouped collectives log s)
    (hdone : ∀ rank ∈ collectives.ranks, s.remaining rank = []) :
    WindowGrouping collectives s.matchedGroups
      fun rank => (log.filter fun p => p.rank = rank).map Placement.window := by
  have htrace := h.toPlaced.trace_eq hdone
  have hmem : ∀ p ∈ log, p.collective ∈ collectives.trace p.rank := fun p hp => by
    rw [htrace]
    exact mem_map_of_mem (mem_filter.mpr ⟨hp, decide_eq_true rfl⟩)
  have hzip : ∀ rank, (collectives.trace rank).zip
      ((log.filter fun p => p.rank = rank).map Placement.window) =
        (log.filter fun p => p.rank = rank).map fun p => (p.collective, p.window) := fun rank => by
    rw [htrace]
    exact zip_map' ..
  refine ⟨fun rank => ?_, fun key rank => ?_, ?_, fun e he c hc => ?_, fun rank c hc => ?_,
    fun rank pg => ?_⟩
  · rw [htrace, length_map, length_map]
  · rw [h.groupAt_eq, hzip, filter_map, filter_map, map_map, filter_filter,
      filter_filter]
    refine congrArg (map Placement.collective) (filter_congr fun p hp => ?_)
    simp only [comp_apply, (fileId_of_mem_trace (hmem p hp)).1]
    exact Bool.and_comm _ _
  · have hgroups : s.matchedGroups.entries.flatMap Prod.snd =
        (s.matchedGroups.keys.flatMap fun key => log.filter fun p => p.key = key).map
          Placement.collective := by
      rw [map_flatMap, Dict.keys, flatMap_map]
      exact flatMap_congr fun e he => h.value_eq he
    have hfiles : collectives.files.entries.flatMap Prod.snd =
        (collectives.ranks.flatMap fun rank => log.filter fun p => p.rank = rank).map
          Placement.collective := by
      rw [map_flatMap]
      unfold CollectivesByFile.ranks Dict.keys
      rw [flatMap_map]
      refine flatMap_congr fun e he => ?_
      rw [← htrace]
      unfold CollectivesByFile.trace
      rw [Dict.get?_eq_some_of_mem he]
      rfl
    rw [hgroups, hfiles]
    exact ((Dict.flatMap_filter_perm_self s.matchedGroups.nodup_keys h.groups.covers).trans
      (Dict.flatMap_filter_perm_self collectives.files.nodup_keys fun p hp =>
        (fileId_of_mem_trace (hmem p hp)).2).symm).map _
  · rw [h.value_eq he] at hc
    obtain ⟨p, hp, rfl⟩ := mem_map.mp hc
    exact congrArg Prod.fst (of_decide_eq_true (mem_filter.mp hp).2)
  · rw [htrace] at hc
    obtain ⟨p, hp, rfl⟩ := mem_map.mp hc
    refine ⟨s.pgWindowCounter p.pgKey, fun w => ⟨fun hkey => ?_, fun hw => ?_⟩⟩
    · obtain ⟨e, he, hkey⟩ := mem_map.mp hkey
      obtain ⟨q, hq, hqkey⟩ := mem_map.mp (h.groups.value e he).1
      have hqw : q.key = (p.pgKey, w) := hqkey.trans hkey
      have hle := h.le_counter q hq
      rw [show q.pgKey = p.pgKey from congrArg Prod.fst hqw,
        show q.window = w from congrArg Prod.snd hqw] at hle
      exact hle
    · rcases h.used p.pgKey with ⟨hnone, _⟩ | hused
      · exact absurd rfl (hnone p (mem_of_mem_filter hp))
      · obtain ⟨q, hq, hkey⟩ := hused w hw
        exact hkey ▸ h.groups.covers q hq
  · rw [hzip, filter_map, map_map, filter_filter]
    refine List.Pairwise.sublist ?_ (h.sorted pg)
    have hsub : (log.filter fun p => decide (p.pgKey = pg) && decide (p.rank = rank)).Sublist
        (log.filter fun p => decide (p.pgKey = pg)) :=
      monotone_filter_right log fun p hp => (Bool.and_eq_true _ _ ▸ hp).1
    exact hsub.map Placement.window

/-- The grouping ends, and every collective is in one group, in a window of its own process
group; the windows of a process group are used one after another, and a rank goes through them
in order. -/
theorem groupCollectivesByWindows_eq_some (collectives : CollectivesByFile) :
    ∃ groups windows,
      (∀ fuel, collectives.count < fuel →
        groupCollectivesByWindows fuel collectives = some groups) ∧
        WindowGrouping collectives groups windows := by
  obtain ⟨s, log, hrun, hgrouped, hdone⟩ := rounds_spec (collectives.count + 1)
    (collectives.count + 1) (grouped_start collectives) (Nat.lt_succ_self _) (Nat.lt_succ_self _)
  refine ⟨s.matchedGroups, _, fun fuel hfuel => ?_, hgrouped.windowGrouping hdone⟩
  exact congrArg (Option.map WindowState.matchedGroups) (rounds_mono hfuel hfuel hrun)

end ResiliencyExt.Attribution.TraceAnalyzer
