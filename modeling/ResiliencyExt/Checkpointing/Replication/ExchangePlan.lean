import Mathlib.Data.List.Sort

set_option autoImplicit false

/-!
# Replication: the plan of an exchange

`CliqueReplicationStrategy.retrieve_plan` is called by all members of a group.
They gather what each of them wants and assign a sender to every wanted id: the
receiver itself when it holds the id, else a holder drawn from a generator that
every member seeds alike.  All members walk the same lists with the same
generator, so they come to the same plan.
-/

namespace ResiliencyExt.Checkpointing.Replication

open List

/-- `random.Random` as far as it is used: a choice from a list that is not empty is
one of its elements. -/
structure Rng where
  State : Type
  seeded : Nat → State
  choice : State → List Nat → Nat × State
  choice_mem : ∀ state choices, choices ≠ [] → (choice state choices).1 ∈ choices

structure ExchangePlanEntry (Id : Type) where
  sender : Nat
  receiver : Nat
  id : Id
  deriving DecidableEq, Repr

/-- The entries of an `ExchangePlan`. -/
abbrev ExchangePlan (Id : Type) :=
  List (ExchangePlanEntry Id)

/-- `NoReplicasAvailableError`: no replicated copies for this id. -/
structure NoReplicasAvailableError (Id : Type) where
  id : Id
  deriving DecidableEq, Repr

/-- A replication group, and what its members pass to `retrieve_plan`: the map of
globally available ids, which is the same for all of them, and the wanted ids. -/
structure ReplicationGroup (Id : Type) where
  ranks : List Nat
  nodup : ranks.Nodup
  rng : Rng
  globallyAvailableIds : Nat → Nat → List Id
  wanted : Nat → List Id
  same : ∀ m ∈ ranks, ∀ m' ∈ ranks, globallyAvailableIds m = globallyAvailableIds m'

variable {Id : Type} [DecidableEq Id]

namespace ReplicationGroup

variable (G : ReplicationGroup Id)

/-- `all_gather_object(wanted)` -/
def globallyWanted : List (List Id) :=
  G.ranks.map G.wanted

/-- The ranks that hold the id, as member `m` sees it. -/
def available (m : Nat) (id : Id) : List Nat :=
  G.ranks.filter fun rank => id ∈ G.globallyAvailableIds m rank

/-- The body of the inner loop of member `m`. -/
def planEntry (m receiver : Nat) (state : G.rng.State × ExchangePlan Id) (wantedId : Id) :
    Except (NoReplicasAvailableError Id) (G.rng.State × ExchangePlan Id) :=
  if G.available m wantedId = [] then .error ⟨wantedId⟩
  else if receiver ∈ G.available m wantedId then
    .ok (state.1, state.2 ++ [⟨receiver, receiver, wantedId⟩])
  else
    let chosen := G.rng.choice state.1 ((G.available m wantedId).insertionSort (· ≤ ·))
    .ok (chosen.2, state.2 ++ [⟨chosen.1, receiver, wantedId⟩])

/-- The body of the outer loop. -/
def planReceiver (m : Nat) (state : G.rng.State × ExchangePlan Id)
    (request : Nat × List Id) :
    Except (NoReplicasAvailableError Id) (G.rng.State × ExchangePlan Id) :=
  request.2.foldlM (G.planEntry m request.1) state

/-- `retrieve_plan`, called by member `m`. -/
def retrievePlan (m : Nat) : Except (NoReplicasAvailableError Id) (ExchangePlan Id) :=
  ((G.ranks.zip G.globallyWanted).foldlM (G.planReceiver m) (G.rng.seeded 0, [])).map
    Prod.snd

/-- Every receiver with every id that it wants, in the order of the plan. -/
def requests : List (Nat × Id) :=
  G.ranks.flatMap fun receiver => (G.wanted receiver).map fun id => (receiver, id)

/-- Some member holds the id. -/
def Held (m : Nat) (id : Id) : Prop :=
  ∃ rank ∈ G.ranks, id ∈ G.globallyAvailableIds m rank

/-- The sender of an entry is a member that holds the id, the receiver if it does. -/
structure Serves (m : Nat) (entry : ExchangePlanEntry Id) : Prop where
  sender_mem : entry.sender ∈ G.ranks
  holds : entry.id ∈ G.globallyAvailableIds m entry.sender
  self : entry.id ∈ G.globallyAvailableIds m entry.receiver → entry.sender = entry.receiver

variable {G} {m receiver : Nat} {state : G.rng.State × ExchangePlan Id}

/-! ## One entry -/

theorem available_eq_nil_iff {id : Id} : G.available m id = [] ↔ ¬ G.Held m id := by
  simp [available, Held]

theorem mem_available {id : Id} {rank : Nat} :
    rank ∈ G.available m id ↔ rank ∈ G.ranks ∧ id ∈ G.globallyAvailableIds m rank := by
  simp [available]

theorem planEntry_not_held {id : Id} (h : ¬ G.Held m id) :
    G.planEntry m receiver state id = .error ⟨id⟩ :=
  if_pos (available_eq_nil_iff.mpr h)

/-- An id that is held gets one more entry, which serves it. -/
theorem planEntry_held {id : Id} (hreceiver : receiver ∈ G.ranks) (h : G.Held m id) :
    ∃ rng sender, G.planEntry m receiver state id =
        .ok (rng, state.2 ++ [⟨sender, receiver, id⟩]) ∧
      G.Serves m ⟨sender, receiver, id⟩ := by
  have hne : G.available m id ≠ [] := fun hnil => available_eq_nil_iff.mp hnil h
  unfold planEntry
  rw [if_neg hne]
  split
  · rename_i hmem
    exact ⟨_, _, rfl, hreceiver, (mem_available.mp hmem).2, fun _ => rfl⟩
  · rename_i hmem
    have hsorted : (G.available m id).insertionSort (· ≤ ·) ≠ [] := fun hnil => by
      have hperm := perm_insertionSort (· ≤ ·) (G.available m id)
      rw [hnil] at hperm
      exact hne hperm.nil_eq.symm
    have hchosen := G.rng.choice_mem state.1 _ hsorted
    obtain ⟨hrank, hholds⟩ :=
      mem_available.mp ((perm_insertionSort (· ≤ ·) _).mem_iff.mp hchosen)
    refine ⟨_, _, rfl, hrank, hholds, fun hself => absurd ?_ hmem⟩
    exact mem_available.mpr ⟨hreceiver, hself⟩

/-! ## The loops -/

/-- The plan has grown by entries that serve the requests, in their order. -/
def Grown (m : Nat) (requests : List (Nat × Id)) (before after : ExchangePlan Id) : Prop :=
  ∃ entries, after = before ++ entries ∧
    (entries.map fun e => (e.receiver, e.id)) = requests ∧ ∀ e ∈ entries, G.Serves m e

theorem Grown.append {first second : List (Nat × Id)} {before middle after : ExchangePlan Id}
    (h : G.Grown m first before middle) (h' : G.Grown m second middle after) :
    G.Grown m (first ++ second) before after := by
  obtain ⟨entries, rfl, hmap, hserves⟩ := h
  obtain ⟨entries', rfl, hmap', hserves'⟩ := h'
  refine ⟨entries ++ entries', append_assoc _ _ _, ?_, fun e he => ?_⟩
  · rw [map_append, hmap, hmap']
  · exact (mem_append.mp he).elim (hserves e) (hserves' e)

theorem planReceiver_spec (hreceiver : receiver ∈ G.ranks) (wanted : List Id) :
    (∃ id ∈ wanted, ¬ G.Held m id ∧ G.planReceiver m state (receiver, wanted) = .error ⟨id⟩) ∨
    ((∀ id ∈ wanted, G.Held m id) ∧ ∃ rng after,
      G.planReceiver m state (receiver, wanted) = .ok (rng, after) ∧
        G.Grown m (wanted.map fun id => (receiver, id)) state.2 after) := by
  induction wanted generalizing state with
  | nil => exact Or.inr ⟨nofun, _, _, rfl, [], by simp⟩
  | cons id wanted ih =>
    have hloop : G.planReceiver m state (receiver, id :: wanted) =
        (G.planEntry m receiver state id).bind fun next =>
          G.planReceiver m next (receiver, wanted) := rfl
    rw [hloop]
    by_cases hheld : G.Held m id
    · obtain ⟨rng, sender, hentry, hserves⟩ := planEntry_held hreceiver hheld
      have hone : G.Grown m [(receiver, id)] state.2
          (state.2 ++ [⟨sender, receiver, id⟩]) := by
        refine ⟨_, rfl, rfl, fun e he => ?_⟩
        rwa [mem_singleton.mp he]
      rw [hentry]
      rcases ih with
        ⟨lost, hmem, hnot, herror⟩ | ⟨hall, rng', after, hok, hgrown⟩
      · exact Or.inl ⟨lost, mem_cons_of_mem _ hmem, hnot, herror⟩
      · refine Or.inr ⟨?_, rng', after, hok, hone.append hgrown⟩
        exact forall_mem_cons.mpr ⟨hheld, hall⟩
    · refine Or.inl ⟨id, mem_cons_self, hheld, ?_⟩
      rw [planEntry_not_held hheld]
      rfl

theorem foldlM_planReceiver_spec (receivers : List Nat)
    (hreceivers : ∀ r ∈ receivers, r ∈ G.ranks) :
    (∃ r ∈ receivers, ∃ id ∈ G.wanted r, ¬ G.Held m id ∧
      (receivers.zip (receivers.map G.wanted)).foldlM (G.planReceiver m) state =
        .error ⟨id⟩) ∨
    ((∀ r ∈ receivers, ∀ id ∈ G.wanted r, G.Held m id) ∧ ∃ rng after,
      (receivers.zip (receivers.map G.wanted)).foldlM (G.planReceiver m) state =
        .ok (rng, after) ∧
      G.Grown m (receivers.flatMap fun r => (G.wanted r).map fun id => (r, id))
        state.2 after) := by
  induction receivers generalizing state with
  | nil => exact Or.inr ⟨nofun, _, _, rfl, [], by simp⟩
  | cons r receivers ih =>
    have hloop : ((r :: receivers).zip ((r :: receivers).map G.wanted)).foldlM
        (G.planReceiver m) state = (G.planReceiver m state (r, G.wanted r)).bind fun next =>
          (receivers.zip (receivers.map G.wanted)).foldlM (G.planReceiver m) next := rfl
    rw [hloop]
    rcases planReceiver_spec (m := m)
        (hreceivers r mem_cons_self) (G.wanted r) with
      ⟨id, hmem, hnot, herror⟩ | ⟨hall, rng, middle, hok, hgrown⟩
    · refine Or.inl ⟨r, mem_cons_self, id, hmem, hnot, ?_⟩
      rw [herror]
      rfl
    · rw [hok]
      rcases ih
          (fun q hq => hreceivers q (mem_cons_of_mem _ hq)) with
        ⟨q, hq, id, hmem, hnot, herror⟩ | ⟨hrest, rng', after, hok', hgrown'⟩
      · exact Or.inl ⟨q, mem_cons_of_mem _ hq, id, hmem, hnot, herror⟩
      · refine Or.inr ⟨forall_mem_cons.mpr ⟨hall, hrest⟩, rng', after, hok', ?_⟩
        rw [flatMap_cons]
        exact hgrown.append hgrown'

/-! ## The plan of the group -/

theorem retrievePlan_congr {m' : Nat} (hm : m ∈ G.ranks) (hm' : m' ∈ G.ranks) :
    G.retrievePlan m = G.retrievePlan m' := by
  have hsame := G.same m hm m' hm'
  have hentry : G.planEntry m = G.planEntry m' := by
    funext receiver state id
    unfold planEntry available
    rw [hsame]
  have hreceiver : G.planReceiver m = G.planReceiver m' := by
    funext state request
    unfold planReceiver
    rw [hentry]
  unfold retrievePlan
  rw [hreceiver]

/-- The plan names every request once and serves it, unless some wanted id is held by
no member. -/
theorem retrievePlan_spec (G : ReplicationGroup Id) (m : Nat) :
    (∃ r ∈ G.ranks, ∃ id ∈ G.wanted r, ¬ G.Held m id ∧ G.retrievePlan m = .error ⟨id⟩) ∨
    ((∀ r ∈ G.ranks, ∀ id ∈ G.wanted r, G.Held m id) ∧ ∃ plan, G.retrievePlan m = .ok plan ∧
      (plan.map fun e => (e.receiver, e.id)) = G.requests ∧ ∀ e ∈ plan, G.Serves m e) := by
  unfold retrievePlan globallyWanted
  rcases foldlM_planReceiver_spec (m := m) G.ranks
      (fun _ hr => hr) with
    ⟨r, hr, id, hid, hnot, herror⟩ | ⟨hall, rng, plan, hok, hgrown⟩
  · refine Or.inl ⟨r, hr, id, hid, hnot, ?_⟩
    rw [herror]
    rfl
  · obtain ⟨entries, hplan, hmap, hserves⟩ := hgrown
    obtain rfl : plan = entries := hplan
    refine Or.inr ⟨hall, plan, ?_, hmap, hserves⟩
    rw [hok]
    rfl

theorem Serves.congr {m' : Nat} {entry : ExchangePlanEntry Id} (h : G.Serves m entry)
    (hm : m ∈ G.ranks) (hm' : m' ∈ G.ranks) : G.Serves m' entry := by
  have hsame := G.same m hm m' hm'
  exact ⟨h.sender_mem, hsame ▸ h.holds, hsame ▸ h.self⟩

theorem mem_requests {r : Nat} {id : Id} :
    (r, id) ∈ G.requests ↔ r ∈ G.ranks ∧ id ∈ G.wanted r := by
  simp [requests]

end ReplicationGroup

end ResiliencyExt.Checkpointing.Replication
