import Mathlib.Data.Char
import Mathlib.Data.Finset.Image
import Mathlib.Data.List.Lex
import Mathlib.Data.List.Sort
import ResiliencyExt.Foundation.Agents
import ResiliencyExt.Foundation.Json
import ResiliencyExt.Foundation.Register

set_option autoImplicit false

/-!
# Rendezvous: marking replacement groups unhealthy

The nodes of a job keep the replacement groups that are unhealthy in this round
as one JSON document under one key.  `_mark_replacement_group_unhealthy` reads
the document and swaps in one with its own group added, and starts over with
what the swap returned when another node was faster.

Every call is an agent of its own, and `check`, `get` and `compare_set` are
separate steps.  The store remembers which calls changed the document, and a
call counts its retries, so that the two can be compared.
-/

namespace ResiliencyExt.FaultTolerance.Rendezvous

open Foundation List

/-! ## The stored document -/

/-- `sorted(group_ids)`; a set has no order of its own. -/
def sorted (groupIds : Finset (List Char)) : List (List Char) :=
  Quot.liftOn groupIds.val (insertionSort (· ≤ ·)) fun _ _ h =>
    ((perm_insertionSort _ _).trans
      (h.trans (perm_insertionSort _ _).symm)).eq_of_pairwise'
        (pairwise_insertionSort _ _) (pairwise_insertionSort _ _)

theorem toFinset_sorted (groupIds : Finset (List Char)) : (sorted groupIds).toFinset =
    groupIds := by
  obtain ⟨ids, hnodup⟩ := groupIds
  induction ids using Quot.inductionOn with
  | _ ids =>
    ext id
    exact mem_toFinset.trans (perm_insertionSort _ ids).mem_iff

/-- The key of the one entry of the document. -/
def groupsKey : List Char :=
  ['g', 'r', 'o', 'u', 'p', 's']

/-- `_pack_unhealthy_replacement_groups` -/
def packUnhealthyReplacementGroups (groupIds : Finset (List Char)) : List Char :=
  Json.dumps (.dict [(groupsKey, .list ((sorted groupIds).map .str))])

inductive UnpackError where
  /-- `ValueError`: no JSON, or its groups are no list. -/
  | valueError
  /-- `AttributeError`: the JSON is no object and has no `get`. -/
  | attributeError
  deriving DecidableEq, Repr

/-- `str(group_id)` of an item.  How Python prints an item that is no string is
`render`; the documents of `_pack_unhealthy_replacement_groups` have no such item. -/
def strItem (render : Json → List Char) : Json → List Char
  | .str text => text
  | item => render item

/-- `_unpack_unhealthy_replacement_groups` -/
def unpackUnhealthyReplacementGroups (render : Json → List Char) (value : List Char) :
    Except UnpackError (Finset (List Char)) :=
  if value.isEmpty then .ok ∅
  else
    match Json.loads value with
    | none => .error .valueError
    | some (.dict entries) =>
      match (Json.get? groupsKey entries).getD (.list []) with
      | .list items => .ok (items.map (strItem render)).toFinset
      | _ => .error .valueError
    | some _ => .error .attributeError

/-- `_get_unhealthy_replacement_groups` -/
def getUnhealthyReplacementGroups (render : Json → List Char) (cell : Option (List Char)) :
    Except UnpackError (Finset (List Char)) :=
  match cell with
  | none => .ok ∅
  | some value => unpackUnhealthyReplacementGroups render value

theorem readable_groups (groupIds : Finset (List Char)) :
    (Json.dict [(groupsKey, .list ((sorted groupIds).map .str))]).Readable := by
  refine Json.readable_dict fun entry hentry => ?_
  rw [mem_singleton.mp hentry]
  refine Json.readable_list fun item hitem => ?_
  obtain ⟨text, _, rfl⟩ := mem_map.mp hitem
  exact Json.readable_str text

/-- A document reads back as the set it was made of. -/
@[simp] theorem unpack_pack (render : Json → List Char) (groupIds : Finset (List Char)) :
    unpackUnhealthyReplacementGroups render (packUnhealthyReplacementGroups groupIds) =
      .ok groupIds := by
  have hreadable := readable_groups groupIds
  have hne := Json.dumps_ne_nil hreadable
  have hitems : ((sorted groupIds).map Json.str).map (strItem render) = sorted groupIds := by
    rw [map_map]
    exact map_id _
  unfold unpackUnhealthyReplacementGroups packUnhealthyReplacementGroups
  rw [if_neg (by simpa using hne), Json.loads_dumps hreadable]
  simp [Json.get?, hitems, toFinset_sorted]

/-! ## The calls of one round -/

structure MarkStore where
  cell : Option (List Char)
  /-- The calls that changed the document, in order. -/
  changes : List Nat

inductive MarkPhase where
  /-- The call has not begun. -/
  | idle
  /-- About to `check`, with nothing expected. -/
  | checking
  /-- About to `get`. -/
  | getting
  /-- About to `compare_set`. -/
  | swapping (expected desired : List Char)
  | returned
  | raised (error : UnpackError)
  deriving DecidableEq, Repr

/-- A call, with the number of its failed swaps and of the changes that preceded its
beginning and its last look at the document. -/
structure MarkCall where
  phase : MarkPhase
  retries : Nat
  began : Nat
  seen : Nat

/-- The nodes that mark a group in one round, each with one call, and the document
they find. -/
structure Marking where
  render : Json → List Char
  nodes : Nat
  groupId : Nat → List Char
  initial : Option (List Char)
  initialGroups : Finset (List Char)
  initial_valid : getUnhealthyReplacementGroups render initial = .ok initialGroups

namespace Marking

variable (M : Marking)

/-- The groups of the document. -/
abbrev groups (store : MarkStore) : Except UnpackError (Finset (List Char)) :=
  getUnhealthyReplacementGroups M.render store.cell

/-- The ids that are marked in this round. -/
def markedIds : Finset (List Char) :=
  (Finset.range M.nodes).image M.groupId

/-- What a call does with the value it read. -/
def consider (p : Nat) (expected : List Char) : MarkPhase :=
  match unpackUnhealthyReplacementGroups M.render expected with
  | .error error => .raised error
  | .ok currentGroups =>
    if M.groupId p ∈ currentGroups then .returned
    else .swapping expected
      (packUnhealthyReplacementGroups (insert (M.groupId p) currentGroups))

/-- What a call does with the result of its swap. -/
def afterSwap (p : Nat) (desired result : List Char) (changes : Nat) (call : MarkCall) :
    MarkCall :=
  if result = desired then { call with phase := .returned }
  else
    { call with
      phase := if result.isEmpty then .checking else M.consider p result
      retries := call.retries + 1
      seen := changes }

/-- One step of the call of node `p`. -/
def markStep (p : Nat) (store : MarkStore) (call : MarkCall) : Option (MarkStore × MarkCall) :=
  match call.phase with
  | .idle =>
    some (store, { call with
      phase := .checking, began := store.changes.length, seen := store.changes.length })
  | .checking =>
    match store.cell with
    | some _ => some (store, { call with phase := .getting })
    | none =>
      some (store, { call with
        phase := .swapping [] (packUnhealthyReplacementGroups (insert (M.groupId p) ∅))
        seen := store.changes.length })
  | .getting =>
    store.cell.map fun value =>
      (store, { call with phase := M.consider p value, seen := store.changes.length })
  | .swapping expected desired =>
    let swapped := compareSet [] store.cell expected desired
    let changes :=
      if Holds [] store.cell expected then store.changes ++ [p] else store.changes
    some (⟨swapped.1, changes⟩, M.afterSwap p desired swapped.2 changes.length call)
  | .returned | .raised _ => none

def agents : Agents MarkStore MarkCall Unit where
  shared := ⟨M.initial, []⟩
  start _ := ⟨.idle, 0, 0, 0⟩
  step p store call _ := if p < M.nodes then M.markStep p store call else none

variable {M : Marking} {p q : Nat} {store store' : MarkStore} {call call' : MarkCall}

/-! ## What a step can do -/

inductive MarkMove (M : Marking) (p : Nat) (store : MarkStore) (call : MarkCall) :
    MarkStore → MarkCall → Prop
  | start (hphase : call.phase = .idle) :
      MarkMove M p store call store { call with
        phase := .checking, began := store.changes.length, seen := store.changes.length }
  | present (hphase : call.phase = .checking) :
      MarkMove M p store call store { call with phase := .getting }
  | absent (hphase : call.phase = .checking) (hcell : store.cell = none) :
      MarkMove M p store call store { call with
        phase := .swapping [] (packUnhealthyReplacementGroups (insert (M.groupId p) ∅))
        seen := store.changes.length }
  | get {value : List Char} (hphase : call.phase = .getting) (hcell : store.cell = some value) :
      MarkMove M p store call store
        { call with phase := M.consider p value, seen := store.changes.length }
  | installed {expected desired : List Char} (hphase : call.phase = .swapping expected desired)
      (hholds : Holds [] store.cell expected) :
      MarkMove M p store call ⟨some desired, store.changes ++ [p]⟩
        { call with phase := .returned }
  | overtaken {expected desired : List Char} (hphase : call.phase = .swapping expected desired)
      (hnot : ¬ Holds [] store.cell expected) :
      MarkMove M p store call store
        (M.afterSwap p desired (compareSet [] store.cell expected desired).2
          store.changes.length call)

variable {expected desired : List Char} {groups : Finset (List Char)}

theorem markStep_move (h : M.markStep p store call = some (store', call')) :
    MarkMove M p store call store' call' := by
  unfold markStep at h
  split at h
  · rename_i hphase
    cases h
    exact .start hphase
  · rename_i hphase
    split at h
    · cases h
      exact .present hphase
    · rename_i hcell
      cases h
      exact .absent hphase hcell
  · rename_i hphase
    obtain ⟨value, hcell, heq⟩ := Option.map_eq_some_iff.mp h
    cases heq
    exact .get hphase hcell
  · rename_i expected desired hphase
    cases h
    by_cases hholds : Holds [] store.cell expected
    · simp only [compareSet_of_holds desired hholds, if_pos hholds, afterSwap, if_pos]
      exact .installed hphase hholds
    · simp only [compareSet_fst_of_not_holds desired hholds, if_neg hholds]
      exact .overtaken hphase hholds
  · cases h
  · cases h

/-! ## The invariant -/

/-- The document decodes, to the groups found and some of those marked. -/
structure StoreOk (M : Marking) (store : MarkStore) : Prop where
  present : store.changes ≠ [] → store.cell ≠ none
  groups : ∃ groups, M.groups store = .ok groups ∧ M.initialGroups ⊆ groups ∧
    groups ⊆ M.initialGroups ∪ M.markedIds

/-- What a call about to swap knows: it expects a document without its own group, and
the document is still that one when nothing has changed since it looked. -/
def SwapOk (M : Marking) (p : Nat) (store : MarkStore) (seen : Nat)
    (expected desired : List Char) : Prop :=
  ∃ groups, unpackUnhealthyReplacementGroups M.render expected = .ok groups ∧
    desired = packUnhealthyReplacementGroups (insert (M.groupId p) groups) ∧
    (seen = store.changes.length → Holds [] store.cell expected)

structure CallOk (M : Marking) (p : Nat) (store : MarkStore) (call : MarkCall) : Prop where
  sound : ∀ error, call.phase ≠ .raised error
  marked : call.phase = .returned → ∀ groups, M.groups store = .ok groups →
    M.groupId p ∈ groups
  swap : ∀ expected desired, call.phase = .swapping expected desired →
    M.SwapOk p store call.seen expected desired
  idle : call.phase = .idle → call.retries = 0
  running : call.phase ≠ .returned → p ∉ store.changes
  own : p ∉ store.changes.take call.seen
  seen_le : call.seen ≤ store.changes.length
  retries_le : call.retries + call.began ≤ call.seen

/-- What an empty document and an absent one decode to is the same. -/
theorem groups_of_holds (hholds : Holds [] store.cell expected)
    (hunpack : unpackUnhealthyReplacementGroups M.render expected = .ok groups) :
    M.groups store = .ok groups := by
  rcases hholds with hcell | ⟨hcell, rfl⟩
  · simp only [Marking.groups, hcell, getUnhealthyReplacementGroups, hunpack]
  · simp only [Marking.groups, hcell, getUnhealthyReplacementGroups]
    exact hunpack

/-- A swap that succeeds adds the group of its call. -/
theorem groups_installed {seen : Nat} (hswap : M.SwapOk p store seen expected desired)
    (hholds : Holds [] store.cell expected) :
    ∃ groups, M.groups store = .ok groups ∧
      M.groups ⟨some desired, store.changes ++ [p]⟩ = .ok (insert (M.groupId p) groups) := by
  obtain ⟨groups, hunpack, rfl, _⟩ := hswap
  exact ⟨groups, groups_of_holds hholds hunpack, unpack_pack _ _⟩

/-- No step loses a group. -/
theorem MarkMove.groups_subset (hmove : MarkMove M p store call store' call')
    (hcall : M.CallOk p store call) {groups' : Finset (List Char)}
    (hgroups : M.groups store = .ok groups) (hgroups' : M.groups store' = .ok groups') :
    groups ⊆ groups' := by
  cases hmove with
  | start | present | absent | get | overtaken =>
    rw [hgroups] at hgroups'
    exact Except.ok.inj hgroups' ▸ Finset.Subset.refl _
  | installed hphase hholds =>
    obtain ⟨found, hfound, hadded⟩ := groups_installed (hcall.swap _ _ hphase) hholds
    rw [hgroups] at hfound
    rw [hgroups'] at hadded
    rw [Except.ok.inj hfound, Except.ok.inj hadded]
    exact Finset.subset_insert _ _

theorem StoreOk.move (hstore : M.StoreOk store) (hcall : M.CallOk p store call)
    (hp : p < M.nodes) (hmove : MarkMove M p store call store' call') : M.StoreOk store' := by
  cases hmove with
  | start | present | absent | get | overtaken => exact hstore
  | installed hphase hholds =>
    obtain ⟨found, hfound, hadded⟩ := groups_installed (hcall.swap _ _ hphase) hholds
    obtain ⟨groups, hgroups, hinitial, hmarked⟩ := hstore.groups
    obtain rfl : groups = found := Except.ok.inj (hgroups.symm.trans hfound)
    refine ⟨fun _ => Option.some_ne_none _, _, hadded, ?_, ?_⟩
    · exact hinitial.trans (Finset.subset_insert _ _)
    · refine Finset.insert_subset (Finset.mem_union_right _ ?_) hmarked
      exact Finset.mem_image_of_mem _ (Finset.mem_range.mpr hp)

/-- What a call decides on the document the store holds. -/
theorem CallOk.consider {value : List Char} {retries began : Nat}
    (hcell : store.cell = some value) (hgroups : M.groups store = .ok groups)
    (hfresh : p ∉ store.changes) (hretries : retries + began ≤ store.changes.length) :
    M.CallOk p store ⟨M.consider p value, retries, began, store.changes.length⟩ := by
  have hunpack : unpackUnhealthyReplacementGroups M.render value = .ok groups := by
    simpa only [Marking.groups, hcell, getUnhealthyReplacementGroups] using hgroups
  have hown : p ∉ store.changes.take store.changes.length := by rwa [take_length]
  by_cases hmem : M.groupId p ∈ groups
  · have hconsider : M.consider p value = .returned := by
      simp only [Marking.consider, hunpack, if_pos hmem]
    rw [hconsider]
    refine ⟨nofun, fun _ found hfound => ?_, nofun, nofun, fun _ => hfresh, hown,
      Nat.le_refl _, hretries⟩
    rw [hgroups] at hfound
    exact Except.ok.inj hfound ▸ hmem
  · have hconsider : M.consider p value = .swapping value
        (packUnhealthyReplacementGroups (insert (M.groupId p) groups)) := by
      simp only [Marking.consider, hunpack, if_neg hmem]
    rw [hconsider]
    refine ⟨nofun, nofun, fun expected desired heq => ?_, nofun, fun _ => hfresh, hown,
      Nat.le_refl _, hretries⟩
    cases heq
    exact ⟨groups, hunpack, rfl, fun _ => Or.inl hcell⟩

/-- A failed swap was overtaken: the document has changed since the call looked, and the
store holds one. -/
theorem CallOk.overtaken (hcall : M.CallOk p store call) (hstore : M.StoreOk store)
    (hphase : call.phase = .swapping expected desired) (hnot : ¬ Holds [] store.cell expected) :
    call.seen < store.changes.length ∧ ∃ value, store.cell = some value ∧ value ≠ expected := by
  obtain ⟨_, _, _, hseen⟩ := hcall.swap _ _ hphase
  have hlt : call.seen < store.changes.length :=
    Nat.lt_of_le_of_ne hcall.seen_le fun heq => hnot (hseen heq)
  have hne : store.changes ≠ [] := ne_nil_of_length_pos (Nat.zero_lt_of_lt hlt)
  obtain ⟨value, hcell⟩ := Option.ne_none_iff_exists'.mp (hstore.present hne)
  exact ⟨hlt, value, hcell, fun heq => hnot (Or.inl (heq ▸ hcell))⟩

theorem CallOk.afterSwap (hcall : M.CallOk p store call) (hstore : M.StoreOk store)
    (hphase : call.phase = .swapping expected desired) (hnot : ¬ Holds [] store.cell expected) :
    M.CallOk p store (M.afterSwap p desired (compareSet [] store.cell expected desired).2
      store.changes.length call) := by
  obtain ⟨hlt, value, hcell, hne⟩ := hcall.overtaken hstore hphase hnot
  obtain ⟨groups, hgroups, _, _⟩ := hstore.groups
  obtain ⟨found, _, hdesired, _⟩ := hcall.swap _ _ hphase
  have hfresh : p ∉ store.changes := hcall.running (by simp [hphase])
  have hretries := hcall.retries_le
  rw [hcell, compareSet_snd_of_ne desired hne]
  unfold Marking.afterSwap
  split_ifs with hsame hempty
  · -- another call has installed the very document
    refine ⟨nofun, fun _ stored hstored => ?_, nofun, nofun, fun _ => hfresh, hcall.own,
      hcall.seen_le, hretries⟩
    have hunpack : M.groups store = .ok (insert (M.groupId p) found) := by
      simp only [Marking.groups, hcell, getUnhealthyReplacementGroups, hsame, hdesired,
        unpack_pack]
    rw [hunpack] at hstored
    exact Except.ok.inj hstored ▸ Finset.mem_insert_self _ _
  · refine ⟨nofun, nofun, nofun, nofun, fun _ => hfresh, ?_, Nat.le_refl _, ?_⟩
    · simpa only [take_length] using hfresh
    · show call.retries + 1 + call.began ≤ store.changes.length
      omega
  · exact CallOk.consider hcell hgroups hfresh (by omega)

/-- The call that moves keeps its assertion. -/
theorem CallOk.move (hcall : M.CallOk p store call) (hstore : M.StoreOk store)
    (hmove : MarkMove M p store call store' call') : M.CallOk p store' call' := by
  have hretries := hcall.retries_le
  have hseen := hcall.seen_le
  have htake : p ∉ store.changes → p ∉ store.changes.take store.changes.length :=
    fun h => by rwa [take_length]
  cases hmove with
  | start hphase =>
    have hfresh := hcall.running (by simp [hphase])
    refine ⟨nofun, nofun, nofun, nofun, fun _ => hfresh, htake hfresh, Nat.le_refl _, ?_⟩
    rw [hcall.idle hphase, Nat.zero_add]
  | present hphase =>
    have hfresh := hcall.running (by simp [hphase])
    exact ⟨nofun, nofun, nofun, nofun, fun _ => hfresh, hcall.own, hseen, hretries⟩
  | absent hphase hcell =>
    have hfresh := hcall.running (by simp [hphase])
    refine ⟨nofun, nofun, fun expected desired heq => ?_, nofun, fun _ => hfresh,
      htake hfresh, Nat.le_refl _, Nat.le_trans hretries hseen⟩
    cases heq
    exact ⟨∅, rfl, rfl, fun _ => Or.inr ⟨hcell, rfl⟩⟩
  | get hphase hcell =>
    obtain ⟨groups, hgroups, _, _⟩ := hstore.groups
    exact CallOk.consider hcell hgroups (hcall.running (by simp [hphase]))
      (Nat.le_trans hretries hseen)
  | installed hphase hholds =>
    obtain ⟨found, hfound, hadded⟩ := groups_installed (hcall.swap _ _ hphase) hholds
    refine ⟨nofun, fun _ groups hgroups => ?_, nofun, nofun, fun h => absurd rfl h, ?_, ?_,
      hretries⟩
    · rw [hadded] at hgroups
      exact Except.ok.inj hgroups ▸ Finset.mem_insert_self _ _
    · rw [take_append_of_le_length hseen]
      exact hcall.own
    · simp only [length_append, length_singleton]
      omega
  | overtaken hphase hnot => exact hcall.afterSwap hstore hphase hnot

/-- The other calls keep theirs. -/
theorem CallOk.frame {other : MarkCall} (hother : M.CallOk q store other) (hne : p ≠ q)
    (hcall : M.CallOk p store call) (hstore : M.StoreOk store)
    (hmove : MarkMove M p store call store' call') : M.CallOk q store' other := by
  cases hmove with
  | start | present | absent | get | overtaken => exact hother
  | installed hphase hholds =>
    obtain ⟨found, hfound, hadded⟩ := groups_installed (hcall.swap _ _ hphase) hholds
    have hlt := Nat.lt_succ_of_le hother.seen_le
    refine ⟨hother.sound, fun hreturned groups hgroups => ?_, fun expected desired heq => ?_,
      hother.idle, fun hrunning => ?_, ?_, ?_, hother.retries_le⟩
    · rw [hadded] at hgroups
      exact Except.ok.inj hgroups ▸
        Finset.mem_insert_of_mem (hother.marked hreturned _ hfound)
    · obtain ⟨expectedGroups, hunpack, hdesired, _⟩ := hother.swap _ _ heq
      refine ⟨expectedGroups, hunpack, hdesired, fun hseen => ?_⟩
      simp only [length_append, length_singleton] at hseen
      omega
    · have hfresh := hother.running hrunning
      simp [hfresh, Ne.symm hne]
    · rw [take_append_of_le_length hother.seen_le]
      exact hother.own
    · simp only [length_append, length_singleton]
      omega

/-! ## No mark is lost -/

theorem preserves (M : Marking) :
    M.agents.Preserves (fun _ _ _ _ => True) M.StoreOk M.CallOk where
  shared p store call _ store' call' hstore hcall _ hstep := by
    obtain ⟨hp, hstep⟩ := Option.ite_none_right_eq_some.mp hstep
    exact hstore.move hcall hp (markStep_move hstep)
  agent p store call _ store' call' hstore hcall _ hstep := by
    obtain ⟨_, hstep⟩ := Option.ite_none_right_eq_some.mp hstep
    exact hcall.move hstore (markStep_move hstep)
  others p q store call other _ store' call' hne hstore hcall hother _ hstep := by
    obtain ⟨_, hstep⟩ := Option.ite_none_right_eq_some.mp hstep
    exact hother.frame hne hcall hstore (markStep_move hstep)

theorem initial_holding (M : Marking) :
    Agents.Holding M.StoreOk M.CallOk M.agents.initial where
  shared := by
    refine ⟨fun h => absurd rfl h, M.initialGroups, M.initial_valid, Finset.Subset.refl _, ?_⟩
    exact Finset.subset_union_left
  agent _ :=
    ⟨nofun, nofun, nofun, fun _ => rfl, fun _ => not_mem_nil, not_mem_nil,
      Nat.le_refl _, Nat.le_refl _⟩

theorem reachable_holding {c : Agents.Configuration MarkStore MarkCall}
    (hc : M.agents.system.Reachable (fun _ _ => True) c) :
    Agents.Holding M.StoreOk M.CallOk c :=
  (preserves M).reachable (initial_holding M) hc

/-- The stored set never shrinks. -/
theorem groups_subset_of_run {c d : Agents.Configuration MarkStore MarkCall}
    {actions : List (Nat × Unit)} (hc : M.agents.system.Reachable (fun _ _ => True) c)
    (hrun : M.agents.system.Run (fun _ _ => True) c actions d) :
    ∀ groups, M.groups c.shared = .ok groups →
      ∃ groups', M.groups d.shared = .ok groups' ∧ groups ⊆ groups' := by
  refine System.Run.monotone (R := fun c d => ∀ groups, M.groups c.shared = .ok groups →
    ∃ groups', M.groups d.shared = .ok groups' ∧ groups ⊆ groups') ?_ ?_ ?_ hc hrun
  · exact fun _ groups hgroups => ⟨groups, hgroups, Finset.Subset.refl _⟩
  · intro s t u hst htu groups hgroups
    obtain ⟨middle, hmiddle, hsub⟩ := hst groups hgroups
    obtain ⟨last, hlast, hsub'⟩ := htu middle hmiddle
    exact ⟨last, hlast, hsub.trans hsub'⟩
  · intro s a t hs _ hstep groups hgroups
    have hholding := reachable_holding hs
    obtain ⟨groups', hgroups', _, _⟩ :=
      ((preserves M).step hholding trivial hstep).shared.groups
    obtain ⟨store, call, hlocal, rfl⟩ := Agents.system_step_eq_some.mp hstep
    obtain ⟨_, hlocal⟩ := Option.ite_none_right_eq_some.mp hlocal
    exact ⟨groups', hgroups',
      (markStep_move hlocal).groups_subset (hholding.agent _) hgroups hgroups'⟩

/-- The changes that the other calls have made since a call began. -/
def changesByOthers (p : Nat) (store : MarkStore) (call : MarkCall) : List Nat :=
  (store.changes.drop call.began).filter fun q => q ≠ p

/-- All changes between a call's beginning and its last look are those of others. -/
theorem CallOk.retries_le_changesByOthers (hcall : M.CallOk p store call) :
    call.retries ≤ (changesByOthers p store call).length := by
  have hretries := hcall.retries_le
  have hseen := hcall.seen_le
  have hothers : ((store.changes.take call.seen).drop call.began).filter (fun q => q ≠ p) =
      (store.changes.take call.seen).drop call.began := by
    refine filter_eq_self.mpr fun q hq => ?_
    simp only [decide_not, Bool.not_eq_true', decide_eq_false_iff_not]
    rintro rfl
    exact hcall.own (mem_of_mem_drop hq)
  have hsublist : List.Sublist ((store.changes.take call.seen).drop call.began)
      (store.changes.drop call.began) := by
    rw [drop_take]
    exact take_sublist _ _
  calc call.retries
      ≤ ((store.changes.take call.seen).drop call.began).length := by
        rw [length_drop, length_take, Nat.min_eq_left hseen]
        omega
    _ = (((store.changes.take call.seen).drop call.began).filter (fun q => q ≠ p)).length := by
        rw [hothers]
    _ ≤ (changesByOthers p store call).length := (hsublist.filter _).length_le

/-- In every reachable state the document decodes; when all calls have returned it
names the groups found and those marked; a call that has returned finds its group in
it, no later state has lost a group, and a call has retried at most once for every
change by another call since it began. -/
theorem marks_never_lost (M : Marking) {c : Agents.Configuration MarkStore MarkCall}
    (hc : M.agents.system.Reachable (fun _ _ => True) c) :
    ∃ groups, M.groups c.shared = .ok groups ∧
      (∀ p error, (c.agent p).phase ≠ .raised error) ∧
      ((∀ p < M.nodes, (c.agent p).phase = .returned) →
        groups = M.initialGroups ∪ M.markedIds) ∧
      (∀ p, (c.agent p).phase = .returned → M.groupId p ∈ groups) ∧
      (∀ actions d, M.agents.system.Run (fun _ _ => True) c actions d →
        ∃ later, M.groups d.shared = .ok later ∧ groups ⊆ later) ∧
      ∀ p, (c.agent p).retries ≤ (changesByOthers p c.shared (c.agent p)).length := by
  have hholding := reachable_holding hc
  obtain ⟨groups, hgroups, hinitial, hmarked⟩ := hholding.shared.groups
  refine ⟨groups, hgroups, fun p => (hholding.agent p).sound, fun hall => ?_,
    fun p hp => (hholding.agent p).marked hp groups hgroups,
    fun _ _ hrun => groups_subset_of_run hc hrun groups hgroups,
    fun p => (hholding.agent p).retries_le_changesByOthers⟩
  refine Finset.Subset.antisymm hmarked (Finset.union_subset hinitial fun id hid => ?_)
  obtain ⟨p, hp, rfl⟩ := Finset.mem_image.mp hid
  exact (hholding.agent p).marked (hall p (Finset.mem_range.mp hp)) groups hgroups

/-- Two nodes of different groups find no document. -/
def twoGroups : Marking where
  render _ := []
  nodes := 2
  groupId p := if p = 0 then ['7'] else ['1', '2']
  initial := none
  initialGroups := ∅
  initial_valid := rfl

/-- Both calls find no document, and the second one to swap starts over once. -/
theorem marks_never_lost_race :
    ∃ c : Agents.Configuration MarkStore MarkCall,
      (c.agent 1).retries = 1 ∧ twoGroups.groups c.shared = .ok {['7'], ['1', '2']} := by
  have hrun : (twoGroups.agents.system.execute (fun _ _ => True) twoGroups.agents.initial
      [(0, ()), (1, ()), (0, ()), (1, ()), (0, ()), (1, ()), (1, ())]).any
      (fun c => (c.agent 0).phase = .returned ∧ (c.agent 1).phase = .returned ∧
        (c.agent 1).retries = 1) = true := by
    decide +kernel
  obtain ⟨c, hc, htest⟩ := System.exists_reachable_of_execute rfl hrun
  obtain ⟨h0, h1, hretries⟩ := of_decide_eq_true htest
  obtain ⟨groups, hgroups, _, hall, _⟩ := marks_never_lost twoGroups hc
  have hunion := hall fun p hp => by
    match p, hp with
    | 0, _ => exact h0
    | 1, _ => exact h1
  refine ⟨c, hretries, ?_⟩
  rw [hgroups, hunion]
  decide

end Marking

end ResiliencyExt.FaultTolerance.Rendezvous
