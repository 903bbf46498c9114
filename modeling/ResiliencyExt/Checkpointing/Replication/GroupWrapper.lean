import Mathlib.Data.List.FinRange
import ResiliencyExt.Foundation.Lockstep

set_option autoImplicit false

/-!
# Replication: collectives of a group

`GroupWrapper.all_gather_batch` gathers placeholders of all tensors and then has every
member broadcast its own.  Each member finds the global rank of the source by itself.
A tensor is known by its shape, type and content; the devices to which `to` moves the
tensors are left out.
-/

namespace ResiliencyExt.Checkpointing.Replication

open Foundation List

/-- `torch.distributed`, as far as the wrapper uses it: a process group numbers its ranks. -/
structure Dist (Group : Type) where
  /-- `get_world_size()` -/
  worldSize : Nat
  /-- `get_process_group_ranks` -/
  groupRanks : Group → List Nat
  getGroupRank : Group → Nat → Nat
  getGlobalRank : Group → Nat → Nat
  getGlobalRank_eq : ∀ group (r : Fin (groupRanks group).length),
    getGlobalRank group r = (groupRanks group).get r
  getGroupRank_eq : ∀ group (r : Fin (groupRanks group).length),
    getGroupRank group ((groupRanks group).get r) = r

/-- `TensorPlaceholder` -/
structure TensorKind (Tensor Placeholder : Type) where
  placeholder : Tensor → Placeholder
  emptyLike : Placeholder → Tensor
  placeholder_emptyLike : ∀ p, placeholder (emptyLike p) = p

/-- Without a process group the wrapper is of the default group. -/
structure GroupWrapper (Group : Type) where
  group : Option Group

namespace GroupWrapper

variable {Group : Type} (dist : Dist Group) (w : GroupWrapper Group)

/-- `get_group_rank` of the process with the global rank `me`. -/
def getGroupRank (me : Nat) (globalRank : Option Nat) : Nat :=
  match globalRank, w.group with
  -- `dist.get_rank(self.group)`
  | none, none => me
  | none, some group => dist.getGroupRank group me
  | some rank, none => rank
  | some rank, some group => dist.getGroupRank group rank

/-- `get_global_rank` -/
def getGlobalRank (me : Nat) (groupRank : Option Nat) : Nat :=
  match groupRank, w.group with
  | some rank, some group => dist.getGlobalRank group rank
  | _, _ => me

/-- `ranks` -/
def ranks : List Nat :=
  match w.group with
  | none => List.range dist.worldSize
  | some group => dist.groupRanks group

/-- `world_size` -/
abbrev worldSize : Nat :=
  (w.ranks dist).length

end GroupWrapper

/-! ## Collectives -/

inductive GatherOp (Tensor Placeholder : Type) where
  | allGatherObject (placeholders : List Placeholder)
  | broadcast (tensor : Tensor) (src : Nat)

/-- What all members must agree on. -/
inductive GatherSignature (Placeholder : Type) where
  | allGatherObject
  | broadcast (placeholder : Placeholder) (src : Nat)

inductive GatherReply (Tensor Placeholder : Type) where
  | objects (placeholders : List (List Placeholder))
  | delivered (tensor : Tensor)

/-- `my_tensors[i]` past the end. -/
inductive GatherError where
  | indexError

variable {Group Tensor Placeholder : Type}

def GatherOp.signature (kind : TensorKind Tensor Placeholder) :
    GatherOp Tensor Placeholder → GatherSignature Placeholder
  | .allGatherObject _ => .allGatherObject
  | .broadcast tensor src => .broadcast (kind.placeholder tensor) src

def GatherOp.placeholders : GatherOp Tensor Placeholder → List Placeholder
  | .allGatherObject placeholders => placeholders
  | .broadcast _ _ => []

def GatherOp.tensor? : GatherOp Tensor Placeholder → Option Tensor
  | .allGatherObject _ => none
  | .broadcast tensor _ => some tensor

def GatherReply.placeholders : GatherReply Tensor Placeholder → List (List Placeholder)
  | .objects placeholders => placeholders
  | .delivered _ => []

/-- The members, each with its global rank; a broadcast gives all of them the tensor of its
source. -/
def gatherGroup (kind : TensorKind Tensor Placeholder) {n : Nat} (globalRank : Fin n → Nat) :
    CollectiveGroup (GatherOp Tensor Placeholder) (GatherSignature Placeholder)
      (GatherReply Tensor Placeholder) n where
  signature := GatherOp.signature kind
  reply ops r :=
    match ops r with
    | .allGatherObject _ => .objects (ofFn fun q => (ops q).placeholders)
    | .broadcast tensor src =>
      let source := (finRange n).find? fun q => globalRank q = src
      .delivered ((source.bind fun q => (ops q).tensor?).getD tensor)

/-- A program of one member. -/
abbrev GatherProgram (Tensor Placeholder Result : Type) :=
  Spmd (GatherOp Tensor Placeholder) (GatherReply Tensor Placeholder) GatherError Result

/-- The tensor that a broadcast leaves in the buffer of a member. -/
def GatherReply.tensorOr (buffer : Tensor) : GatherReply Tensor Placeholder → Tensor
  | .objects _ => buffer
  | .delivered tensor => tensor

section Program

variable (dist : Dist Group) (kind : TensorKind Tensor Placeholder) (w : GroupWrapper Group)
  (me : Nat) (myTensors : List Tensor)

/-- The broadcasts of the tensors of one member, from its `i`-th on. -/
def broadcastTensors (iAmBroadcasting : Bool) (src : Nat) :
    Nat → List Placeholder → List Tensor → GatherProgram Tensor Placeholder (List Tensor)
  | _, [], result => .done result
  | i, tp :: placeholders, result =>
    match if iAmBroadcasting then myTensors[i]? else some (kind.emptyLike tp) with
    | none => .raise .indexError
    | some ten => .call (.broadcast ten src) fun reply =>
      broadcastTensors iAmBroadcasting src (i + 1) placeholders
        (result ++ [reply.tensorOr ten])

/-- The loop over the members that broadcast. -/
def broadcastAll : Nat → List (List Placeholder) → List (List Tensor) →
    GatherProgram Tensor Placeholder (List (List Tensor))
  | _, [], result => .done result
  | broadcastingRank, placeholders :: rest, result => do
    let tensors ← broadcastTensors kind myTensors
      (broadcastingRank == w.getGroupRank dist me none)
      (w.getGlobalRank dist me (some broadcastingRank)) 0 placeholders []
    broadcastAll (broadcastingRank + 1) rest (result ++ [tensors])

/-- `all_gather_batch` -/
def allGatherBatch : GatherProgram Tensor Placeholder (List (List Tensor)) :=
  .call (.allGatherObject (myTensors.map kind.placeholder)) fun reply =>
    broadcastAll dist kind w me myTensors 0 reply.placeholders []

end Program

/-- All members issue the same collectives, with the same sources, and each returns the tensors of
all members by their group ranks. -/
def AllGathers (dist : Dist Group) (kind : TensorKind Tensor Placeholder) (w : GroupWrapper Group)
    (myTensors : Fin (w.worldSize dist) → List Tensor) : Prop :=
  ∃ trace, Lockstep (gatherGroup kind (w.ranks dist).get)
    (fun r => allGatherBatch dist kind w ((w.ranks dist).get r) (myTensors r)) trace
    fun _ => ofFn myTensors

/-! ## Ranks -/

section Ranks

variable (dist : Dist Group) (w : GroupWrapper Group)

theorem getGroupRank_my (r : Fin (w.worldSize dist)) :
    w.getGroupRank dist ((w.ranks dist).get r) none = r := by
  obtain ⟨_ | group⟩ := w
  · exact getElem_range _
  · exact dist.getGroupRank_eq group r

theorem getGroupRank_eq (me : Nat) (r : Fin (w.worldSize dist)) :
    w.getGroupRank dist me (some ((w.ranks dist).get r)) = r := by
  obtain ⟨_ | group⟩ := w
  · exact getElem_range _
  · exact dist.getGroupRank_eq group r

theorem ranks_injective : Function.Injective (w.ranks dist).get := by
  intro r r' heq
  have h := (getGroupRank_my dist w r).symm
  rw [heq, getGroupRank_my] at h
  exact Fin.ext h

/-- Every member finds the same source. -/
def SameSources : Prop :=
  ∀ r q : Fin (w.worldSize dist),
    w.getGlobalRank dist ((w.ranks dist).get r) (some q) = (w.ranks dist).get q

theorem sameSources_iff : SameSources dist w ↔ w.group.isSome = true ∨ w.worldSize dist ≤ 1 := by
  obtain ⟨_ | group⟩ := w
  · constructor
    · intro h
      refine .inr (Nat.le_of_not_lt fun hlt => ?_)
      -- the processes 0 and 1 each take themselves for the source
      have hzero := h ⟨0, Nat.zero_lt_of_lt hlt⟩ ⟨1, hlt⟩
      exact absurd (ranks_injective dist ⟨none⟩ hzero) (by simp)
    · rintro (h | h) r q
      · cases h
      · have hrq : r = q := Fin.ext (by omega)
        rw [hrq]
        rfl
  · exact iff_of_true (fun r q => dist.getGlobalRank_eq group q) (.inl rfl)

/-- `get_global_rank` inverts `get_group_rank`. -/
def Inverts : Prop :=
  ∀ me ∈ w.ranks dist, ∀ rank ∈ w.ranks dist,
    w.getGlobalRank dist me (some (w.getGroupRank dist me (some rank))) = rank

theorem inverts_iff_sameSources : Inverts dist w ↔ SameSources dist w := by
  constructor
  · intro h r q
    have hq := h _ (get_mem _ r) _ (get_mem _ q)
    rwa [getGroupRank_eq] at hq
  · intro h me hme rank hrank
    obtain ⟨r, rfl⟩ := get_of_mem hme
    obtain ⟨q, rfl⟩ := get_of_mem hrank
    rw [getGroupRank_eq]
    exact h r q

end Ranks

/-! ## Members in step -/

section Members

variable {dist : Dist Group} {kind : TensorKind Tensor Placeholder} {w : GroupWrapper Group}
  {myTensors : Fin (w.worldSize dist) → List Tensor}

/-- The source of a broadcast is the member with its rank. -/
theorem find_source (q : Fin (w.worldSize dist)) :
    (finRange (w.worldSize dist)).find?
      (fun r => (w.ranks dist).get r = (w.ranks dist).get q) = some q := by
  refine find?_eq_some_iff_append.mpr ⟨decide_eq_true rfl, ?_⟩
  obtain ⟨before, after, hsplit⟩ := append_of_mem (mem_finRange q)
  refine ⟨before, after, hsplit, fun r hr => ?_⟩
  have hnodup : (before ++ q :: after).Nodup := hsplit ▸ nodup_finRange _
  have hne : r ≠ q := (nodup_append.mp hnodup).2.2 r hr q mem_cons_self
  simpa using fun heq => hne (ranks_injective dist w heq)

theorem broadcastTensors_cons {tensors : List Tensor} {iAmBroadcasting : Bool} {src i : Nat}
    {tp : Placeholder} {ten : Tensor}
    (h : (if iAmBroadcasting then tensors[i]? else some (kind.emptyLike tp)) = some ten)
    (placeholders : List Placeholder) (result : List Tensor) :
    broadcastTensors kind tensors iAmBroadcasting src i (tp :: placeholders) result =
      .call (.broadcast ten src) fun reply =>
        broadcastTensors kind tensors iAmBroadcasting src (i + 1) placeholders
          (result ++ [reply.tensorOr ten]) := by
  rw [broadcastTensors, h]

/-- All members broadcast the tensors of member `q`. -/
theorem broadcastTensors_lockstep (q : Fin (w.worldSize dist)) (rest : List Tensor) :
    ∀ i result, (myTensors q).drop i = rest →
      ∃ trace, Lockstep (gatherGroup kind (w.ranks dist).get)
        (fun r => broadcastTensors kind (myTensors r) (q.val == r.val) ((w.ranks dist).get q) i
          (rest.map kind.placeholder) result) trace fun _ => result ++ rest := by
  induction rest with
  | nil => exact fun i result _ => ⟨[], .done fun _ => congrArg _ (append_nil result).symm⟩
  | cons ten rest ih =>
    intro i result hdrop
    have hget : (myTensors q)[i]? = some ten := by
      rw [← Nat.add_zero i, ← getElem?_drop, hdrop]
      rfl
    have htail : (myTensors q).drop (i + 1) = rest := by
      rw [← drop_drop, hdrop]
      rfl
    obtain ⟨trace, hrest⟩ := ih (i + 1) (result ++ [ten]) htail
    let buffer : Fin (w.worldSize dist) → Tensor := fun r =>
      if q.val = r.val then ten else kind.emptyLike (kind.placeholder ten)
    have hbuffer : ∀ r, (if (q.val == r.val) = true then (myTensors r)[i]?
        else some (kind.emptyLike (kind.placeholder ten))) = some (buffer r) := by
      intro r
      by_cases hr : q.val = r.val
      · obtain rfl := Fin.ext hr
        simp [buffer, hget]
      · simp [buffer, hr]
    have hkind : ∀ r, kind.placeholder (buffer r) = kind.placeholder ten := by
      intro r
      by_cases hr : q.val = r.val
      · simp [buffer, hr]
      · simp [buffer, hr, kind.placeholder_emptyLike]
    have hdelivered : ∀ r, (gatherGroup kind (w.ranks dist).get).reply
        (fun r => .broadcast (buffer r) ((w.ranks dist).get q)) r = .delivered ten := by
      intro r
      simp only [gatherGroup]
      rw [find_source]
      simp [GatherOp.tensor?, buffer]
    simp only [map_cons, broadcastTensors_cons (hbuffer _)]
    refine ⟨.broadcast (kind.placeholder ten) ((w.ranks dist).get q) :: trace,
      .call (fun _ => rfl) (fun r => congrArg (GatherSignature.broadcast · _) (hkind r)) ?_⟩
    simp only [hdelivered, GatherReply.tensorOr]
    rw [append_assoc] at hrest
    exact hrest

variable (kind) in
/-- The loop of all members, where they find the same source for each member with tensors. -/
theorem broadcastAll_lockstep
    (hsrc : ∀ q : Fin (w.worldSize dist), myTensors q = [] ∨ ∀ r,
      w.getGlobalRank dist ((w.ranks dist).get r) (some q) = (w.ranks dist).get q)
    (rest : List (List Tensor)) :
    ∀ k result, (ofFn myTensors).drop k = rest →
      ∃ trace, Lockstep (gatherGroup kind (w.ranks dist).get)
        (fun r => broadcastAll dist kind w ((w.ranks dist).get r) (myTensors r) k
          (rest.map (map kind.placeholder)) result) trace fun _ => result ++ rest := by
  induction rest with
  | nil => exact fun k result _ => ⟨[], .done fun _ => congrArg _ (append_nil result).symm⟩
  | cons tensors rest ih =>
    intro k result hdrop
    have hget : (ofFn myTensors)[k]? = some tensors := by
      rw [← Nat.add_zero k, ← getElem?_drop, hdrop]
      rfl
    obtain ⟨hk, htensors⟩ := List.getElem?_eq_some_iff.mp hget
    rw [length_ofFn] at hk
    rw [List.getElem_ofFn] at htensors
    have htail : (ofFn myTensors).drop (k + 1) = rest := by
      rw [← drop_drop, hdrop]
      rfl
    have hfirst : ∃ trace, Lockstep (gatherGroup kind (w.ranks dist).get)
        (fun r => broadcastTensors kind (myTensors r)
          (k == w.getGroupRank dist ((w.ranks dist).get r) none)
          (w.getGlobalRank dist ((w.ranks dist).get r) (some k)) 0
          (tensors.map kind.placeholder) []) trace fun _ => tensors := by
      rcases hsrc ⟨k, hk⟩ with hnil | hsame
      · have hnil' : tensors = [] := htensors.symm.trans hnil
        subst hnil'
        exact ⟨[], .done fun _ => rfl⟩
      · simp only [getGroupRank_my, hsame]
        exact broadcastTensors_lockstep ⟨k, hk⟩ tensors 0 [] htensors
    obtain ⟨trace, hfirst⟩ := hfirst
    obtain ⟨trace', hrest⟩ := ih (k + 1) (result ++ [tensors]) htail
    rw [append_assoc] at hrest
    exact ⟨_, hfirst.bind hrest⟩

/-- The first operation of the loop, where the first list is not empty. -/
theorem broadcastAll_src {me k : Nat} {tensors : List Tensor} {tp : Placeholder}
    {placeholders : List Placeholder} {rest : List (List Placeholder)}
    {result : List (List Tensor)} :
    broadcastAll dist kind w me tensors k ((tp :: placeholders) :: rest) result =
        .raise .indexError ∨
      ∃ ten next, broadcastAll dist kind w me tensors k ((tp :: placeholders) :: rest) result =
        .call (.broadcast ten (w.getGlobalRank dist me (some k))) next := by
  rw [broadcastAll, broadcastTensors]
  split
  · exact .inl rfl
  next ten _ => exact .inr ⟨ten, _, rfl⟩

/-- Members of the default group that run through a broadcast are the same one. -/
theorem same_of_lockstep (hnone : w.group = none) (lists : List (List Placeholder)) :
    ∀ {k result trace} {results : Fin (w.worldSize dist) → List (List Tensor)},
      Lockstep (gatherGroup kind (w.ranks dist).get)
        (fun r => broadcastAll dist kind w ((w.ranks dist).get r) (myTensors r) k lists result)
        trace results →
      (∃ list ∈ lists, list ≠ []) → ∀ r r', (w.ranks dist).get r = (w.ranks dist).get r' := by
  induction lists with
  | nil => exact fun _ hlist => absurd hlist (by simp)
  | cons list lists ih =>
    intro k result trace results h hlist r r'
    cases list with
    | nil =>
      refine ih h ?_ r r'
      obtain ⟨list, hmem, hne⟩ := hlist
      exact ⟨list, (mem_cons.mp hmem).resolve_left hne, hne⟩
    | cons tp placeholders =>
      have hself : ∀ me, w.getGlobalRank dist me (some k) = me := by
        intro me
        simp only [GroupWrapper.getGlobalRank, hnone]
      cases h with
      | done hdone =>
        rcases broadcastAll_src with hfail | ⟨_, _, hcall⟩
        · exact absurd ((hdone r).symm.trans hfail) nofun
        · exact absurd ((hdone r).symm.trans hcall) nofun
      | @call _ ops next sig _ _ hcall hsig _ =>
        have hsrc : ∀ r, ∃ p, sig = .broadcast p ((w.ranks dist).get r) := by
          intro r
          rcases broadcastAll_src with hfail | ⟨ten, _, hfirst⟩
          · exact absurd ((hcall r).symm.trans hfail) nofun
          · have hop := (Spmd.call.inj ((hcall r).symm.trans hfirst)).1
            refine ⟨kind.placeholder ten, ?_⟩
            rw [← hsig r, hop, hself]
            rfl
        obtain ⟨p, hp⟩ := hsrc r
        obtain ⟨p', hp'⟩ := hsrc r'
        exact (GatherSignature.broadcast.inj (hp.symm.trans hp')).2

/-- What the members get from the first operation. -/
theorem gathered_placeholders (r : Fin (w.worldSize dist)) :
    ((gatherGroup kind (w.ranks dist).get).reply
      (fun r => .allGatherObject ((myTensors r).map kind.placeholder)) r).placeholders =
        (ofFn myTensors).map (map kind.placeholder) := by
  rw [map_ofFn]
  rfl

theorem allGathers_of_sources
    (hsrc : ∀ q : Fin (w.worldSize dist), myTensors q = [] ∨ ∀ r,
      w.getGlobalRank dist ((w.ranks dist).get r) (some q) = (w.ranks dist).get q) :
    AllGathers dist kind w myTensors := by
  obtain ⟨trace, hloop⟩ := broadcastAll_lockstep kind hsrc _ 0 [] rfl
  refine ⟨.allGatherObject :: trace, .call (fun _ => rfl) (fun _ => rfl) ?_⟩
  simp only [gathered_placeholders]
  exact hloop

theorem same_of_allGathers (hnone : w.group = none) {q : Fin (w.worldSize dist)}
    (hq : myTensors q ≠ []) (h : AllGathers dist kind w myTensors)
    (r r' : Fin (w.worldSize dist)) : r = r' := by
  obtain ⟨trace, h⟩ := h
  cases h with
  | done hdone => exact absurd (hdone q) nofun
  | @call _ ops next sig _ _ hcall hsig rest =>
    have hops : ops = fun r => .allGatherObject ((myTensors r).map kind.placeholder) :=
      funext fun r => (Spmd.call.inj (hcall r)).1.symm
    have hnext : next = fun r reply => broadcastAll dist kind w ((w.ranks dist).get r)
        (myTensors r) 0 reply.placeholders [] := funext fun r => (Spmd.call.inj (hcall r)).2.symm
    subst hops hnext
    simp only [gathered_placeholders] at rest
    refine ranks_injective dist w (same_of_lockstep hnone _ rest ?_ r r')
    refine ⟨(myTensors q).map kind.placeholder, mem_map_of_mem ?_, ?_⟩
    · exact mem_ofFn.mpr ⟨q, rfl⟩
    · exact fun hnil => hq (map_eq_nil_iff.mp hnil)

end Members

/-- The members gather all tensors, and the two conversions of ranks are inverses, except in the
default group of more than one rank, where every member takes itself for the source. -/
theorem allGathers_iff (dist : Dist Group) (kind : TensorKind Tensor Placeholder)
    (w : GroupWrapper Group) (myTensors : Fin (w.worldSize dist) → List Tensor) :
    (AllGathers dist kind w myTensors ↔
      (w.group.isSome = true ∨ w.worldSize dist ≤ 1) ∨ ∀ r, myTensors r = []) ∧
    (Inverts dist w ↔ w.group.isSome = true ∨ w.worldSize dist ≤ 1) := by
  refine ⟨⟨fun h => ?_, ?_⟩, (inverts_iff_sameSources dist w).trans (sameSources_iff dist w)⟩
  · by_contra hnot
    rw [not_or, not_or, not_le, not_forall] at hnot
    obtain ⟨⟨hnone, hlt⟩, q, hq⟩ := hnot
    rw [Bool.not_eq_true, Option.isSome_eq_false_iff, Option.isNone_iff_eq_none] at hnone
    have heq := same_of_allGathers hnone hq h ⟨0, Nat.zero_lt_of_lt hlt⟩ ⟨1, hlt⟩
    exact absurd (Fin.mk.inj heq) Nat.zero_ne_one
  · rintro (hsame | hnil)
    · exact allGathers_of_sources fun q => .inr fun r => (sameSources_iff dist w).mpr hsame r q
    · exact allGathers_of_sources fun q => .inl (hnil q)

/-! ## The default group of two ranks -/

/-- Process groups as lists of ranks. -/
def listDist (worldSize : Nat) : Dist {ranks : List Nat // ranks.Nodup} where
  worldSize := worldSize
  groupRanks group := group.1
  getGroupRank group rank := group.1.idxOf rank
  getGlobalRank group r := group.1.getD r 0
  getGlobalRank_eq group r := by
    rw [getD_eq_getElem?_getD, getElem?_eq_getElem r.isLt]
    rfl
  getGroupRank_eq group r := group.2.idxOf_getElem r.1 r.isLt

/-- Vectors, with their lengths for placeholders. -/
def vectors : TensorKind (List Nat) Nat where
  placeholder := List.length
  emptyLike size := replicate size 0
  placeholder_emptyLike _ := length_replicate

theorem not_allGathers_default :
    ¬ ∀ (w : GroupWrapper {ranks : List Nat // ranks.Nodup})
        (myTensors : Fin (w.worldSize (listDist 2)) → List (List Nat)),
      AllGathers (listDist 2) vectors w myTensors := by
  intro h
  have hall : AllGathers (listDist 2) vectors ⟨none⟩ fun r => [[r.val]] := h _ _
  have hzero : 0 < (GroupWrapper.mk none).worldSize (listDist 2) := by decide
  have hone : 1 < (GroupWrapper.mk none).worldSize (listDist 2) := by decide
  have hsame := same_of_allGathers rfl (q := ⟨0, hzero⟩) (cons_ne_nil _ _) hall ⟨0, hzero⟩
    ⟨1, hone⟩
  exact absurd (Fin.mk.inj hsame) Nat.zero_ne_one

end ResiliencyExt.Checkpointing.Replication
