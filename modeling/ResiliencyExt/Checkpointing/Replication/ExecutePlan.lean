import ResiliencyExt.Checkpointing.Replication.ExchangePlan
import ResiliencyExt.Foundation.Choreography
import ResiliencyExt.Foundation.Dict

set_option autoImplicit false

/-!
# Replication: the execution of a plan

Every member walks the whole plan and performs the sends and receives it takes
part in.  A state dict goes as its hollow part, an object that is preceded by its
size, and then tensor by tensor; the receiver learns from the hollow part how many
tensors follow.

The entries of a plan are the choreography that all members follow, so a plan
that all members share is executed without a deadlock.
-/

namespace ResiliencyExt.Checkpointing.Replication

open Foundation List

/-! ## State dicts and their messages -/

/-- A `TensorAwareStateDict`: `placeholders` of the hollow part is the number of its
tensors. -/
structure StateDict (Hollow Tensor : Type) (placeholders : Hollow → Nat) where
  hollow : Hollow
  tensors : List Tensor
  count : tensors.length = placeholders hollow
  deriving DecidableEq

inductive PlanMsg (Hollow Tensor : Type) where
  | objectSizes
  | object (hollow : Hollow)
  | tensor (value : Tensor)

inductive ExecuteError where
  /-- Not all required data was provided. -/
  | assertionError
  | keyError
  /-- A tensor arrives in place of an object, or the other way round. -/
  | mismatch
  deriving DecidableEq, Repr

variable {Id Hollow Tensor : Type} {placeholders : Hollow → Nat} {Result : Type}

/-- A program that exchanges state dicts. -/
abbrev PlanProgram (Hollow Tensor Result : Type) :=
  Program (PlanMsg Hollow Tensor) ExecuteError Result

/-- `send` of one tensor after the other. -/
def sendTensors (dst : Nat) (tensors : List Tensor) (next : PlanProgram Hollow Tensor Result) :
    PlanProgram Hollow Tensor Result :=
  tensors.foldr (fun value next => .send dst (.tensor value) next) next

/-- `isend_state_dict` -/
def isendStateDict (dst : Nat) (data : StateDict Hollow Tensor placeholders)
    (next : PlanProgram Hollow Tensor Result) : PlanProgram Hollow Tensor Result :=
  .send dst .objectSizes (.send dst (.object data.hollow) (sendTensors dst data.tensors next))

/-- `recv` of a number of tensors. -/
def recvTensors (src : Nat) : (count : Nat) →
    ({tensors : List Tensor // tensors.length = count} → PlanProgram Hollow Tensor Result) →
    PlanProgram Hollow Tensor Result
  | 0, next => next ⟨[], rfl⟩
  | count + 1, next =>
    .recv src fun
      | .tensor value => recvTensors src count fun tensors =>
        next ⟨value :: tensors.1, congrArg Nat.succ tensors.2⟩
      | _ => .raise .mismatch

/-- `irecv_state_dict` -/
def irecvStateDict (src : Nat)
    (next : StateDict Hollow Tensor placeholders → PlanProgram Hollow Tensor Result) :
    PlanProgram Hollow Tensor Result :=
  .recv src fun
    | .objectSizes => .recv src fun
        | .object hollow => recvTensors src (placeholders hollow) fun tensors =>
          next ⟨hollow, tensors.1, tensors.2⟩
        | _ => .raise .mismatch
    | _ => .raise .mismatch

/-- The messages of a state dict, in order. -/
def StateDict.messages (data : StateDict Hollow Tensor placeholders) :
    List (PlanMsg Hollow Tensor) :=
  .objectSizes :: .object data.hollow :: data.tensors.map .tensor

variable {p src dst : Nat} {transfers : List (Transfer (PlanMsg Hollow Tensor))}
  {result : Result}

theorem follows_sendTensors (hne : dst ≠ p) (tensors : List Tensor)
    {next : PlanProgram Hollow Tensor Result} (h : Follows p transfers next result) :
    Follows p (tensors.map (fun value => ⟨p, dst, .tensor value⟩) ++ transfers)
      (sendTensors dst tensors next) result := by
  induction tensors with
  | nil => exact h
  | cons value tensors ih => exact .send hne ih

theorem follows_isendStateDict (hne : dst ≠ p) (data : StateDict Hollow Tensor placeholders)
    {next : PlanProgram Hollow Tensor Result} (h : Follows p transfers next result) :
    Follows p (data.messages.map (fun msg => ⟨p, dst, msg⟩) ++ transfers)
      (isendStateDict dst data next) result := by
  have htensors := follows_sendTensors hne data.tensors h
  simp only [StateDict.messages, map_cons, map_map, cons_append]
  exact .send hne (.send hne htensors)

theorem follows_recvTensors (hne : src ≠ p) (tensors : List Tensor) {count : Nat}
    (hcount : tensors.length = count)
    (next : {tensors : List Tensor // tensors.length = count} →
      PlanProgram Hollow Tensor Result)
    (h : Follows p transfers (next ⟨tensors, hcount⟩) result) :
    Follows p (tensors.map (fun value => ⟨src, p, .tensor value⟩) ++ transfers)
      (recvTensors src count next) result := by
  induction tensors generalizing count with
  | nil =>
    subst hcount
    exact h
  | cons value tensors ih =>
    subst hcount
    exact .recv hne (ih rfl _ h)

theorem follows_irecvStateDict (hne : src ≠ p) (data : StateDict Hollow Tensor placeholders)
    {next : StateDict Hollow Tensor placeholders → PlanProgram Hollow Tensor Result}
    (h : Follows p transfers (next data) result) :
    Follows p (data.messages.map (fun msg => ⟨src, p, msg⟩) ++ transfers)
      (irecvStateDict src next) result := by
  have htensors := follows_recvTensors hne data.tensors data.count
    (fun tensors => next ⟨data.hollow, tensors.1, tensors.2⟩) h
  simp only [StateDict.messages, map_cons, map_map, cons_append]
  exact .recv hne (.recv hne htensors)

/-- A process that is neither sender nor receiver ignores the messages. -/
theorem follows_ignore (hsrc : src ≠ p) (hdst : dst ≠ p) (msgs : List (PlanMsg Hollow Tensor))
    {program : PlanProgram Hollow Tensor Result} (h : Follows p transfers program result) :
    Follows p (msgs.map (fun msg => ⟨src, dst, msg⟩) ++ transfers) program result := by
  induction msgs with
  | nil => exact h
  | cons msg msgs ih => exact .skip hsrc hdst ih

/-! ## Walking the plan -/

variable [DecidableEq Id]

/-- The result of `execute_plan`: received state dicts by id. -/
abbrev RecvBuf (Id Hollow Tensor : Type) (placeholders : Hollow → Nat) :=
  Dict Id (StateDict Hollow Tensor placeholders)

/-- The loop of `execute_plan` in member `m`. -/
def executeEntries (m : Nat) (myData : Id → Option (StateDict Hollow Tensor placeholders)) :
    ExchangePlan Id → RecvBuf Id Hollow Tensor placeholders →
      PlanProgram Hollow Tensor (RecvBuf Id Hollow Tensor placeholders)
  | [], recvBuf => .done recvBuf
  | entry :: plan, recvBuf =>
    if entry.sender = m ∧ m = entry.receiver then
      match myData entry.id with
      | none => .raise .keyError
      | some data => executeEntries m myData plan (recvBuf.set entry.id data)
    else if entry.sender = m then
      match myData entry.id with
      | none => .raise .keyError
      | some data => isendStateDict entry.receiver data (executeEntries m myData plan recvBuf)
    else if entry.receiver = m then
      irecvStateDict entry.sender fun data =>
        executeEntries m myData plan (recvBuf.set entry.id data)
    else executeEntries m myData plan recvBuf

/-- `required_ids` -/
def requiredIds (plan : ExchangePlan Id) (m : Nat) : List Id :=
  (plan.filter fun entry => entry.sender = m).map fun entry => entry.id

/-- `execute_plan` in member `m`. -/
def executePlan (m : Nat) (plan : ExchangePlan Id)
    (myData : Id → Option (StateDict Hollow Tensor placeholders)) :
    PlanProgram Hollow Tensor (RecvBuf Id Hollow Tensor placeholders) :=
  if (requiredIds plan m).all fun id => (myData id).isSome then
    executeEntries m myData plan .empty
  else .raise .assertionError

/-- The data of all members holds what they must send. -/
def Provides (data : Nat → Id → Option (StateDict Hollow Tensor placeholders))
    (plan : ExchangePlan Id) : Prop :=
  ∀ m, ∀ id ∈ requiredIds plan m, (data m id).isSome

variable (data : Nat → Id → Option (StateDict Hollow Tensor placeholders))

/-- The transfers of an entry. -/
def entryTransfers (entry : ExchangePlanEntry Id) : List (Transfer (PlanMsg Hollow Tensor)) :=
  match data entry.sender entry.id with
  | none => []
  | some value =>
    if entry.sender = entry.receiver then []
    else value.messages.map fun msg => ⟨entry.sender, entry.receiver, msg⟩

/-- What an entry puts into the result of member `m`. -/
def receiveEntry (m : Nat) (recvBuf : RecvBuf Id Hollow Tensor placeholders)
    (entry : ExchangePlanEntry Id) : RecvBuf Id Hollow Tensor placeholders :=
  match data entry.sender entry.id with
  | none => recvBuf
  | some value => if entry.receiver = m then recvBuf.set entry.id value else recvBuf

variable {data}

theorem provides_iff {plan : ExchangePlan Id} :
    Provides data plan ↔ ∀ entry ∈ plan, (data entry.sender entry.id).isSome := by
  constructor
  · intro h entry hentry
    refine h entry.sender entry.id (mem_map.mpr ⟨entry, ?_, rfl⟩)
    exact mem_filter.mpr ⟨hentry, decide_eq_true rfl⟩
  · intro h m id hid
    obtain ⟨entry, hentry, rfl⟩ := mem_map.mp hid
    obtain ⟨hmem, hsender⟩ := mem_filter.mp hentry
    exact of_decide_eq_true hsender ▸ h entry hmem

/-- Each member follows the transfers of all entries, in the order of the plan. -/
theorem follows_executeEntries (m : Nat) (plan : ExchangePlan Id)
    (hdata : ∀ entry ∈ plan, (data entry.sender entry.id).isSome)
    (recvBuf : RecvBuf Id Hollow Tensor placeholders) :
    Follows m (plan.flatMap (entryTransfers data)) (executeEntries m (data m) plan recvBuf)
      (plan.foldl (receiveEntry data m) recvBuf) := by
  induction plan generalizing recvBuf with
  | nil => exact .done recvBuf
  | cons entry plan ih =>
    obtain ⟨value, hvalue⟩ := Option.isSome_iff_exists.mp (hdata entry mem_cons_self)
    have hrest := ih fun e he => hdata e (mem_cons_of_mem _ he)
    rw [flatMap_cons, foldl_cons]
    rcases eq_or_ne entry.sender m with rfl | hsender
    · rcases eq_or_ne entry.receiver entry.sender with hself | hreceiver
      · -- sending to oneself
        rw [executeEntries, if_pos ⟨rfl, hself.symm⟩]
        simp only [entryTransfers, receiveEntry, hvalue, if_pos hself, if_pos hself.symm]
        exact hrest _
      · rw [executeEntries, if_neg fun h => hreceiver h.2.symm, if_pos rfl]
        simp only [entryTransfers, receiveEntry, hvalue, if_neg hreceiver,
          if_neg hreceiver.symm]
        exact follows_isendStateDict hreceiver value (hrest _)
    · rw [executeEntries, if_neg fun h => hsender h.1, if_neg hsender]
      rcases eq_or_ne entry.receiver m with rfl | hreceiver
      · rw [if_pos rfl]
        simp only [entryTransfers, receiveEntry, hvalue, if_neg hsender, if_pos rfl]
        exact follows_irecvStateDict hsender value (hrest _)
      · -- an entry that is not relevant to the member
        rw [if_neg hreceiver]
        simp only [entryTransfers, receiveEntry, hvalue, if_neg hreceiver]
        split
        · exact hrest _
        · exact follows_ignore hsender hreceiver _ (hrest _)

/-! ## The result of a member -/

/-- What `execute_plan` returns in member `m`. -/
def executeResult (data : Nat → Id → Option (StateDict Hollow Tensor placeholders))
    (plan : ExchangePlan Id) (m : Nat) : RecvBuf Id Hollow Tensor placeholders :=
  plan.foldl (receiveEntry data m) .empty

/-- An id that some entry brings to the member is mapped to the data of a sender that
the plan assigns to it. -/
theorem get?_foldl_receiveEntry {m : Nat} {id : Id} {plan : ExchangePlan Id}
    (hdata : ∀ entry ∈ plan, (data entry.sender entry.id).isSome)
    (recvBuf : RecvBuf Id Hollow Tensor placeholders) :
    (plan.foldl (receiveEntry data m) recvBuf).get? id = recvBuf.get? id ∧
        (∀ entry ∈ plan, entry.receiver = m → entry.id ≠ id) ∨
    ∃ entry ∈ plan, (entry.receiver = m ∧ entry.id = id) ∧
      (plan.foldl (receiveEntry data m) recvBuf).get? id = data entry.sender id := by
  induction plan generalizing recvBuf with
  | nil => exact Or.inl ⟨rfl, nofun⟩
  | cons entry plan ih =>
    obtain ⟨value, hvalue⟩ := Option.isSome_iff_exists.mp (hdata entry mem_cons_self)
    rw [foldl_cons]
    rcases ih (fun e he => hdata e (mem_cons_of_mem _ he))
        (receiveEntry data m recvBuf entry) with
      ⟨hkept, hnone⟩ | ⟨later, hlater, hmatch, hget⟩
    · rw [hkept]
      by_cases hentry : entry.receiver = m ∧ entry.id = id
      · obtain ⟨hreceiver, rfl⟩ := hentry
        refine Or.inr ⟨entry, mem_cons_self, ⟨hreceiver, rfl⟩, ?_⟩
        simp only [receiveEntry, hvalue, if_pos hreceiver]
        exact Dict.get?_set_self _ _ _
      · refine Or.inl ⟨?_, fun e he hreceiver hid => ?_⟩
        · simp only [receiveEntry, hvalue]
          split
          · rename_i hreceiver
            exact Dict.get?_set_of_ne _ _ fun heq => hentry ⟨hreceiver, heq.symm⟩
          · rfl
        · rcases mem_cons.mp he with rfl | hmem
          · exact hentry ⟨hreceiver, hid⟩
          · exact hnone e hmem hreceiver hid
    · exact Or.inr ⟨later, mem_cons_of_mem _ hlater, hmatch, hget⟩

/-- A member gets no ids but those that some entry brings to it. -/
theorem mem_keys_foldl_receiveEntry {m : Nat} {id : Id} {plan : ExchangePlan Id}
    {recvBuf : RecvBuf Id Hollow Tensor placeholders}
    (h : id ∈ (plan.foldl (receiveEntry data m) recvBuf).keys) :
    id ∈ recvBuf.keys ∨ ∃ entry ∈ plan, entry.receiver = m ∧ entry.id = id := by
  induction plan generalizing recvBuf with
  | nil => exact Or.inl h
  | cons entry plan ih =>
    rcases ih h with hmem | ⟨later, hlater, hmatch⟩
    · unfold receiveEntry at hmem
      split at hmem
      · exact Or.inl hmem
      · split at hmem
        · rename_i hreceiver
          rcases Dict.mem_keys_set.mp hmem with rfl | hmem
          · exact Or.inr ⟨entry, mem_cons_self, hreceiver, rfl⟩
          · exact Or.inl hmem
        · exact Or.inl hmem
    · exact Or.inr ⟨later, mem_cons_of_mem _ hlater, hmatch⟩

/-! ## The exchange of a group -/

/-- All members execute one plan; the others have nothing to do. -/
def exchange (members : Finset Nat) (capacity : Nat → Nat → Nat) (plan : ExchangePlan Id)
    (data : Nat → Id → Option (StateDict Hollow Tensor placeholders))
    (hdata : Provides data plan)
    (hmem : ∀ entry ∈ plan, entry.sender ∈ members ∧ entry.receiver ∈ members) :
    Choreography (PlanMsg Hollow Tensor) ExecuteError
      (RecvBuf Id Hollow Tensor placeholders) where
  members := members
  capacity := capacity
  transfers := plan.flatMap (entryTransfers data)
  mem t ht := by
    obtain ⟨entry, hentry, ht⟩ := mem_flatMap.mp ht
    unfold entryTransfers at ht
    split at ht
    · cases ht
    · split at ht
      · cases ht
      · obtain ⟨_, _, rfl⟩ := mem_map.mp ht
        exact hmem entry hentry
  program m := executePlan m plan (data m)
  result := executeResult data plan
  follows m := by
    rw [executePlan, if_pos (all_eq_true.mpr fun id hid => hdata m id hid)]
    exact follows_executeEntries m plan (provides_iff.mp hdata) .empty

namespace ReplicationGroup

/-- All members raise `NoReplicasAvailableError` for one id when some wanted id is held
by none of them.  Otherwise they have one plan, which has an entry for every receiver and
wanted id, with a sender that holds the id and is the receiver if that holds it.  When
the members' data holds what they must send, no interleaving of the blocking sends and
receives comes to a deadlock or goes on for ever, and a member that is done has, for
every id it wants, the data of a sender that the plan assigns to it. -/
theorem retrieval_consistent_and_complete (G : ReplicationGroup Id)
    (capacity : Nat → Nat → Nat)
    (data : Nat → Id → Option (StateDict Hollow Tensor placeholders)) :
    ((∃ m ∈ G.ranks, ∃ r ∈ G.ranks, ∃ id ∈ G.wanted r, ¬ G.Held m id) →
      ∃ id, ∀ m ∈ G.ranks, G.retrievePlan m = .error ⟨id⟩) ∧
    ((∀ m ∈ G.ranks, ∀ r ∈ G.ranks, ∀ id ∈ G.wanted r, G.Held m id) → ∃ plan,
      (∀ m ∈ G.ranks, G.retrievePlan m = .ok plan) ∧
      (plan.map fun e => (e.receiver, e.id)) = G.requests ∧
      (∀ m ∈ G.ranks, ∀ e ∈ plan, G.Serves m e) ∧
      (Provides data plan →
        let A := pointToPoint capacity fun m => executePlan m plan (data m)
        (∀ actions d, A.system.Run (fun _ _ => True) A.initial actions d →
          actions.length ≤
            G.ranks.length * (2 * (plan.flatMap (entryTransfers data)).length)) ∧
        ∀ c, A.system.Reachable (fun _ _ => True) c →
          ((∀ m, c.agent m = .running (.done (executeResult data plan m))) ∨
            ∃ a d, A.system.step c a = some d) ∧
          (∀ m error, c.agent m ≠ .running (.raise error)) ∧
          ∀ m ∈ G.ranks, ∀ recvBuf, c.agent m = .running (.done recvBuf) →
            ∀ id ∈ G.wanted m, ∃ e ∈ plan, (e.receiver = m ∧ e.id = id) ∧
              recvBuf.get? id = data e.sender id)) := by
  refine ⟨fun ⟨m₀, hm₀, r, hr, id, hid, hnot⟩ => ?_, fun hheld => ?_⟩
  · rcases G.retrievePlan_spec m₀ with ⟨_, _, id', _, _, herror⟩ | ⟨hall, _⟩
    · exact ⟨id', fun m hm => (retrievePlan_congr hm hm₀).trans herror⟩
    · exact absurd (hall r hr id hid) hnot
  · obtain ⟨m₀, hm₀⟩ : ∃ m₀, ∀ m ∈ G.ranks, m₀ ∈ G.ranks := by
      cases G.ranks with
      | nil => exact ⟨0, nofun⟩
      | cons m _ => exact ⟨m, fun _ _ => mem_cons_self⟩
    rcases G.retrievePlan_spec m₀ with
      ⟨r, hr, id, hid, hnot, _⟩ | ⟨_, plan, hok, hmap, hserves⟩
    · exact absurd (hheld m₀ (hm₀ r hr) r hr id hid) hnot
    have hrequest : ∀ e ∈ plan, e.receiver ∈ G.ranks := fun e he =>
      (mem_requests.mp (hmap ▸ mem_map_of_mem he)).1
    refine ⟨plan, fun m hm => (retrievePlan_congr hm (hm₀ m hm)).trans hok, hmap,
      fun m hm e he => (hserves e he).congr (hm₀ m hm) hm, fun hdata => ?_⟩
    let C := exchange G.ranks.toFinset capacity plan data hdata fun e he =>
      ⟨mem_toFinset.mpr (hserves e he).sender_mem, mem_toFinset.mpr (hrequest e he)⟩
    refine ⟨fun actions d hrun => ?_, fun c hc => ⟨C.no_deadlock hc,
      (C.result_of_done hc).2, fun m hm recvBuf hdone id hid => ?_⟩⟩
    · rw [← toFinset_card_of_nodup G.nodup]
      exact C.run_finite hrun
    · have hresult : recvBuf = executeResult data plan m :=
        (C.result_of_done hc).1 m recvBuf hdone
      rw [hresult]
      rcases get?_foldl_receiveEntry (provides_iff.mp hdata) .empty with
        ⟨_, hnone⟩ | ⟨e, he, hmatch, hget⟩
      · -- the request of the id has an entry
        have hmem : (m, id) ∈ plan.map fun e => (e.receiver, e.id) := by
          rw [hmap]
          exact mem_requests.mpr ⟨hm, hid⟩
        obtain ⟨e, he, heq⟩ := mem_map.mp hmem
        exact absurd (congrArg Prod.snd heq) (hnone e he (congrArg Prod.fst heq))
      · exact ⟨e, he, hmatch, hget⟩

/-- Ranks 2 and 5 both want the ids 7 and 8; each of them holds one. -/
def crossed : ReplicationGroup Nat where
  ranks := [2, 5]
  nodup := by decide
  rng := ⟨Unit, fun _ => (), fun state choices => (choices.headD 0, state), fun _ choices h => by
    cases choices with
    | nil => exact absurd rfl h
    | cons _ _ => exact mem_cons_self⟩
  globallyAvailableIds _ rank := if rank = 2 then [7] else [8]
  wanted _ := [7, 8]
  same _ _ _ _ := rfl

/-- The state dict with id 7 has two tensors, and the one with id 8 has none. -/
def crossedData (rank id : Nat) : Option (StateDict Nat Nat fun hollow => hollow) :=
  if rank = 2 ∧ id = 7 then some ⟨2, [70, 71], rfl⟩
  else if rank = 5 ∧ id = 8 then some ⟨0, [], rfl⟩
  else none

/-- The result of a process that is done, as the value under one id. -/
def resultAt (id : Nat) : Process (PlanMsg Nat Nat) ExecuteError
    (RecvBuf Nat Nat Nat fun hollow => hollow) → Option (StateDict Nat Nat fun hollow => hollow)
  | .running (.done recvBuf) => recvBuf.get? id
  | _ => none

/-- With sends that wait for their receives, rank 5 ends with the data of both. -/
theorem retrieval_crossed :
    ∃ plan, (∀ m ∈ crossed.ranks, crossed.retrievePlan m = .ok plan) ∧
      ∃ c, (pointToPoint (fun _ _ => 0) fun m => executePlan m plan (crossedData m)).system.Reachable
          (fun _ _ => True) c ∧
        ∃ e ∈ plan, (e.receiver = 5 ∧ e.id = 7) ∧
          resultAt 7 (c.agent 5) = crossedData e.sender 7 := by
  obtain ⟨plan, hplan, _, _, hexecute⟩ :=
    (retrieval_consistent_and_complete crossed (fun _ _ => 0) crossedData).2 (by
      intro m _ r _ id hid
      have hcase : id = 7 ∨ id = 8 := by simpa [crossed] using hid
      rcases hcase with rfl | rfl
      · exact ⟨2, by decide, by simp [crossed]⟩
      · exact ⟨5, by decide, by simp [crossed]⟩)
  have hfound : crossed.retrievePlan 2 = .ok [⟨2, 2, 7⟩, ⟨5, 2, 8⟩, ⟨2, 5, 7⟩, ⟨5, 5, 8⟩] := rfl
  obtain rfl : [⟨2, 2, 7⟩, ⟨5, 2, 8⟩, ⟨2, 5, 7⟩, ⟨5, 5, 8⟩] = plan :=
    Except.ok.inj (hfound.symm.trans (hplan 2 (by decide)))
  refine ⟨_, hplan, ?_⟩
  obtain ⟨_, hreached⟩ := hexecute (provides_iff.mpr (by decide))
  have hrun : ((pointToPoint (fun _ _ => 0) fun m => executePlan m
      [⟨2, 2, 7⟩, ⟨5, 2, 8⟩, ⟨2, 5, 7⟩, ⟨5, 5, 8⟩] (crossedData m)).system.execute
        (fun _ _ => True)
        (pointToPoint (fun _ _ => 0) fun m => executePlan m
          [⟨2, 2, 7⟩, ⟨5, 2, 8⟩, ⟨2, 5, 7⟩, ⟨5, 5, 8⟩] (crossedData m)).initial
        [(5, ()), (2, ()), (5, ()), (5, ()), (2, ()), (5, ()), (2, ()), (5, ()), (2, ()), (2, ()),
          (5, ()), (2, ()), (2, ()), (5, ()), (2, ()), (2, ()), (5, ()), (2, ())]).any
        (fun c => (resultAt 7 (c.agent 5)).isSome) = true := by
    decide +kernel
  obtain ⟨c, hc, htest⟩ := System.exists_reachable_of_execute rfl hrun
  refine ⟨c, hc, ?_⟩
  cases hagent : c.agent 5 with
  | posted dst next => simp [hagent, resultAt] at htest
  | running program =>
    cases program with
    | done recvBuf =>
      exact (hreached c hc).2.2 5 (by decide) recvBuf hagent 7 (by decide)
    | raise error => simp [hagent, resultAt] at htest
    | send dst msg next => simp [hagent, resultAt] at htest
    | recv src next => simp [hagent, resultAt] at htest

end ReplicationGroup

end ResiliencyExt.Checkpointing.Replication
