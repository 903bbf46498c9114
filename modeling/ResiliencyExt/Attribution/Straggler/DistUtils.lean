import Mathlib.Algebra.Order.Ring.Rat
import Mathlib.Data.List.OfFn
import ResiliencyExt.Foundation.Lockstep

set_option autoImplicit false

/-!
# Straggler detection: collective operations

`dist_utils` wraps the collective operations so that a group of one process calls
none.  The operations deliver the data of all ranks in the order of the ranks.  A
tensor is a list of rational numbers, in which NaN is `none` where it can occur.
-/

namespace ResiliencyExt.Attribution.Straggler

open Foundation List

inductive ReduceOp where
  | min
  | max
  deriving DecidableEq, Repr

def ReduceOp.apply : ReduceOp → ℚ → ℚ → ℚ
  | .min => Min.min
  | .max => Max.max

/-- What `all_gather_object` carries. -/
inductive GatheredObject where
  /-- `(section_names, kernel_names)` -/
  | names (sectionNames kernelNames : List String)
  /-- `(self.rank, self.node_name)` -/
  | node (rank : Nat) (nodeName : String)
  deriving DecidableEq, Repr

inductive Collective where
  | allReduce (op : ReduceOp) (tensor : List ℚ)
  | allGatherObject (object : GatheredObject)
  /-- `gather` with `dst=0`. -/
  | gather (tensor : List (Option ℚ))

/-- What all ranks must agree on. -/
inductive Signature where
  | allReduce (op : ReduceOp) (length : Nat)
  | allGatherObject
  | gather (length : Nat)
  deriving DecidableEq, Repr

def Collective.signature : Collective → Signature
  | .allReduce op tensor => .allReduce op tensor.length
  | .allGatherObject _ => .allGatherObject
  | .gather tensor => .gather tensor.length

inductive Reply where
  | tensor (values : List ℚ)
  | objects (objects : List GatheredObject)
  /-- The gather list, which only rank 0 has. -/
  | gathered (tensors : Option (List (List (Option ℚ))))

/-- The elementwise reduction of the tensors of all ranks. -/
def reduceTensors (op : ReduceOp) : List (List ℚ) → List ℚ
  | [] => []
  | tensor :: rest => rest.foldl (zipWith op.apply) tensor

def Collective.reduced : Collective → List ℚ
  | .allReduce _ tensor => tensor
  | _ => []

def Collective.object? : Collective → Option GatheredObject
  | .allGatherObject object => some object
  | _ => none

def Collective.scores : Collective → List (Option ℚ)
  | .gather tensor => tensor
  | _ => []

/-- The process group of `n` ranks. -/
def processGroup (n : Nat) : CollectiveGroup Collective Signature Reply n where
  signature := Collective.signature
  reply ops rank :=
    match ops rank with
    | .allReduce op _ => .tensor (reduceTensors op (ofFn fun r => (ops r).reduced))
    | .allGatherObject _ => .objects ((ofFn ops).filterMap Collective.object?)
    | .gather _ =>
      .gathered (if rank.val = 0 then some (ofFn fun r => (ops r).scores) else none)

/-- The exceptions of the name mapper and of the report. -/
inductive Exn where
  | keyError (name : String)
  | keyErrorId (id : Nat)
  | assertionError
  deriving DecidableEq, Repr

abbrev RankProgram (Result : Type) :=
  Spmd Collective Reply Exn Result

/-! ## The wrappers -/

def Reply.values : Reply → List ℚ
  | .tensor list => list
  | _ => []

def Reply.objectList : Reply → List GatheredObject
  | .objects list => list
  | _ => []

def Reply.gatherList : Reply → Option (List (List (Option ℚ)))
  | .gathered tensors => tensors
  | _ => none

/-- `is_all_true` -/
def isAllTrue (worldSize : Nat) (flag : Bool) : RankProgram Bool :=
  if 1 < worldSize then
    .call (.allReduce .min [if flag then 1 else 0]) fun reply =>
      .done (decide (0 < reply.values.headD 0))
  else .done flag

/-- `all_gather_object` -/
def allGatherObject (worldSize : Nat) (object : GatheredObject) :
    RankProgram (List GatheredObject) :=
  if 1 < worldSize then .call (.allGatherObject object) fun reply => .done reply.objectList
  else .done [object]

/-- `all_reduce` -/
def allReduce (worldSize : Nat) (op : ReduceOp) (tensor : List ℚ) : RankProgram (List ℚ) :=
  if 1 < worldSize then .call (.allReduce op tensor) fun reply => .done reply.values
  else .done tensor

/-- `gather_on_rank0` -/
def gatherOnRank0 (worldSize : Nat) (tensor : List (Option ℚ)) :
    RankProgram (Option (List (List (Option ℚ)))) :=
  if 1 < worldSize then .call (.gather tensor) fun reply => .done reply.gatherList
  else .done (some [tensor])

/-! ## In lockstep -/

/-- The only member of a group of at most one. -/
theorem eq_of_not_one_lt {n : Nat} (h : ¬ 1 < n) (r s : Fin n) : r = s :=
  Fin.ext (by omega)

/-- A group of at most one process has the list of its member. -/
theorem ofFn_of_not_one_lt {α : Type} {n : Nat} (h : ¬ 1 < n) (f : Fin n → α) (r : Fin n) :
    ofFn f = [f r] := by
  have hr := r.isLt
  obtain rfl : n = 1 := by omega
  rw [eq_of_not_one_lt h r 0]
  rfl

/-- The minimum of one number from each rank is positive when all are. -/
theorem pos_reduceTensors_min (first : ℚ) (rest : List ℚ) :
    0 < (reduceTensors .min ((first :: rest).map fun x => [x])).headD 0 ↔
      ∀ x ∈ first :: rest, 0 < x := by
  have hfold : ∀ (rest : List ℚ) (first : ℚ),
      (rest.map fun x => [x]).foldl (zipWith ReduceOp.min.apply) [first] =
        [rest.foldl min first] := by
    intro rest
    induction rest with
    | nil => exact fun _ => rfl
    | cons x rest ih => exact fun first => ih (min first x)
  have hpos : ∀ (rest : List ℚ) (first : ℚ),
      0 < rest.foldl min first ↔ 0 < first ∧ ∀ x ∈ rest, 0 < x := by
    intro rest
    induction rest with
    | nil => simp
    | cons x rest ih =>
      intro first
      rw [foldl_cons, ih, lt_min_iff, forall_mem_cons, and_assoc]
  rw [map_cons, reduceTensors, hfold, headD_cons, hpos, forall_mem_cons]

variable {n : Nat}

/-- All ranks get the conjunction of the flags. -/
theorem isAllTrue_lockstep (flags : Fin n → Bool) : ∃ trace,
    Lockstep (processGroup n) (fun r => isAllTrue n (flags r)) trace
      (fun _ => decide (∀ r, flags r = true)) := by
  by_cases hn : 1 < n
  · obtain ⟨m, rfl⟩ : ∃ m, n = m + 1 := ⟨n - 1, by omega⟩
    let value (r : Fin (m + 1)) : ℚ := if flags r then 1 else 0
    have hreduced : decide (0 < (reduceTensors .min
        (ofFn fun r : Fin (m + 1) => [value r])).headD 0) =
          decide (∀ r, flags r = true) := by
      have hlist : (ofFn fun r : Fin (m + 1) => [value r]) =
          (value 0 :: ofFn fun r : Fin m => value r.succ).map fun x => [x] := by
        rw [ofFn_succ, map_cons, map_ofFn]
        rfl
      refine decide_eq_decide.mpr ?_
      rw [hlist, pos_reduceTensors_min, ← ofFn_succ]
      simp only [forall_mem_ofFn_iff]
      refine forall_congr' fun r => ?_
      by_cases hflag : flags r = true
      · simp [value, hflag]
      · simp [value, hflag]
    have hrun : Lockstep (processGroup (m + 1))
        (fun r => (.call (.allReduce .min [value r]) fun reply =>
          .done (decide (0 < reply.values.headD 0)) : RankProgram Bool)) [.allReduce .min 1]
        (fun _ => decide (0 < (reduceTensors .min
          (ofFn fun r : Fin (m + 1) => [value r])).headD 0)) :=
      .single _ _ fun _ => rfl
    have hprogram : (fun r => isAllTrue (m + 1) (flags r)) = fun r =>
        (.call (.allReduce .min [value r]) fun reply =>
          .done (decide (0 < reply.values.headD 0)) : RankProgram Bool) :=
      funext fun r => if_pos hn
    rw [hprogram, ← hreduced]
    exact ⟨_, hrun⟩
  · refine ⟨[], .done fun r => ?_⟩
    have hall : (∀ s, flags s = true) ↔ flags r = true :=
      ⟨fun h => h r, fun h s => eq_of_not_one_lt hn r s ▸ h⟩
    have hflag : decide (∀ s, flags s = true) = flags r := by
      rw [Bool.eq_iff_iff, decide_eq_true_eq]
      exact hall
    rw [isAllTrue, if_neg hn, hflag]

/-- All ranks get the objects of all ranks. -/
theorem allGatherObject_lockstep (objects : Fin n → GatheredObject) : ∃ trace,
    Lockstep (processGroup n) (fun r => allGatherObject n (objects r)) trace
      (fun _ => ofFn objects) := by
  by_cases hn : 1 < n
  · have hrun : Lockstep (processGroup n)
        (fun r => (.call (.allGatherObject (objects r)) fun reply => .done reply.objectList :
          RankProgram (List GatheredObject))) [.allGatherObject]
        (fun _ => (ofFn fun r => Collective.allGatherObject (objects r)).filterMap
          Collective.object?) :=
      .single _ _ fun _ => rfl
    have hlist : (ofFn fun r => Collective.allGatherObject (objects r)).filterMap
        Collective.object? = ofFn objects := by
      have hmap : (ofFn fun r => Collective.allGatherObject (objects r)) =
          (ofFn objects).map Collective.allGatherObject := map_ofFn.symm
      rw [hmap, filterMap_map]
      exact filterMap_some
    have hprogram : (fun r => allGatherObject n (objects r)) = fun r =>
        (.call (.allGatherObject (objects r)) fun reply => .done reply.objectList :
          RankProgram (List GatheredObject)) := funext fun r => if_pos hn
    rw [hprogram, ← hlist]
    exact ⟨_, hrun⟩
  · refine ⟨[], .done fun r => ?_⟩
    rw [allGatherObject, if_neg hn, ofFn_of_not_one_lt hn objects r]

/-- With tensors of one length all ranks get the reduced tensor. -/
theorem allReduce_lockstep (op : ReduceOp) {tensors : Fin n → List ℚ} {length : Nat}
    (hlength : ∀ r, (tensors r).length = length) : ∃ trace,
    Lockstep (processGroup n) (fun r => allReduce n op (tensors r)) trace
      (fun _ => reduceTensors op (ofFn tensors)) := by
  by_cases hn : 1 < n
  · have hrun : Lockstep (processGroup n)
        (fun r => (.call (.allReduce op (tensors r)) fun reply => .done reply.values :
          RankProgram (List ℚ))) [.allReduce op length]
        (fun _ => reduceTensors op (ofFn tensors)) :=
      .single _ _ fun r => congrArg (Signature.allReduce op) (hlength r)
    have hprogram : (fun r => allReduce n op (tensors r)) = fun r =>
        (.call (.allReduce op (tensors r)) fun reply => .done reply.values :
          RankProgram (List ℚ)) := funext fun r => if_pos hn
    rw [hprogram]
    exact ⟨_, hrun⟩
  · refine ⟨[], .done fun r => ?_⟩
    rw [allReduce, if_neg hn, ofFn_of_not_one_lt hn tensors r]
    rfl

/-- With tensors of one length rank 0 gets the tensors of all ranks. -/
theorem gatherOnRank0_lockstep {tensors : Fin n → List (Option ℚ)} {length : Nat}
    (hlength : ∀ r, (tensors r).length = length) : ∃ trace,
    Lockstep (processGroup n) (fun r => gatherOnRank0 n (tensors r)) trace
      (fun r => if r.val = 0 then some (ofFn tensors) else none) := by
  by_cases hn : 1 < n
  · have hrun : Lockstep (processGroup n)
        (fun r => (.call (.gather (tensors r)) fun reply => .done reply.gatherList :
          RankProgram (Option (List (List (Option ℚ)))))) [.gather length]
        (fun r => if r.val = 0 then some (ofFn tensors) else none) :=
      .single _ _ fun r => congrArg Signature.gather (hlength r)
    have hprogram : (fun r => gatherOnRank0 n (tensors r)) = fun r =>
        (.call (.gather (tensors r)) fun reply => .done reply.gatherList :
          RankProgram (Option (List (List (Option ℚ))))) := funext fun r => if_pos hn
    rw [hprogram]
    exact ⟨_, hrun⟩
  · refine ⟨[], .done fun r => ?_⟩
    have hr := r.isLt
    rw [gatherOnRank0, if_neg hn, ofFn_of_not_one_lt hn tensors r, if_pos (by omega)]

end ResiliencyExt.Attribution.Straggler
