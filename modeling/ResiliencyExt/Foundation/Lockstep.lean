import Mathlib.Tactic.Choose

set_option autoImplicit false

/-!
# Foundation: programs of collective operations

The members of a group run programs that meet in collective operations.  An
operation completes when every member has called one with the same signature; each
member then goes on with its own reply.  Members that call operations with different
signatures, or of which only some are done, wait for ever: such programs are not in
`Lockstep`.
-/

namespace ResiliencyExt.Foundation

/-- What the members of a group must agree on in an operation, and what each of them gets from
what all of them contribute. -/
structure CollectiveGroup (Op Sig Reply : Type) (n : Nat) where
  signature : Op → Sig
  reply : (Fin n → Op) → Fin n → Reply

/-- A program of one member. -/
inductive Spmd (Op Reply Error Result : Type) where
  | done (result : Result)
  | raise (error : Error)
  | call (op : Op) (next : Reply → Spmd Op Reply Error Result)

namespace Spmd

variable {Op Reply Error Result Result' : Type}

def bind (f : Result → Spmd Op Reply Error Result') :
    Spmd Op Reply Error Result → Spmd Op Reply Error Result'
  | .done result => f result
  | .raise error => .raise error
  | .call op next => .call op fun reply => (next reply).bind f

instance : Monad (Spmd Op Reply Error) where
  pure := .done
  bind program f := program.bind f

/-- A program without operations, from a computation that may fail. -/
def ofExcept : Except Error Result → Spmd Op Reply Error Result
  | .ok result => .done result
  | .error error => .raise error

end Spmd

/-- All members come to their results, through operations with the signatures of `trace`. -/
inductive Lockstep {Op Sig Reply Error Result : Type} {n : Nat}
    (group : CollectiveGroup Op Sig Reply n) :
    (Fin n → Spmd Op Reply Error Result) → List Sig → (Fin n → Result) → Prop
  | done {programs : Fin n → Spmd Op Reply Error Result} {results : Fin n → Result}
      (hdone : ∀ r, programs r = .done (results r)) : Lockstep group programs [] results
  | call {programs : Fin n → Spmd Op Reply Error Result} {ops : Fin n → Op}
      {next : Fin n → Reply → Spmd Op Reply Error Result} {sig : Sig} {trace : List Sig}
      {results : Fin n → Result} (hcall : ∀ r, programs r = .call (ops r) (next r))
      (hsig : ∀ r, group.signature (ops r) = sig)
      (rest : Lockstep group (fun r => next r (group.reply ops r)) trace results) :
      Lockstep group programs (sig :: trace) results

namespace Lockstep

variable {Op Sig Reply Error Result Result' : Type} {n : Nat}
  {group : CollectiveGroup Op Sig Reply n}

variable {results : Fin n → Result} {programs : Fin n → Spmd Op Reply Error Result}
    {trace trace' : List Sig}

theorem pure (results : Fin n → Result) :
    Lockstep group (fun r => (.done (results r) : Spmd Op Reply Error Result)) [] results :=
  .done fun _ => rfl

/-- One operation, each member with its reply for a result. -/
theorem single (ops : Fin n → Op) {sig : Sig} (f : Fin n → Reply → Result)
    (hsig : ∀ r, group.signature (ops r) = sig) :
    Lockstep group
      (fun r => (.call (ops r) fun reply => .done (f r reply) : Spmd Op Reply Error Result)) [sig]
      (fun r => f r (group.reply ops r)) :=
  .call (fun _ => rfl) hsig (.done fun _ => rfl)

theorem bind {f : Fin n → Result → Spmd Op Reply Error Result'} {results' : Fin n → Result'}
    (h : Lockstep group programs trace results)
    (h' : Lockstep group (fun r => f r (results r)) trace' results') :
    Lockstep group (fun r => programs r >>= f r) (trace ++ trace') results' := by
  induction h with
  | @done programs results hdone =>
    have hsame : (fun r => programs r >>= f r) = fun r => f r (results r) := by
      funext r
      rw [hdone r]
      rfl
    rw [hsame]
    exact h'
  | @call programs ops next sig trace results hcall hsig _ ih =>
    have hcall' : ∀ r, (programs r >>= f r) = .call (ops r) fun reply => next r reply >>= f r := by
      intro r
      rw [hcall r]
      rfl
    exact .call hcall' hsig (ih h')

/-- Computations that succeed, each with a result of which `P` holds. -/
theorem ofExcept (group : CollectiveGroup Op Sig Reply n)
    {computations : Fin n → Except Error Result} {P : Fin n → Result → Prop}
      (h : ∀ r, ∃ result, computations r = .ok result ∧ P r result) :
    ∃ results, Lockstep group (fun r => Spmd.ofExcept (computations r)) [] results ∧
      ∀ r, P r (results r) := by
  choose results hresults hP using h
  refine ⟨results, .done fun r => ?_, hP⟩
  rw [hresults r]
  rfl

/-- What the members do is determined by their programs. -/
theorem unique (member : Fin n) {results' : Fin n → Result}
    (h : Lockstep group programs trace results) (h' : Lockstep group programs trace' results') :
    trace' = trace ∧ results' = results := by
  induction h generalizing trace' with
  | done hdone =>
    cases h' with
    | done hdone' =>
      refine ⟨rfl, funext fun r => ?_⟩
      exact Spmd.done.inj ((hdone' r).symm.trans (hdone r))
    | call hcall _ _ => exact absurd ((hdone member).symm.trans (hcall member)) nofun
  | @call programs ops next sig trace results hcall hsig _ ih =>
    cases h' with
    | done hdone' => exact absurd ((hcall member).symm.trans (hdone' member)) nofun
    | @call _ ops' next' sig' trace' _ hcall' hsig' rest' =>
      have hinj := fun r => Spmd.call.inj ((hcall' r).symm.trans (hcall r))
      obtain rfl : ops' = ops := funext fun r => (hinj r).1
      obtain rfl : next' = next := funext fun r => (hinj r).2
      obtain ⟨htrace, hresults⟩ := ih rest'
      rw [htrace, ← hsig member, hsig' member]
      exact ⟨rfl, hresults⟩

theorem results_unique {results' : Fin n → Result} (h : Lockstep group programs trace results)
    (h' : Lockstep group programs trace' results') : results' = results :=
  funext fun r => congrFun (h.unique r h').2 r

end Lockstep

end ResiliencyExt.Foundation
