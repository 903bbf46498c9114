import ResiliencyExt.Attribution.RestartAgent.InvocationGates

set_option autoImplicit false

/-!
# Restart agent: the order of the calls of one key

The gate of a key is shared by the calls that use it as long as there is one (`GatesKept`), and
the generation of the key tells the last call that began apart from the ones it came in for
(`GenerationsKept`).  So an update is accepted exactly when its call is open and no later call of
its key has begun (`GenerationsKept.acceptsUpdate_eq`).
-/

namespace ResiliencyExt.Attribution.RestartAgent

open Foundation List Function

/-- The call has begun and is not closed. -/
def CallPhase.inside : CallPhase → Bool
  | .running | .writing _ => true
  | .entered | .locked | .closed | .released | .left => false

/-- The call has not begun. -/
def CallPhase.before : CallPhase → Bool
  | .entered | .locked => true
  | .running | .writing _ | .closed | .released | .left => false

namespace GateState

/-! ## Steps -/

variable {s t : GateState} {index : Nat} {next call other : RuntimeCall}
    {calls : List RuntimeCall}

theorem onTop_eq_some {next : RuntimeCall → Option GateState} (h : s.onTop index next = some t) :
    ∃ call, s.calls[index]? = some call ∧ s.isTop index call = true ∧ next call = some t := by
  unfold onTop at h
  split at h
  · next call hcall =>
    split at h
    · next htop => exact ⟨call, hcall, htop, h⟩
    · cases h
  · cases h

theorem onDelivery_eq_some {next : RuntimeCall → Option GateState}
    (h : s.onDelivery index next = some t) :
    ∃ call, s.calls[index]? = some call ∧ call.settled = true ∧
      (call.phase = .running → s.isTop index call = true) ∧ next call = some t := by
  unfold onDelivery at h
  split at h
  · next call hcall =>
    split at h
    · next hready =>
      rw [Bool.and_eq_true, Bool.or_eq_true] at hready
      refine ⟨call, hcall, hready.1, fun hrunning => hready.2.resolve_left fun hne => ?_, h⟩
      exact of_decide_eq_true hne hrunning
    · cases h
  · cases h

theorem not_active_of_isTop {later : Nat} (htop : s.isTop index call = true)
    (hother : s.calls[later]? = some other) (hlater : index < later)
    (hthread : other.thread = call.thread) : other.active = false := by
  have hmem : other ∈ s.calls.drop (index + 1) := by
    refine mem_of_getElem? (i := later - (index + 1)) ?_
    rw [getElem?_drop, Nat.add_sub_cancel' hlater]
    exact hother
  have hor := all_eq_true.mp htop other hmem
  rw [Bool.or_eq_true] at hor
  rcases hor with hne | hinactive
  · exact absurd hthread (of_decide_eq_true hne)
  · exact Bool.not_eq_true' _ ▸ hinactive

theorem thread_of_lockFree (hfree : s.lockFree call = true) (hother : other ∈ s.calls)
    (hholding : other.holding = true) (hgate : other.gate = call.gate) :
    other.thread = call.thread := by
  have hor := all_eq_true.mp hfree other hother
  simpa [hgate, hholding] using hor

/-- A call of the changed list is the changed call or one that was there. -/
theorem getElem?_set_eq_some {i : Nat} (h : (calls.set index call)[i]? = some other) :
    (i = index ∧ other = call) ∨ (i ≠ index ∧ calls[i]? = some other) := by
  rw [getElem?_set] at h
  split at h
  · next heq =>
    split at h
    · exact .inl ⟨heq.symm, (Option.some.inj h).symm⟩
    · cases h
  · next hne => exact .inr ⟨fun heq => hne heq.symm, h⟩

/-- A call that is changed counts as often as it did. -/
theorem countP_set_of_eq {p : RuntimeCall → Bool} (hcall : calls[index]? = some call)
    (hp : p next = p call) : (calls.set index next).countP p = calls.countP p := by
  obtain ⟨hlen, hget⟩ := List.getElem?_eq_some_iff.mp hcall
  rw [List.countP_set hlen, hget, hp]
  split
  · next htrue =>
    have hpos := countP_pos_iff.mpr ⟨call, mem_of_getElem? hcall, htrue⟩
    omega
  · rfl

/-- A call that no longer counts. -/
theorem countP_set_of_not {p : RuntimeCall → Bool} (hcall : calls[index]? = some call)
    (hp : p call = true) (hnext : p next = false) :
    (calls.set index next).countP p = calls.countP p - 1 := by
  obtain ⟨hlen, hget⟩ := List.getElem?_eq_some_iff.mp hcall
  rw [List.countP_set hlen, hget, if_pos hp, hnext]
  rfl

/-! ## Gates -/

/-- The calls that use a gate are counted, and their key has this gate and no other.  The calls
that hold a gate are of one thread, and of a thread's calls only the last one is not in a
callback. -/
structure GatesKept (s : GateState) : Prop where
  fresh : ∀ call ∈ s.calls, call.gate < s.nextGate
  freshKeys : ∀ key gate, s.keyGates.get? key = some gate → gate < s.nextGate
  counted : ∀ gate, s.users gate = s.calls.countP fun call => call.active && call.gate = gate
  registered : ∀ call ∈ s.calls, call.active = true → s.keyGates.get? call.key = some call.gate
  exclusive : ∀ first ∈ s.calls, ∀ second ∈ s.calls, first.holding = true →
    second.holding = true → first.gate = second.gate → first.thread = second.thread
  nested : ∀ (i j : Nat) (first second : RuntimeCall), s.calls[i]? = some first →
    s.calls[j]? = some second → i < j → second.thread = first.thread → first.active = true →
      second.active = true → first.phase = .running

theorem active_of_holding (h : call.holding = true) : call.active = true := by
  unfold RuntimeCall.holding at h
  unfold RuntimeCall.active
  split at h
  · cases h
  · cases h
  · cases h
  · next hphase => simp [hphase]
  · next hphase => simp [hphase]
  · next hphase => simp [hphase]
  · next hphase => simp [hphase]

/-- A call goes on: it stays a user of its gate, takes the lock only when it is free, and leaves
its place on its thread only from the top. -/
theorem GatesKept.set (h : s.GatesKept) (hcall : s.calls[index]? = some call)
    (hcalls : t.calls = s.calls.set index next) (hkeyGates : t.keyGates = s.keyGates)
    (husers : t.users = s.users) (hnextGate : t.nextGate = s.nextGate)
    (hthread : next.thread = call.thread) (hkey : next.key = call.key)
    (hgate : next.gate = call.gate) (hactive : next.active = call.active)
    (hholding : next.holding = true → call.holding = true ∨ s.lockFree call = true)
    (htop : s.isTop index call = true ∨ next.phase = call.phase) : t.GatesKept := by
  have hmem := mem_of_getElem? hcall
  have hlen : index < s.calls.length := (List.getElem?_eq_some_iff.mp hcall).1
  have hcases : ∀ other ∈ t.calls, other = next ∨ other ∈ s.calls := by
    intro other hother
    rw [hcalls] at hother
    exact (mem_or_eq_of_mem_set hother).symm
  refine ⟨fun other hother => ?_, ?_, fun gate => ?_, fun other hother hactive' => ?_,
    fun first hfirst second hsecond hheld hheld' hsame => ?_,
    fun i j first second hi hj hij hsame hfirst hsecond => ?_⟩
  · rw [hnextGate]
    rcases hcases other hother with rfl | hold
    · rw [hgate]
      exact h.fresh call hmem
    · exact h.fresh other hold
  · rw [hkeyGates, hnextGate]
    exact h.freshKeys
  · rw [husers, hcalls, countP_set_of_eq hcall (by rw [hactive, hgate])]
    exact h.counted gate
  · rw [hkeyGates]
    rcases hcases other hother with rfl | hold
    · rw [hkey, hgate]
      exact h.registered call hmem (hactive ▸ hactive')
    · exact h.registered other hold hactive'
  · have hfree : ∀ other ∈ s.calls, other.holding = true → other.gate = next.gate →
        next.holding = true → other.thread = next.thread := by
      intro other hold hother hsame hnext
      rw [hgate] at hsame
      rw [hthread]
      rcases hholding hnext with hheld | hfree
      · exact h.exclusive other hold call hmem hother hheld hsame
      · exact thread_of_lockFree hfree hold hother hsame
    rcases hcases first hfirst with rfl | hold <;> rcases hcases second hsecond with rfl | hold'
    · rfl
    · exact (hfree second hold' hheld' hsame.symm hheld).symm
    · exact hfree first hold hheld hsame hheld'
    · exact h.exclusive first hold second hold' hheld hheld' hsame
  · rw [hcalls] at hi hj
    rcases getElem?_set_eq_some hi with ⟨rfl, rfl⟩ | ⟨hne, hold⟩ <;>
      rcases getElem?_set_eq_some hj with ⟨rfl, rfl⟩ | ⟨hne', hold'⟩
    · omega
    · rw [hactive] at hfirst
      rw [hthread] at hsame
      rcases htop with htop | hphase
      · exact absurd hsecond (Bool.eq_false_iff.mp (not_active_of_isTop htop hold' hij hsame))
      · rw [hphase]
        exact h.nested i j call second hcall hold' hij hsame hfirst hsecond
    · rw [hactive] at hsecond
      rw [hthread] at hsame
      exact h.nested i j first call hold hcall hij hsame hfirst hsecond
    · exact h.nested i j first second hold hold' hij hsame hfirst hsecond

theorem gatesKept_start (store : AttemptRecordStore) : ({ store := store } : GateState).GatesKept :=
  ⟨fun _ h => absurd h not_mem_nil, fun _ _ h => absurd h (by intro h; cases h),
    fun _ => rfl, fun _ h => absurd h not_mem_nil, fun _ h => absurd h not_mem_nil,
    fun _ _ _ _ h => absurd h (by intro h; cases h)⟩

/-- A call that waits for the lock of a gate is one user more. -/
theorem GatesKept.push (h : s.GatesKept) (hcalls : t.calls = s.calls ++ [call])
    (hphase : call.phase = .entered) (hthread : s.canEnter call.thread = true)
    (hgate : call.gate < t.nextGate) (hnextGate : s.nextGate ≤ t.nextGate)
    (hkeys : ∀ key gate, t.keyGates.get? key = some gate → gate < t.nextGate)
    (husers : t.users = update s.users call.gate (s.users call.gate + 1))
    (hregistered : t.keyGates.get? call.key = some call.gate)
    (hkept : ∀ key gate, s.keyGates.get? key = some gate → t.keyGates.get? key = some gate) :
    t.GatesKept := by
  have hactive : call.active = true := by
    unfold RuntimeCall.active
    rw [hphase]
    rfl
  have hholding : call.holding = false := by
    unfold RuntimeCall.holding
    rw [hphase]
  have hcases : ∀ other ∈ t.calls, other ∈ s.calls ∨ other = call := by
    intro other hother
    rw [hcalls] at hother
    exact (mem_append.mp hother).imp_right mem_singleton.mp
  refine ⟨fun other hother => ?_, hkeys, fun gate => ?_, fun other hother hactive' => ?_,
    fun first hfirst second hsecond hheld hheld' hsame => ?_,
    fun i j first second hi hj hij hsame hfirst hsecond => ?_⟩
  · rcases hcases other hother with hold | rfl
    · exact Nat.lt_of_lt_of_le (h.fresh other hold) hnextGate
    · exact hgate
  · rw [husers, hcalls, countP_append, ← h.counted]
    by_cases hgates : gate = call.gate
    · subst hgates
      rw [update_self, countP_singleton, hactive]
      simp
    · rw [update_of_ne hgates, countP_singleton, hactive]
      simp [Ne.symm hgates]
  · rcases hcases other hother with hold | rfl
    · exact hkept _ _ (h.registered other hold hactive')
    · exact hregistered
  · rcases hcases first hfirst with hold | rfl
    · rcases hcases second hsecond with hold' | rfl
      · exact h.exclusive first hold second hold' hheld hheld' hsame
      · exact absurd hheld' (Bool.eq_false_iff.mp hholding)
    · exact absurd hheld (Bool.eq_false_iff.mp hholding)
  · rw [hcalls] at hi hj
    have hj' : j < (s.calls ++ [call]).length := (List.getElem?_eq_some_iff.mp hj).1
    rw [length_append, length_singleton] at hj'
    rw [getElem?_append_left (by omega)] at hi
    by_cases hlast : j < s.calls.length
    · rw [getElem?_append_left hlast] at hj
      exact h.nested i j first second hi hj hij hsame hfirst hsecond
    · rw [getElem?_append_right (by omega), show j - s.calls.length = 0 by omega] at hj
      cases hj
      have hor := all_eq_true.mp hthread first (mem_of_getElem? hi)
      simpa [hsame, hfirst] using hor

/-- A call comes to the gate of its key, or to a new one. -/
theorem GatesKept.enter (h : s.GatesKept) {thread : Nat} (hthread : s.canEnter thread = true)
    (key : RecordKey) : (s.enter thread key).GatesKept := by
  unfold GateState.enter
  split
  · next gate hgate =>
    exact h.push rfl rfl hthread (h.freshKeys key gate hgate) (Nat.le_refl _) h.freshKeys rfl
      hgate fun _ _ hkey => hkey
  · next hnone =>
    have hunused : s.users s.nextGate = 0 := by
      rw [h.counted, countP_eq_zero]
      intro call hcall hcounts
      have hlt := h.fresh call hcall
      have heq : call.gate = s.nextGate := of_decide_eq_true (Bool.and_eq_true _ _ ▸ hcounts).2
      omega
    refine h.push rfl rfl hthread (Nat.lt_succ_self _) (Nat.le_succ _) (fun key' gate hget => ?_)
      (by rw [hunused]) (Dict.get?_set_self _ _ _) fun key' gate hget => ?_
    · rw [Dict.get?_set] at hget
      split at hget
      · cases hget
        exact Nat.lt_succ_self _
      · exact Nat.lt_succ_of_lt (h.freshKeys key' gate hget)
    · have hne : key' ≠ key := by
        rintro rfl
        rw [hnone] at hget
        cases hget
      exact (Dict.get?_set_of_ne _ _ hne).trans hget

/-- What leaving does to everything but the dictionaries. -/
theorem leave_eq (s : GateState) (index : Nat) (call : RuntimeCall) :
    (s.leave index call).calls = s.calls.set index { call with phase := .left } ∧
      (s.leave index call).users =
        update s.users call.gate (s.users call.gate - 1) ∧
      (s.leave index call).nextGate = s.nextGate ∧ (s.leave index call).begins = s.begins ∧
      (s.leave index call).store = s.store := by
  unfold leave
  dsimp only
  split <;> exact ⟨rfl, rfl, rfl, rfl, rfl⟩

/-- The dictionaries keep their keys, but for that of a gate that nobody uses any more. -/
theorem leave_keys (s : GateState) (index : Nat) (call : RuntimeCall) :
    ((s.leave index call).keyGates = s.keyGates ∧
        (s.leave index call).generations = s.generations) ∨
      ((s.leave index call).users call.gate = 0 ∧
        (s.leave index call).keyGates = s.keyGates.erase call.key ∧
        (s.leave index call).generations = s.generations.erase call.key) := by
  unfold leave
  dsimp only
  split
  · next hlast => exact .inr ⟨(update_self _ _ _).trans hlast.1, rfl, rfl⟩
  · exact .inl ⟨rfl, rfl⟩

/-- The last one of a gate's users drops it. -/
theorem GatesKept.leave (h : s.GatesKept) (hcall : s.calls[index]? = some call)
    (hphase : call.phase = .released) : (s.leave index call).GatesKept := by
  obtain ⟨hcalls, husers, hnextGate, -, -⟩ := leave_eq s index call
  have hkeys := leave_keys s index call
  generalize s.leave index call = t at *
  have hactive : call.active = true := by
    unfold RuntimeCall.active
    rw [hphase]
    rfl
  have hcases : ∀ other ∈ t.calls, other.active = true → other ∈ s.calls := by
    intro other hother hactive'
    rw [hcalls] at hother
    rcases mem_or_eq_of_mem_set hother with hold | rfl
    · exact hold
    · cases hactive'
  have hcounted : ∀ gate, t.users gate =
      t.calls.countP fun call => call.active && call.gate = gate := by
    intro gate
    rw [husers, hcalls]
    by_cases hgate : gate = call.gate
    · subst hgate
      rw [update_self, countP_set_of_not hcall (by simp [hactive]) rfl, h.counted]
    · rw [update_of_ne hgate, h.counted]
      refine (countP_set_of_eq hcall ?_).symm
      simp [Ne.symm hgate]
  refine ⟨fun other hother => ?_, fun key gate hget => ?_, hcounted,
    fun other hother hactive' => ?_, fun first hfirst second hsecond hheld hheld' hsame => ?_,
    fun i j first second hi hj hij hsame hfirst hsecond => ?_⟩
  · rw [hnextGate]
    rw [hcalls] at hother
    rcases mem_or_eq_of_mem_set hother with hold | rfl
    · exact h.fresh other hold
    · exact h.fresh call (mem_of_getElem? hcall)
  · rw [hnextGate]
    rcases hkeys with ⟨hsame, -⟩ | ⟨-, herased, -⟩
    · exact h.freshKeys key gate (hsame ▸ hget)
    · rw [herased] at hget
      exact h.freshKeys key gate (Dict.get?_of_get?_erase hget)
  · have hregistered := h.registered other (hcases other hother hactive') hactive'
    rcases hkeys with ⟨hsame, -⟩ | ⟨hunused, herased, -⟩
    · rw [hsame]
      exact hregistered
    · have hne : other.key ≠ call.key := by
        intro heq
        rw [heq, h.registered call (mem_of_getElem? hcall) hactive] at hregistered
        rw [hcounted, countP_eq_zero] at hunused
        refine hunused other hother ?_
        rw [hactive', Option.some.inj hregistered]
        simp
      rw [herased, Dict.get?_erase_of_ne _ hne]
      exact hregistered
  · exact h.exclusive first (hcases first hfirst (active_of_holding hheld)) second
      (hcases second hsecond (active_of_holding hheld')) hheld hheld' hsame
  · rw [hcalls] at hi hj
    rcases getElem?_set_eq_some hi with ⟨-, rfl⟩ | ⟨-, hold⟩
    · cases hfirst
    · rcases getElem?_set_eq_some hj with ⟨-, rfl⟩ | ⟨-, hold'⟩
      · cases hsecond
      · exact h.nested i j first second hold hold' hij hsame hfirst hsecond

/-! ## A call that goes on -/

/-- A step of one call that neither begins nor ends it. -/
structure Goes (s t : GateState) (index : Nat) (call next : RuntimeCall) : Prop where
  present : s.calls[index]? = some call
  calls : t.calls = s.calls.set index next
  keyGates : t.keyGates = s.keyGates
  users : t.users = s.users
  nextGate : t.nextGate = s.nextGate
  generations : t.generations = s.generations
  begins : t.begins = s.begins
  thread : next.thread = call.thread
  key : next.key = call.key
  gate : next.gate = call.gate
  began : next.began = call.began
  generation : next.generation = call.generation
  active : next.active = call.active
  before : next.phase.before = call.phase.before
  holding : next.holding = true →
    call.holding = true ∨ (call.phase = .entered ∧ s.lockFree call = true)
  top : s.isTop index call = true ∨ next.phase = call.phase
  isOpen : call.isOpen = call.phase.inside → next.isOpen = next.phase.inside
  writing : ∀ write, next.phase = .writing write → s.acceptsUpdate call = true

theorem Goes.gatesKept (hgoes : s.Goes t index call next) (h : s.GatesKept) : t.GatesKept :=
  h.set hgoes.present hgoes.calls hgoes.keyGates hgoes.users hgoes.nextGate hgoes.thread hgoes.key
    hgoes.gate hgoes.active (fun hheld => (hgoes.holding hheld).imp_right And.right) hgoes.top

/-! ## Generations -/

/-- A call that holds its gate has the generation of its key exactly when no later call of the
key has begun. -/
structure GenerationsKept (s : GateState) : Prop where
  bounded : ∀ call ∈ s.calls, call.began ≤ s.begins
  distinct : ∀ (i j : Nat) (first second : RuntimeCall), s.calls[i]? = some first →
    s.calls[j]? = some second → first.began = second.began → 0 < first.began → i = j
  before : ∀ call ∈ s.calls, call.phase.before = true ↔ call.began = 0
  isOpen : ∀ call ∈ s.calls, call.isOpen = call.phase.inside
  current : ∀ call ∈ s.calls, call.holding = true → 0 < call.began →
    s.superseded call = false → s.generations.get? call.key = some call.generation
  behind : ∀ call ∈ s.calls, call.holding = true → 0 < call.began →
    s.superseded call = true → ∃ generation,
      s.generations.get? call.key = some generation ∧ call.generation < generation
  writing : ∀ call ∈ s.calls, ∀ write, call.phase = .writing write → s.superseded call = false

theorem superseded_eq_true :
    s.superseded call = true ↔
      ∃ later ∈ s.calls, later.key = call.key ∧ call.began < later.began := by
  simp [superseded, any_eq_true]

theorem superseded_eq_false :
    s.superseded call = false ↔
      ∀ later ∈ s.calls, later.key = call.key → later.began ≤ call.began := by
  rw [← Bool.not_eq_true, superseded_eq_true]
  constructor
  · intro h later hlater hkey
    by_contra hlt
    exact h ⟨later, hlater, hkey, by omega⟩
  · rintro h ⟨later, hlater, hkey, hlt⟩
    have := h later hlater hkey
    omega

/-- A call is accepted exactly when it is open and not superseded. -/
theorem GenerationsKept.acceptsUpdate_eq (h : s.GenerationsKept) (hcall : call ∈ s.calls) :
    s.acceptsUpdate call = (call.isOpen && !s.superseded call) := by
  unfold acceptsUpdate
  cases hopen : call.isOpen with
  | false => rfl
  | true =>
    rw [h.isOpen call hcall] at hopen
    have hholding : call.holding = true := by
      unfold CallPhase.inside at hopen
      unfold RuntimeCall.holding
      split at hopen
      · next hphase => rw [hphase]
      · next hphase => rw [hphase]
      all_goals cases hopen
    have hbegan : 0 < call.began := by
      refine Nat.pos_of_ne_zero fun hzero => ?_
      have hbefore := (h.before call hcall).mpr hzero
      unfold CallPhase.before at hbefore
      unfold CallPhase.inside at hopen
      split at hbefore
      · next hphase => rw [hphase] at hopen; cases hopen
      · next hphase => rw [hphase] at hopen; cases hopen
      all_goals cases hbefore
    rw [Bool.true_and, Bool.true_and]
    cases hsuperseded : s.superseded call with
    | false => exact decide_eq_true (h.current call hcall hholding hbegan hsuperseded)
    | true =>
      obtain ⟨generation, hget, hlt⟩ := h.behind call hcall hholding hbegan hsuperseded
      refine decide_eq_false ?_
      rw [hget, Option.some.injEq]
      omega

/-- Whether a later call of a key has begun is a matter of keys and beginnings. -/
theorem superseded_of_set (hcall : s.calls[index]? = some call)
    (hcalls : t.calls = s.calls.set index next) (hkey : next.key = call.key)
    (hbegan : next.began = call.began) (other : RuntimeCall) :
    t.superseded other = s.superseded other := by
  rw [Bool.eq_iff_iff, superseded_eq_true, superseded_eq_true, hcalls]
  constructor
  · rintro ⟨later, hlater, hsame, hlt⟩
    rcases mem_or_eq_of_mem_set hlater with hold | rfl
    · exact ⟨later, hold, hsame, hlt⟩
    · exact ⟨call, mem_of_getElem? hcall, hkey ▸ hsame, hbegan ▸ hlt⟩
  · rintro ⟨later, hlater, hsame, hlt⟩
    obtain ⟨i, hi⟩ := mem_iff_getElem?.mp hlater
    by_cases hindex : i = index
    · subst hindex
      obtain rfl : call = later := Option.some.inj (hcall.symm.trans hi)
      refine ⟨next, ?_, hkey.trans hsame, hbegan.symm ▸ hlt⟩
      exact mem_set (List.getElem?_eq_some_iff.mp hcall).1 next
    · refine ⟨later, mem_iff_getElem?.mpr ⟨i, ?_⟩, hsame, hlt⟩
      rw [getElem?_set_ne (Ne.symm hindex)]
      exact hi

theorem superseded_congr (s : GateState) (hkey : next.key = call.key)
    (hbegan : next.began = call.began) : s.superseded next = s.superseded call := by
  unfold superseded
  rw [hkey, hbegan]

theorem began_of_entered (h : s.GenerationsKept) (hcall : call ∈ s.calls)
    (hphase : call.phase = .entered) : call.began = 0 :=
  (h.before call hcall).mp (by rw [hphase]; rfl)

/-- A call is changed, but not in its key, its beginning and its generation. -/
theorem GenerationsKept.set (h : s.GenerationsKept) (hcall : s.calls[index]? = some call)
    (hcalls : t.calls = s.calls.set index next) (hbegins : t.begins = s.begins)
    (hkey : next.key = call.key) (hbegan : next.began = call.began)
    (hgeneration : next.generation = call.generation)
    (hgenerations : ∀ other ∈ t.calls, other.holding = true →
      t.generations.get? other.key = s.generations.get? other.key)
    (hbefore : next.phase.before = true ↔ call.began = 0)
    (hopen : next.isOpen = next.phase.inside)
    (hheld : next.holding = true → 0 < call.began → call.holding = true)
    (hwriting : ∀ write, next.phase = .writing write → s.superseded call = false) :
    t.GenerationsKept := by
  have hmem := mem_of_getElem? hcall
  have hsuperseded := superseded_of_set hcall hcalls hkey hbegan
  have hnext := (hsuperseded next).trans (superseded_congr s hkey hbegan)
  have hcases : ∀ other ∈ t.calls, other = next ∨ other ∈ s.calls := by
    intro other hother
    rw [hcalls] at hother
    exact (mem_or_eq_of_mem_set hother).symm
  refine ⟨fun other hother => ?_, fun i j first second hi hj hsame hpos => ?_,
    fun other hother => ?_, fun other hother => ?_, fun other hother hholding hpos hlast => ?_,
    fun other hother hholding hpos hlate => ?_, fun other hother write hphase => ?_⟩
  · rw [hbegins]
    rcases hcases other hother with rfl | hold
    · rw [hbegan]
      exact h.bounded call hmem
    · exact h.bounded other hold
  · rw [hcalls] at hi hj
    rcases getElem?_set_eq_some hi with ⟨rfl, rfl⟩ | ⟨-, hold⟩ <;>
      rcases getElem?_set_eq_some hj with ⟨rfl, rfl⟩ | ⟨-, hold'⟩
    · rfl
    · rw [hbegan] at hsame hpos
      exact h.distinct i j call second hcall hold' hsame hpos
    · rw [hbegan] at hsame
      exact h.distinct i j first call hold hcall hsame hpos
    · exact h.distinct i j first second hold hold' hsame hpos
  · rcases hcases other hother with rfl | hold
    · rw [hbegan]
      exact hbefore
    · exact h.before other hold
  · rcases hcases other hother with rfl | hold
    · exact hopen
    · exact h.isOpen other hold
  · rw [hgenerations other hother hholding]
    rcases hcases other hother with rfl | hold
    · rw [hbegan] at hpos
      rw [hkey, hgeneration]
      exact h.current call hmem (hheld hholding hpos) hpos (hnext.symm.trans hlast)
    · exact h.current other hold hholding hpos ((hsuperseded other).symm.trans hlast)
  · rw [hgenerations other hother hholding]
    rcases hcases other hother with rfl | hold
    · rw [hbegan] at hpos
      rw [hkey, hgeneration]
      exact h.behind call hmem (hheld hholding hpos) hpos (hnext.symm.trans hlate)
    · exact h.behind other hold hholding hpos ((hsuperseded other).symm.trans hlate)
  · rcases hcases other hother with rfl | hold
    · exact hnext.trans (hwriting write hphase)
    · exact (hsuperseded other).trans (h.writing other hold write hphase)

theorem Goes.generationsKept (hgoes : s.Goes t index call next) (h : s.GenerationsKept) :
    t.GenerationsKept := by
  have hmem := mem_of_getElem? hgoes.present
  refine h.set hgoes.present hgoes.calls hgoes.begins hgoes.key hgoes.began hgoes.generation
    (fun other _ _ => by rw [hgoes.generations]) (hgoes.before ▸ h.before call hmem)
    (hgoes.isOpen (h.isOpen call hmem)) (fun hholding hpos => ?_) fun write hphase => ?_
  · rcases hgoes.holding hholding with hheld | ⟨hentered, -⟩
    · exact hheld
    · have := began_of_entered h hmem hentered
      omega
  · have haccepts := hgoes.writing write hphase
    rw [h.acceptsUpdate_eq hmem, Bool.and_eq_true] at haccepts
    exact Bool.not_eq_true' _ ▸ haccepts.2

theorem generationsKept_start (store : AttemptRecordStore) :
    ({ store := store } : GateState).GenerationsKept :=
  ⟨fun _ h => absurd h not_mem_nil, fun _ _ _ _ h => absurd h (by intro h; cases h),
    fun _ h => absurd h not_mem_nil, fun _ h => absurd h not_mem_nil,
    fun _ h => absurd h not_mem_nil, fun _ h => absurd h not_mem_nil,
    fun _ h => absurd h not_mem_nil⟩

/-- A call that came and has not begun supersedes nobody. -/
theorem superseded_of_append (hcalls : t.calls = s.calls ++ [call]) (hbegan : call.began = 0)
    (other : RuntimeCall) : t.superseded other = s.superseded other := by
  have hnot : ¬ other.began < call.began := by omega
  unfold superseded
  rw [hcalls, any_append, any_cons, any_nil, decide_eq_false hnot, Bool.and_false,
    Bool.or_false, Bool.or_false]

theorem GenerationsKept.push (h : s.GenerationsKept) (hcalls : t.calls = s.calls ++ [call])
    (hgenerations : t.generations = s.generations) (hbegins : t.begins = s.begins)
    (hphase : call.phase = .entered) (hbegan : call.began = 0) (hopen : call.isOpen = false) :
    t.GenerationsKept := by
  have hsuperseded := superseded_of_append hcalls hbegan
  have hcases : ∀ other ∈ t.calls, other ∈ s.calls ∨ other = call := by
    intro other hother
    rw [hcalls] at hother
    exact (mem_append.mp hother).imp_right mem_singleton.mp
  have hindex : ∀ (i : Nat) (other : RuntimeCall), t.calls[i]? = some other → 0 < other.began →
      s.calls[i]? = some other := by
    intro i other hi hpos
    rw [hcalls] at hi
    have hlen := (List.getElem?_eq_some_iff.mp hi).1
    rw [length_append, length_singleton] at hlen
    by_cases hlast : i < s.calls.length
    · rwa [getElem?_append_left hlast] at hi
    · rw [getElem?_append_right (by omega), show i - s.calls.length = 0 by omega] at hi
      cases hi
      omega
  refine ⟨fun other hother => ?_, fun i j first second hi hj hsame hpos => ?_,
    fun other hother => ?_, fun other hother => ?_, fun other hother hholding hpos hlast => ?_,
    fun other hother hholding hpos hlate => ?_, fun other hother write hwriting => ?_⟩
  · rw [hbegins]
    rcases hcases other hother with hold | rfl
    · exact h.bounded other hold
    · rw [hbegan]
      exact Nat.zero_le _
  · exact h.distinct i j first second (hindex i first hi hpos)
      (hindex j second hj (hsame ▸ hpos)) hsame hpos
  · rcases hcases other hother with hold | rfl
    · exact h.before other hold
    · rw [hphase, hbegan]
      exact iff_of_true rfl rfl
  · rcases hcases other hother with hold | rfl
    · exact h.isOpen other hold
    · rw [hphase, hopen]
      rfl
  · rw [hgenerations]
    rcases hcases other hother with hold | rfl
    · exact h.current other hold hholding hpos ((hsuperseded other).symm.trans hlast)
    · omega
  · rw [hgenerations]
    rcases hcases other hother with hold | rfl
    · exact h.behind other hold hholding hpos ((hsuperseded other).symm.trans hlate)
    · omega
  · rcases hcases other hother with hold | rfl
    · exact (hsuperseded other).trans (h.writing other hold write hwriting)
    · rw [hphase] at hwriting
      cases hwriting

/-- The generation of a key goes only when nobody holds the gate. -/
theorem GenerationsKept.leave (h : s.GenerationsKept) (hgates : s.GatesKept)
    (hcall : s.calls[index]? = some call) (hphase : call.phase = .released) :
    (s.leave index call).GenerationsKept := by
  have hkept := hgates.leave hcall hphase
  obtain ⟨hcalls, -, -, hbegins, -⟩ := leave_eq s index call
  have hkeys := leave_keys s index call
  generalize s.leave index call = t at *
  have hmem := mem_of_getElem? hcall
  have hbefore : call.began ≠ 0 := fun hzero => by
    have hfalse := (h.before call hmem).mpr hzero
    rw [hphase] at hfalse
    cases hfalse
  refine h.set hcall hcalls hbegins rfl rfl rfl (fun other hother hholding => ?_)
    (iff_of_false Bool.false_ne_true hbefore) ?_ (fun hholding => by cases hholding)
    fun write hwriting => by cases hwriting
  · rcases hkeys with ⟨-, hsame⟩ | ⟨-, hdropped, hsame⟩
    · rw [hsame]
    · have hregistered := hkept.registered other hother (active_of_holding hholding)
      have hne : other.key ≠ call.key := by
        intro heq
        rw [hdropped, heq, Dict.get?_erase_self] at hregistered
        cases hregistered
      rw [hsame, Dict.get?_erase_of_ne _ hne]
  · have hclosed := h.isOpen call hmem
    rw [hphase] at hclosed
    exact hclosed

/-- Two calls that hold the gate of a key: one of them is in a callback. -/
theorem GatesKept.running_of_holding (h : s.GatesKept) {i j : Nat} {first second : RuntimeCall}
    (hi : s.calls[i]? = some first) (hj : s.calls[j]? = some second) (hne : i ≠ j)
    (hfirst : first.holding = true) (hsecond : second.holding = true)
    (hkey : first.key = second.key) : first.phase = .running ∨ second.phase = .running := by
  have hactive := active_of_holding hfirst
  have hactive' := active_of_holding hsecond
  have hgate : first.gate = second.gate := by
    have hregistered := h.registered first (mem_of_getElem? hi) hactive
    rw [hkey, h.registered second (mem_of_getElem? hj) hactive'] at hregistered
    exact (Option.some.inj hregistered).symm
  have hthread := h.exclusive first (mem_of_getElem? hi) second (mem_of_getElem? hj)
    hfirst hsecond hgate
  rcases Nat.lt_or_gt_of_ne hne with hlt | hlt
  · exact .inl (h.nested i j first second hi hj hlt hthread.symm hactive hactive')
  · exact .inr (h.nested j i second first hj hi hlt hthread hactive' hactive)

/-- A call of a gate begins, and the ones it came in for are behind. -/
theorem GenerationsKept.begin (h : s.GenerationsKept) (hgates : s.GatesKept) (enabled : Bool)
    (hcall : s.calls[index]? = some call) (hphase : call.phase = .locked) :
    (s.begin enabled index call).GenerationsKept := by
  have hmem := mem_of_getElem? hcall
  have hheld : call.holding = true := by
    unfold RuntimeCall.holding
    rw [hphase]
  obtain ⟨next, hcalls, hgenerations, hbegins, hnextPhase, hnextKey, hnextGeneration, hnextBegan,
      hnextOpen⟩ : ∃ next, (s.begin enabled index call).calls = s.calls.set index next ∧
      (s.begin enabled index call).generations =
        s.generations.set call.key ((s.generations.get? call.key).getD 0 + 1) ∧
      (s.begin enabled index call).begins = s.begins + 1 ∧ next.phase = .running ∧
      next.key = call.key ∧ next.generation = (s.generations.get? call.key).getD 0 + 1 ∧
      next.began = s.begins + 1 ∧ next.isOpen = true :=
    ⟨_, rfl, rfl, rfl, rfl, rfl, rfl, rfl, rfl⟩
  generalize s.begin enabled index call = t at *
  -- a call of the list after the step, by its place
  have hcases : ∀ other ∈ t.calls,
      other = next ∨ ∃ i, i ≠ index ∧ s.calls[i]? = some other := by
    intro other hother
    rw [hcalls] at hother
    obtain ⟨i, hi⟩ := mem_iff_getElem?.mp hother
    rcases getElem?_set_eq_some hi with ⟨-, heq⟩ | ⟨hne, hold⟩
    · exact .inl heq
    · exact .inr ⟨i, hne, hold⟩
  have hnext : next ∈ t.calls := by
    rw [hcalls]
    exact mem_set (List.getElem?_eq_some_iff.mp hcall).1 next
  have hlast : t.superseded next = false := by
    rw [superseded_eq_false]
    intro later hlater _
    rcases hcases later hlater with rfl | ⟨i, -, hold⟩
    · exact Nat.le_refl _
    · have := h.bounded later (mem_of_getElem? hold)
      omega
  have hlate : ∀ other ∈ s.calls, other.key = call.key → t.superseded other = true := by
    intro other hother hkey
    refine superseded_eq_true.mpr ⟨next, hnext, hnextKey.trans hkey.symm, ?_⟩
    have := h.bounded other hother
    omega
  have hother : ∀ other ∈ s.calls, other.key ≠ call.key →
      t.superseded other = s.superseded other := by
    intro other hother hne
    rw [Bool.eq_iff_iff, superseded_eq_true, superseded_eq_true, hcalls]
    constructor
    · rintro ⟨later, hlater, hsame, hlt⟩
      rcases mem_or_eq_of_mem_set hlater with hold | rfl
      · exact ⟨later, hold, hsame, hlt⟩
      · exact absurd (hsame.symm.trans hnextKey) hne
    · rintro ⟨later, hlater, hsame, hlt⟩
      obtain ⟨i, hi⟩ := mem_iff_getElem?.mp hlater
      have hplace : i ≠ index := by
        rintro rfl
        obtain rfl : call = later := Option.some.inj (hcall.symm.trans hi)
        exact hne hsame.symm
      refine ⟨later, mem_iff_getElem?.mpr ⟨i, ?_⟩, hsame, hlt⟩
      rw [getElem?_set_ne (Ne.symm hplace)]
      exact hi
  refine ⟨fun other hmem' => ?_, fun i j first second hi hj hsame hpos => ?_,
    fun other hmem' => ?_, fun other hmem' => ?_, fun other hmem' hholding hpos hcurrent => ?_,
    fun other hmem' hholding hpos hbehind => ?_, fun other hmem' write hwriting => ?_⟩
  · rw [hbegins]
    rcases hcases other hmem' with rfl | ⟨i, -, hold⟩
    · exact Nat.le_of_eq hnextBegan
    · exact Nat.le_succ_of_le (h.bounded other (mem_of_getElem? hold))
  · rw [hcalls] at hi hj
    rcases getElem?_set_eq_some hi with ⟨rfl, rfl⟩ | ⟨-, hold⟩ <;>
      rcases getElem?_set_eq_some hj with ⟨rfl, rfl⟩ | ⟨-, hold'⟩
    · rfl
    · have := h.bounded second (mem_of_getElem? hold')
      omega
    · have := h.bounded first (mem_of_getElem? hold)
      omega
    · exact h.distinct i j first second hold hold' hsame hpos
  · rcases hcases other hmem' with rfl | ⟨i, -, hold⟩
    · rw [hnextPhase, hnextBegan]
      exact iff_of_false Bool.false_ne_true (Nat.succ_ne_zero _)
    · exact h.before other (mem_of_getElem? hold)
  · rcases hcases other hmem' with rfl | ⟨i, -, hold⟩
    · rw [hnextPhase, hnextOpen]
      rfl
    · exact h.isOpen other (mem_of_getElem? hold)
  · rw [hgenerations]
    rcases hcases other hmem' with rfl | ⟨i, -, hold⟩
    · rw [hnextKey, hnextGeneration]
      exact Dict.get?_set_self _ _ _
    · have hold := mem_of_getElem? hold
      have hne : other.key ≠ call.key := fun hkey =>
        absurd (hlate other hold hkey) (Bool.eq_false_iff.mp hcurrent)
      rw [Dict.get?_set_of_ne _ _ hne]
      exact h.current other hold hholding hpos ((hother other hold hne).symm.trans hcurrent)
  · rw [hgenerations]
    rcases hcases other hmem' with rfl | ⟨i, -, hold⟩
    · exact absurd hbehind (Bool.eq_false_iff.mp hlast)
    · have hold := mem_of_getElem? hold
      by_cases hkey : other.key = call.key
      · refine ⟨_, (congrArg _ hkey).trans (Dict.get?_set_self _ _ _), Nat.lt_succ_of_le ?_⟩
        rw [← hkey]
        cases hsuperseded : s.superseded other with
        | true =>
          obtain ⟨generation, hget, hlt⟩ := h.behind other hold hholding hpos hsuperseded
          rw [hget]
          exact Nat.le_of_lt hlt
        | false =>
          rw [h.current other hold hholding hpos hsuperseded]
          exact Nat.le_refl _
      · rw [Dict.get?_set_of_ne _ _ hkey]
        exact h.behind other hold hholding hpos ((hother other hold hkey).symm.trans hbehind)
  · rcases hcases other hmem' with rfl | ⟨i, hne, hold⟩
    · rw [hnextPhase] at hwriting
      cases hwriting
    · have hkey : other.key ≠ call.key := by
        intro hkey
        have hholding : other.holding = true := by
          unfold RuntimeCall.holding
          rw [hwriting]
        rcases hgates.running_of_holding hold hcall hne hholding hheld hkey with hrun | hrun
        · rw [hwriting] at hrun
          cases hrun
        · rw [hphase] at hrun
          cases hrun
      have hold := mem_of_getElem? hold
      exact (hother other hold hkey).trans (h.writing other hold write hwriting)

end GateState

end ResiliencyExt.Attribution.RestartAgent
