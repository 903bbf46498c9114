import Mathlib.Algebra.Order.BigOperators.Group.Finset
import Mathlib.Data.Finset.Max
import ResiliencyExt.Foundation.Agents

set_option autoImplicit false

/-!
# Foundation: choreographies of blocking sends and receives

Every process runs a program that sends to and receives from named processes.
Messages between two processes arrive in the order in which they were sent.  A
send returns when no more than `capacity` messages are under way between its two
processes: with capacity zero it waits until its message has been received.

A choreography is one list of transfers that all programs follow: each program
performs the transfers it takes part in, in the order of the list, and ignores
the others.  Whatever the capacities are, such programs never come to a
deadlock, every run is finite, and every process ends with its result.
-/

namespace ResiliencyExt.Foundation

open List Function

/-! ## Programs and their steps -/

structure Transfer (Msg : Type) where
  src : Nat
  dst : Nat
  msg : Msg

inductive Program (Msg Error Result : Type) where
  | done (result : Result)
  | raise (error : Error)
  | send (dst : Nat) (msg : Msg) (next : Program Msg Error Result)
  | recv (src : Nat) (next : Msg → Program Msg Error Result)

inductive Process (Msg Error Result : Type) where
  | running (program : Program Msg Error Result)
  /-- The message is under way, and the send has not returned. -/
  | posted (dst : Nat) (next : Program Msg Error Result)

/-- The messages under way from one process to another. -/
abbrev Channels (Msg : Type) :=
  Nat → Nat → List Msg

variable {Msg Error Result : Type}

def Channels.set (channels : Channels Msg) (src dst : Nat) (msgs : List Msg) : Channels Msg :=
  fun s d => if s = src ∧ d = dst then msgs else channels s d

/-- One step of process `p`. -/
def Process.step (capacity : Nat → Nat → Nat) (p : Nat) (channels : Channels Msg) :
    Process Msg Error Result → Option (Channels Msg × Process Msg Error Result)
  | .running (.send dst msg next) =>
    some (channels.set p dst (channels p dst ++ [msg]), .posted dst next)
  | .posted dst next =>
    if (channels p dst).length ≤ capacity p dst then some (channels, .running next) else none
  | .running (.recv src next) =>
    match channels src p with
    | [] => none
    | msg :: rest => some (channels.set src p rest, .running (next msg))
  | .running (.done _) | .running (.raise _) => none

/-- The processes that run the programs, with no message under way. -/
def pointToPoint (capacity : Nat → Nat → Nat) (program : Nat → Program Msg Error Result) :
    Agents (Channels Msg) (Process Msg Error Result) Unit where
  shared := fun _ _ => []
  start p := .running (program p)
  step p channels process _ := process.step capacity p channels

/-- The program of `p` performs its part of the transfers and ends with the result. -/
inductive Follows (p : Nat) : List (Transfer Msg) → Program Msg Error Result → Result → Prop
  | done (result : Result) : Follows p [] (.done result) result
  | send {dst : Nat} {msg : Msg} {transfers : List (Transfer Msg)}
      {next : Program Msg Error Result} {result : Result} (hne : dst ≠ p)
      (h : Follows p transfers next result) :
      Follows p (⟨p, dst, msg⟩ :: transfers) (.send dst msg next) result
  | recv {src : Nat} {msg : Msg} {transfers : List (Transfer Msg)}
      {next : Msg → Program Msg Error Result} {result : Result} (hne : src ≠ p)
      (h : Follows p transfers (next msg) result) :
      Follows p (⟨src, p, msg⟩ :: transfers) (.recv src next) result
  | skip {transfer : Transfer Msg} {transfers : List (Transfer Msg)}
      {program : Program Msg Error Result} {result : Result}
      (hsrc : transfer.src ≠ p) (hdst : transfer.dst ≠ p)
      (h : Follows p transfers program result) :
      Follows p (transfer :: transfers) program result

/-- Go on from the result of a program, and translate its errors. -/
def Program.andThen {Error' Result' : Type} (f : Result → Except Error' Result')
    (g : Error → Error') : Program Msg Error Result → Program Msg Error' Result'
  | .done result =>
    match f result with
    | .ok value => .done value
    | .error error => .raise error
  | .raise error => .raise (g error)
  | .send dst msg next => .send dst msg (next.andThen f g)
  | .recv src next => .recv src fun msg => (next msg).andThen f g

/-- Programs that all follow one list of transfers among the members. -/
structure Choreography (Msg Error Result : Type) where
  members : Finset Nat
  capacity : Nat → Nat → Nat
  transfers : List (Transfer Msg)
  mem : ∀ t ∈ transfers, t.src ∈ members ∧ t.dst ∈ members
  program : Nat → Program Msg Error Result
  result : Nat → Result
  follows : ∀ p, Follows p transfers (program p) (result p)

/-- All processes in one system. -/
abbrev Choreography.agents (C : Choreography Msg Error Result) :
    Agents (Channels Msg) (Process Msg Error Result) Unit :=
  pointToPoint C.capacity C.program

/-! ## The messages of a list of transfers -/

/-- The messages that go from `s` to `d`. -/
def between (s d : Nat) (transfers : List (Transfer Msg)) : List Msg :=
  (transfers.filter fun t => t.src = s ∧ t.dst = d).map Transfer.msg

variable {p s d : Nat} {transfers rest : List (Transfer Msg)} {result : Result}
  {program next : Program Msg Error Result}

@[simp] theorem between_cons_self (msg : Msg) :
    between s d (⟨s, d, msg⟩ :: transfers) = msg :: between s d transfers := by
  simp [between]

theorem between_cons_of_ne {t : Transfer Msg} (h : ¬ (t.src = s ∧ t.dst = d)) :
    between s d (t :: transfers) = between s d transfers := by
  simp [between, h]

theorem between_append (before after : List (Transfer Msg)) :
    between s d (before ++ after) = between s d before ++ between s d after := by
  simp [between]

/-- To process `p` the two lists are the same. -/
structure SameFor (p : Nat) (before after : List (Transfer Msg)) : Prop where
  received : ∀ s, between s p before = between s p after
  sent : ∀ d, between p d before = between p d after

theorem SameFor.refl (p : Nat) (transfers : List (Transfer Msg)) :
    SameFor p transfers transfers :=
  ⟨fun _ => rfl, fun _ => rfl⟩

theorem SameFor.cons {t : Transfer Msg} (hsrc : t.src ≠ p) (hdst : t.dst ≠ p)
    {before after : List (Transfer Msg)} (h : SameFor p before after) :
    SameFor p (t :: before) after where
  received s := (between_cons_of_ne fun heq => hdst heq.2).trans (h.received s)
  sent d := (between_cons_of_ne fun heq => hsrc heq.1).trans (h.sent d)

/-- The first transfer left is one that `p` takes part in. -/
def Normal (p : Nat) (transfers : List (Transfer Msg)) : Prop :=
  ∀ t ∈ transfers.head?, t.src = p ∨ t.dst = p

/-- The transfers that a program ignores can be dropped. -/
theorem Follows.normal (h : Follows p transfers program result) :
    ∃ left, left <:+ transfers ∧ Follows p left program result ∧ SameFor p transfers left ∧
      Normal p left := by
  induction h with
  | done result => exact ⟨[], suffix_rfl, .done result, .refl _ _, nofun⟩
  | @send dst msg transfers next result hne h ih =>
    refine ⟨_, suffix_rfl, .send hne h, .refl _ _, fun t ht => ?_⟩
    cases ht
    exact Or.inl rfl
  | @recv src msg transfers next result hne h ih =>
    refine ⟨_, suffix_rfl, .recv hne h, .refl _ _, fun t ht => ?_⟩
    cases ht
    exact Or.inr rfl
  | skip hsrc hdst h ih =>
    obtain ⟨left, hsuffix, hfollows, hsame, hnormal⟩ := ih
    exact ⟨left, hsuffix.trans (suffix_cons _ _), hfollows, hsame.cons hsrc hdst, hnormal⟩

/-- A program that sends follows a list whose first transfer for it is that send. -/
theorem Follows.of_send {dst : Nat} {msg : Msg}
    (h : Follows p transfers (.send dst msg next) result) :
    dst ≠ p ∧ ∃ rest, (⟨p, dst, msg⟩ :: rest) <:+ transfers ∧ Follows p rest next result ∧
      SameFor p transfers (⟨p, dst, msg⟩ :: rest) := by
  obtain ⟨left, hsuffix, hfollows, hsame, hnormal⟩ := h.normal
  cases hfollows with
  | send hne hrest => exact ⟨hne, _, hsuffix, hrest, hsame⟩
  | skip hsrc hdst _ => exact absurd (hnormal _ rfl) (not_or.mpr ⟨hsrc, hdst⟩)

theorem Follows.of_recv {src : Nat} {next : Msg → Program Msg Error Result}
    (h : Follows p transfers (.recv src next) result) :
    src ≠ p ∧ ∃ msg rest, (⟨src, p, msg⟩ :: rest) <:+ transfers ∧
      Follows p rest (next msg) result ∧ SameFor p transfers (⟨src, p, msg⟩ :: rest) := by
  obtain ⟨left, hsuffix, hfollows, hsame, hnormal⟩ := h.normal
  cases hfollows with
  | recv hne hrest => exact ⟨hne, _, _, hsuffix, hrest, hsame⟩
  | skip hsrc hdst _ => exact absurd (hnormal _ rfl) (not_or.mpr ⟨hsrc, hdst⟩)

theorem Follows.of_done {value : Result}
    (h : Follows p transfers (.done value : Program Msg Error Result) result) : value = result := by
  obtain ⟨left, _, hfollows, _, hnormal⟩ := h.normal
  cases hfollows with
  | done _ => rfl
  | skip hsrc hdst _ => exact absurd (hnormal _ rfl) (not_or.mpr ⟨hsrc, hdst⟩)

theorem Follows.not_raise {error : Error}
    (h : Follows p transfers (.raise error) result) : False := by
  obtain ⟨left, _, hfollows, _, hnormal⟩ := h.normal
  cases hfollows with
  | skip hsrc hdst _ => exact absurd (hnormal _ rfl) (not_or.mpr ⟨hsrc, hdst⟩)

/-- What a program does with its result changes none of its transfers. -/
theorem Follows.andThen {Error' Result' : Type} {f : Result → Except Error' Result'}
    (g : Error → Error') {value : Result'} (h : Follows p transfers program result)
    (hf : f result = .ok value) : Follows p transfers (program.andThen f g) value := by
  induction h with
  | done result =>
    simp only [Program.andThen, hf]
    exact .done value
  | send hne _ ih => exact .send hne (ih hf)
  | recv hne _ ih => exact .recv hne (ih hf)
  | skip hsrc hdst _ ih => exact .skip hsrc hdst (ih hf)

/-- A process that takes no part in any transfer is done. -/
theorem Follows.of_not_mem (hout : ∀ t ∈ transfers, t.src ≠ p ∧ t.dst ≠ p) (result : Result) :
    Follows p transfers (.done result : Program Msg Error Result) result := by
  induction transfers with
  | nil => exact .done result
  | cons t transfers ih =>
    obtain ⟨hsrc, hdst⟩ := hout t mem_cons_self
    exact .skip hsrc hdst (ih fun t' ht' => hout t' (mem_cons_of_mem _ ht'))

/-! ## The invariant -/

/-- What process `p` has left of the transfers; the first of them may be posted. -/
inductive Matches (p : Nat) : List (Transfer Msg) → Process Msg Error Result → Result → Prop
  | running {left : List (Transfer Msg)} {program : Program Msg Error Result} {result : Result}
      (h : Follows p left program result) : Matches p left (.running program) result
  | posted {dst : Nat} {msg : Msg} {left : List (Transfer Msg)}
      {next : Program Msg Error Result} {result : Result} (hne : dst ≠ p)
      (h : Follows p left next result) :
      Matches p (⟨p, dst, msg⟩ :: left) (.posted dst next) result

theorem Matches.of_running (h : Matches p transfers (.running program) result) :
    Follows p transfers program result := by
  cases h with
  | running h => exact h

theorem Matches.of_posted {dst : Nat} (h : Matches p transfers (.posted dst next) result) :
    dst ≠ p ∧ ∃ msg rest, transfers = ⟨p, dst, msg⟩ :: rest ∧ Follows p rest next result := by
  cases h with
  | posted hne h => exact ⟨hne, _, _, rfl, h⟩

/-- A process whose next transfer is its own send is at that send. -/
theorem Matches.of_src {msg : Msg} {process : Process Msg Error Result}
    (h : Matches s (⟨s, d, msg⟩ :: rest) process result) :
    d ≠ s ∧ ((∃ next, process = .posted d next) ∨
      ∃ next, process = .running (.send d msg next)) := by
  cases h with
  | running h =>
    cases h with
    | send hne _ => exact ⟨hne, Or.inr ⟨_, rfl⟩⟩
    | recv hne _ => exact absurd rfl hne
    | skip hsrc _ _ => exact absurd rfl hsrc
  | posted hne _ => exact ⟨hne, Or.inl ⟨_, rfl⟩⟩

/-- A process whose next transfer is a receive waits for its sender. -/
theorem Matches.of_dst {msg : Msg} {process : Process Msg Error Result}
    (h : Matches d (⟨s, d, msg⟩ :: rest) process result) (hne : s ≠ d) :
    ∃ next, process = .running (.recv s next) := by
  cases h with
  | running h =>
    cases h with
    | send _ _ => exact absurd rfl hne
    | recv _ _ => exact ⟨_, rfl⟩
    | skip _ hdst _ => exact absurd rfl hdst
  | posted _ _ => exact absurd rfl hne

/-- What a process has left to post. -/
def unposted (left : List (Transfer Msg)) : Process Msg Error Result → List (Transfer Msg)
  | .running _ => left
  | .posted _ _ => left.tail

/-- The processes have these ends of the list of transfers left, and what is under way
is what its receiver has left and its sender has not. -/
structure Choreography.Inv (C : Choreography Msg Error Result)
    (left : Nat → List (Transfer Msg)) (channels : Channels Msg)
    (process : Nat → Process Msg Error Result) : Prop where
  suffix : ∀ p, left p <:+ C.transfers
  follows : ∀ p, Matches p (left p) (process p) (C.result p)
  flow : ∀ s d, between s d (left d) =
    channels s d ++ between s d (unposted (left s) (process s))

namespace Choreography

variable {C : Choreography Msg Error Result} {left : Nat → List (Transfer Msg)}
  {channels channels' : Channels Msg} {process : Nat → Process Msg Error Result}
  {process' : Process Msg Error Result}

variable {msg : Msg} {c : Agents.Configuration (Channels Msg) (Process Msg Error Result)}
    {t : Transfer Msg}

variable {dst src : Nat} {msgs : List Msg} {actions : List (Nat × Unit)}

theorem inv_init (C : Choreography Msg Error Result) :
    C.Inv (fun _ => C.transfers) (fun _ _ => []) fun p => .running (C.program p) where
  suffix _ := suffix_rfl
  follows p := .running (C.follows p)
  flow _ _ := rfl

/-- A step of `p` changes what `p` has left, and the messages under way for it. -/
theorem Inv.local_step {shorter : List (Transfer Msg)} (hinv : C.Inv left channels process)
    (hsuffix : shorter <:+ C.transfers) (hmatches : Matches p shorter process' (C.result p))
    (hreceives : ∀ s, s ≠ p → between s p shorter =
      channels' s p ++ between s p (unposted (left s) (process s)))
    (hsends : ∀ d, d ≠ p → between p d (left d) =
      channels' p d ++ between p d (unposted shorter process'))
    (hself : between p p shorter = channels' p p ++ between p p (unposted shorter process'))
    (hothers : ∀ s d, s ≠ p → d ≠ p → channels' s d = channels s d) :
    C.Inv (update left p shorter) channels' (update process p process') where
  suffix q := by
    rcases eq_or_ne q p with rfl | hne
    · rwa [update_self]
    · rw [update_of_ne hne]
      exact hinv.suffix q
  follows q := by
    rcases eq_or_ne q p with rfl | hne
    · rwa [update_self, update_self]
    · rw [update_of_ne hne, update_of_ne hne]
      exact hinv.follows q
  flow s d := by
    rcases eq_or_ne s p with rfl | hs
    · rcases eq_or_ne d s with rfl | hd
      · rwa [update_self, update_self]
      · rw [update_self, update_self, update_of_ne hd]
        exact hsends d hd
    · rcases eq_or_ne d p with rfl | hd
      · rw [update_self, update_of_ne hs, update_of_ne hs]
        exact hreceives s hs
      · rw [update_of_ne hd, update_of_ne hs, update_of_ne hs,
          hothers s d hs hd]
        exact hinv.flow s d

/-- What `p` has left to do, in steps. -/
def weight (left : List (Transfer Msg)) : Process Msg Error Result → Nat
  | .running _ => 2 * left.length
  | .posted _ _ => 2 * left.length - 1

/-- Posting a message. -/
theorem Inv.post (hinv : C.Inv left channels process)
    (hprocess : process p = .running (.send dst msg next)) :
    ∃ shorter, (∃ t ∈ C.transfers, t.src = p ∨ t.dst = p) ∧
      C.Inv (update left p shorter)
        (channels.set p dst (channels p dst ++ [msg]))
        (update process p (.posted dst next)) ∧
      weight shorter (Process.posted dst next) < weight (left p) (process p) := by
  have hmatches := hinv.follows p
  rw [hprocess] at hmatches
  obtain ⟨hne, rest, hsuffix, hrest, hsame⟩ := hmatches.of_running.of_send
  have hall := hsuffix.trans (hinv.suffix p)
  have hlength := hsuffix.length_le
  refine ⟨_, ⟨_, hall.mem mem_cons_self, Or.inl rfl⟩,
    hinv.local_step hall (.posted hne hrest) ?_ ?_ ?_ ?_, ?_⟩
  · intro s hs
    have hflow := hinv.flow s p
    rw [hsame.received s] at hflow
    simpa [Channels.set, hs] using hflow
  · intro d hd
    have hflow := hinv.flow p d
    rw [hprocess, unposted, hsame.sent d] at hflow
    rcases eq_or_ne d dst with rfl | hdst
    · rw [hflow, between_cons_self]
      simp [Channels.set, unposted]
    · rw [hflow, between_cons_of_ne fun heq => hdst heq.2.symm]
      simp [Channels.set, unposted, hdst]
  · have hflow := hinv.flow p p
    rw [hprocess, unposted, hsame.sent p, between_cons_of_ne fun heq => hne heq.2] at hflow
    rw [between_cons_of_ne fun heq => hne heq.2]
    simpa [Channels.set, unposted, hne.symm] using hflow
  · intro s d hs hd
    simp [Channels.set, hs]
  · rw [hprocess]
    simp only [weight, length_cons] at hlength ⊢
    omega

/-- A send that returns. -/
theorem Inv.sent (hinv : C.Inv left channels process) (hprocess : process p = .posted dst next) :
    ∃ shorter, (∃ t ∈ C.transfers, t.src = p ∨ t.dst = p) ∧
      C.Inv (update left p shorter) channels
        (update process p (.running next)) ∧
      weight shorter (Process.running next) < weight (left p) (process p) := by
  have hmatches := hinv.follows p
  have hall := hinv.suffix p
  rw [hprocess] at hmatches
  obtain ⟨hne, msg, rest, hleft, hrest⟩ := hmatches.of_posted
  rw [hleft] at hall
  refine ⟨rest, ⟨_, hall.mem mem_cons_self, Or.inl rfl⟩,
    hinv.local_step ((suffix_cons _ _).trans hall) (.running hrest) ?_ ?_ ?_
      (fun _ _ _ _ => rfl), ?_⟩
  · intro s hs
    have hflow := hinv.flow s p
    rwa [hleft, between_cons_of_ne fun heq => hne heq.2] at hflow
  · intro d hd
    have hflow := hinv.flow p d
    rwa [hprocess, hleft] at hflow
  · have hflow := hinv.flow p p
    rwa [hprocess, hleft, between_cons_of_ne fun heq => hne heq.2] at hflow
  · rw [hprocess, hleft]
    simp only [weight, length_cons]
    omega

/-- Receiving a message. -/
theorem Inv.take {next : Msg → Program Msg Error Result} (hinv : C.Inv left channels process)
    (hprocess : process p = .running (.recv src next)) (hchannel : channels src p = msg :: msgs) :
    ∃ shorter, (∃ t ∈ C.transfers, t.src = p ∨ t.dst = p) ∧
      C.Inv (update left p shorter) (channels.set src p msgs)
        (update process p (.running (next msg))) ∧
      weight shorter (Process.running (next msg)) < weight (left p) (process p) := by
  have hmatches := hinv.follows p
  rw [hprocess] at hmatches
  obtain ⟨hne, sent, rest, hsuffix, hrest, hsame⟩ := hmatches.of_running.of_recv
  have hall := hsuffix.trans (hinv.suffix p)
  have hlength := hsuffix.length_le
  have harrived := hinv.flow src p
  rw [hsame.received src, between_cons_self, hchannel, cons_append] at harrived
  obtain ⟨rfl, harrived⟩ := List.cons.inj harrived
  refine ⟨rest, ⟨_, hall.mem mem_cons_self, Or.inr rfl⟩,
    hinv.local_step ((suffix_cons _ _).trans hall) (.running hrest) ?_ ?_ ?_ ?_, ?_⟩
  · intro s hs
    rcases eq_or_ne s src with rfl | hsrc
    · simpa [Channels.set] using harrived
    · have hflow := hinv.flow s p
      rw [hsame.received s, between_cons_of_ne fun heq => hsrc heq.1.symm] at hflow
      simpa [Channels.set, hsrc] using hflow
  · intro d hd
    have hflow := hinv.flow p d
    rw [hprocess, unposted, hsame.sent d, between_cons_of_ne fun heq => hne heq.1] at hflow
    simpa [Channels.set, unposted, hd] using hflow
  · have hflow := hinv.flow p p
    rw [hprocess, unposted, hsame.sent p, between_cons_of_ne fun heq => hne heq.1] at hflow
    simpa [Channels.set, unposted, hne.symm] using hflow
  · intro s d hs hd
    simp [Channels.set, hd]
  · rw [hprocess]
    simp only [weight, length_cons] at hlength ⊢
    omega

/-- Every step keeps the invariant, and leaves one of the members less to do. -/
theorem Inv.step {d : Agents.Configuration (Channels Msg) (Process Msg Error Result)}
    {a : Nat × Unit} (hinv : C.Inv left c.shared c.agent)
    (hstep : C.agents.system.step c a = some d) :
    ∃ shorter, a.1 ∈ C.members ∧
      C.Inv (update left a.1 shorter) d.shared d.agent ∧
      weight shorter (d.agent a.1) < weight (left a.1) (c.agent a.1) ∧
      ∀ q, q ≠ a.1 → d.agent q = c.agent q := by
  obtain ⟨channels, process, hlocal, rfl⟩ := Agents.system_step_eq_some.mp hstep
  have hothers : ∀ q, q ≠ a.1 → update c.agent a.1 process q = c.agent q :=
    fun q hne => update_of_ne hne _ _
  have hmember : (∃ t ∈ C.transfers, t.src = a.1 ∨ t.dst = a.1) → a.1 ∈ C.members := by
    rintro ⟨t, ht, hsrc | hdst⟩
    · exact hsrc ▸ (C.mem t ht).1
    · exact hdst ▸ (C.mem t ht).2
  simp only [update_self]
  replace hlocal : (c.agent a.1).step C.capacity a.1 c.shared = some (channels, process) := hlocal
  generalize hprocess : c.agent a.1 = before at hlocal ⊢
  unfold Process.step at hlocal
  split at hlocal
  · cases hlocal
    obtain ⟨shorter, hpart, hnext, hless⟩ := hinv.post hprocess
    rw [hprocess] at hless
    exact ⟨shorter, hmember hpart, hnext, hless, hothers⟩
  · split at hlocal
    · cases hlocal
      obtain ⟨shorter, hpart, hnext, hless⟩ := hinv.sent hprocess
      rw [hprocess] at hless
      exact ⟨shorter, hmember hpart, hnext, hless, hothers⟩
    · cases hlocal
  · split at hlocal
    · cases hlocal
    · rename_i msg msgs hchannel
      cases hlocal
      obtain ⟨shorter, hpart, hnext, hless⟩ := hinv.take hprocess hchannel
      rw [hprocess] at hless
      exact ⟨shorter, hmember hpart, hnext, hless, hothers⟩
  · cases hlocal
  · cases hlocal

theorem reachable_inv (hc : C.agents.system.Reachable (fun _ _ => True) c) :
    ∃ left, C.Inv left c.shared c.agent := by
  refine hc.invariant (P := fun c => ∃ left, C.Inv left c.shared c.agent) ?_ ?_
  · rintro _ rfl
    exact ⟨_, inv_init C⟩
  · rintro c a d ⟨left, hinv⟩ _ hstep
    obtain ⟨shorter, _, hnext, _⟩ := hinv.step hstep
    exact ⟨_, hnext⟩

/-! ## Runs are finite -/

theorem run_length_le {d : Agents.Configuration (Channels Msg) (Process Msg Error Result)}
    (hinv : C.Inv left c.shared c.agent)
    (hrun : C.agents.system.Run (fun _ _ => True) c actions d) :
    actions.length ≤ ∑ p ∈ C.members, weight (left p) (c.agent p) := by
  induction hrun generalizing left with
  | nil _ => exact Nat.zero_le _
  | @cons c e d a actions _ hstep _ ih =>
    obtain ⟨shorter, hmember, hnext, hless, hothers⟩ := hinv.step hstep
    have hrest := ih hnext
    have hsum : ∑ p ∈ C.members, weight (update left a.1 shorter p) (e.agent p) <
        ∑ p ∈ C.members, weight (left p) (c.agent p) := by
      refine Finset.sum_lt_sum (fun q _ => ?_) ⟨a.1, hmember, by rwa [update_self]⟩
      rcases eq_or_ne q a.1 with rfl | hne
      · rw [update_self]
        exact Nat.le_of_lt hless
      · rw [update_of_ne hne, hothers q hne]
    rw [length_cons]
    omega

/-- No run has more steps than the members have sends and receives. -/
theorem run_finite {d : Agents.Configuration (Channels Msg) (Process Msg Error Result)}
    (hrun : C.agents.system.Run (fun _ _ => True) C.agents.initial actions d) :
    actions.length ≤ C.members.card * (2 * C.transfers.length) := by
  refine (run_length_le (inv_init C) hrun).trans (Nat.le_of_eq ?_)
  exact Finset.sum_const_nat fun _ _ => rfl

/-! ## No deadlock -/

/-- The transfers that a process ignores can be dropped from what it has left. -/
theorem Inv.normal (hinv : C.Inv left channels process) :
    ∃ left, C.Inv left channels process ∧ ∀ p, Normal p (left p) := by
  have hexists : ∀ p, ∃ mine, mine <:+ C.transfers ∧ Matches p mine (process p) (C.result p) ∧
      SameFor p (left p) mine ∧
      SameFor p (unposted (left p) (process p)) (unposted mine (process p)) ∧
      Normal p mine := by
    intro p
    have hmatches := hinv.follows p
    cases hprocess : process p with
    | running program =>
      rw [hprocess] at hmatches
      obtain ⟨mine, hsuffix, hfollows, hsame, hnormal⟩ := hmatches.of_running.normal
      exact ⟨mine, hsuffix.trans (hinv.suffix p), .running hfollows, hsame, hsame, hnormal⟩
    | posted dst next =>
      rw [hprocess] at hmatches
      obtain ⟨_, msg, rest, hleft, _⟩ := hmatches.of_posted
      refine ⟨left p, hinv.suffix p, hmatches, .refl _ _, .refl _ _, fun t ht => ?_⟩
      rw [hleft] at ht
      cases ht
      exact Or.inl rfl
  choose mine hsuffix hmatches hsame hunposted hnormal using hexists
  refine ⟨mine, ⟨hsuffix, hmatches, fun s d => ?_⟩, hnormal⟩
  rw [← (hsame d).received s, ← (hunposted s).sent d]
  exact hinv.flow s d

/-- A message that its sender has posted and its receiver has left is under way. -/
theorem Inv.under_way {rest behind : List (Transfer Msg)} (hinv : C.Inv left channels process)
    (hreceiver : left t.dst = t :: rest) (hbehind : behind <:+ rest)
    (hsender : unposted (left t.src) (process t.src) = behind) :
    ∃ msgs, channels t.src t.dst = t.msg :: msgs := by
  have hflow := hinv.flow t.src t.dst
  obtain ⟨between', hrest⟩ := hbehind
  rw [hreceiver, hsender, between_cons_self, ← hrest, between_append] at hflow
  have hlength := congrArg List.length hflow
  simp only [length_cons, length_append] at hlength
  cases hchannel : channels t.src t.dst with
  | nil =>
    rw [hchannel] at hlength
    simp only [length_nil] at hlength
    omega
  | cons msg msgs =>
    rw [hchannel, cons_append] at hflow
    exact ⟨msgs, by rw [(List.cons.inj hflow).1]⟩

/-- A posted message that its receiver has behind it is no longer under way. -/
theorem Inv.received {rest : List (Transfer Msg)} (hinv : C.Inv left channels process)
    (hsender : unposted (left t.src) (process t.src) = rest) (hreceiver : left t.dst <:+ rest) :
    channels t.src t.dst = [] := by
  have hflow := hinv.flow t.src t.dst
  obtain ⟨before, hrest⟩ := hreceiver
  rw [hsender, ← hrest, between_append] at hflow
  have hlength := congrArg List.length hflow
  simp only [length_append] at hlength
  exact length_eq_zero_iff.mp (by omega)

/-- A process with nothing left has its result. -/
theorem Inv.done (hinv : C.Inv left channels process) (hleft : left p = []) :
    process p = .running (.done (C.result p)) := by
  have hmatches := hinv.follows p
  rw [hleft] at hmatches
  generalize process p = mine at hmatches
  cases hmatches with
  | running h =>
    cases h with
    | done _ => rfl

theorem step_recv {next : Msg → Program Msg Error Result}
    (hprocess : process p = .running (.recv src next)) (hchannel : channels src p = msg :: msgs) :
    ((process p).step C.capacity p channels).isSome := by
  simp [hprocess, Process.step, hchannel]

theorem exists_step_of_transfer (hinv : C.Inv left channels process)
    (hsrc : left t.src = t :: rest ∨ left t.src <:+ rest)
    (hdst : left t.dst = t :: rest ∨ left t.dst <:+ rest)
    (hhead : left t.src = t :: rest ∨ left t.dst = t :: rest) (hne : t.src ≠ t.dst) :
    ∃ p, ((process p).step C.capacity p channels).isSome := by
  have hreceive : left t.dst = t :: rest →
      ∃ next, process t.dst = .running (.recv t.src next) := by
    intro hleft
    have hmatches := hinv.follows t.dst
    rw [hleft] at hmatches
    exact hmatches.of_dst hne
  rcases hsrc with hsrc | hsrc
  · have hmatches := hinv.follows t.src
    rw [hsrc] at hmatches
    obtain ⟨_, ⟨next, hprocess⟩ | ⟨next, hprocess⟩⟩ := hmatches.of_src
    · have hsender : unposted (left t.src) (process t.src) = rest := by
        rw [hprocess, hsrc]
        rfl
      rcases hdst with hdst | hdst
      · -- the receiver is where the sender is
        obtain ⟨msgs, hchannel⟩ := hinv.under_way hdst suffix_rfl hsender
        obtain ⟨next', hprocess'⟩ := hreceive hdst
        exact ⟨t.dst, step_recv hprocess' hchannel⟩
      · have hchannel := hinv.received hsender hdst
        exact ⟨t.src, by simp [hprocess, Process.step, hchannel]⟩
    · exact ⟨t.src, by simp [hprocess, Process.step]⟩
  · -- the sender is ahead of the receiver
    have hreceiver : left t.dst = t :: rest := by
      refine hhead.resolve_left fun heq => ?_
      have hlength := (heq ▸ hsrc).length_le
      simp only [length_cons] at hlength
      omega
    have hbehind : unposted (left t.src) (process t.src) <:+ rest := by
      cases process t.src with
      | running _ => exact hsrc
      | posted _ _ => exact (tail_suffix _).trans hsrc
    obtain ⟨msgs, hchannel⟩ := hinv.under_way hreceiver hbehind rfl
    obtain ⟨next', hprocess'⟩ := hreceive hreceiver
    exact ⟨t.dst, step_recv hprocess' hchannel⟩

/-- A member that has the most left takes part in a transfer that can go on. -/
theorem Inv.progress (hinv : C.Inv left channels process) :
    (∀ p, process p = .running (.done (C.result p))) ∨
      ∃ p, ((process p).step C.capacity p channels).isSome := by
  obtain ⟨left, hinv, hnormal⟩ := hinv.normal
  by_cases hall : ∀ p, left p = []
  · exact Or.inl fun p => hinv.done (hall p)
  obtain ⟨p₀, hp₀⟩ := not_forall.mp hall
  have hmember : ∀ p t rest, left p = t :: rest →
      t ∈ C.transfers ∧ (t.src = p ∨ t.dst = p) := by
    intro p t rest hleft
    refine ⟨(hinv.suffix p).mem (hleft ▸ mem_cons_self), hnormal p t ?_⟩
    rw [hleft]
    rfl
  have hp₀mem : p₀ ∈ C.members := by
    obtain ⟨t, rest, hleft⟩ := exists_cons_of_ne_nil hp₀
    obtain ⟨ht, rfl | rfl⟩ := hmember p₀ t rest hleft
    · exact (C.mem t ht).1
    · exact (C.mem t ht).2
  obtain ⟨p, _, hmax⟩ :=
    Finset.exists_max_image C.members (fun q => (left q).length) ⟨p₀, hp₀mem⟩
  have hpos : left p ≠ [] := fun hnil => by
    have hle := hmax p₀ hp₀mem
    simp only [hnil, length_nil] at hle
    exact hp₀ (length_eq_zero_iff.mp (by omega))
  obtain ⟨t, rest, hleft⟩ := exists_cons_of_ne_nil hpos
  obtain ⟨ht, hpart⟩ := hmember p t rest hleft
  have hshorter : ∀ q ∈ C.members, left q = t :: rest ∨ left q <:+ rest := by
    intro q hq
    have hle : (left q).length ≤ (left p).length := hmax q hq
    have hsuffix := suffix_of_suffix_length_le (hinv.suffix q) (hinv.suffix p) hle
    rwa [hleft, suffix_cons_iff] at hsuffix
  have hhead : left t.src = t :: rest ∨ left t.dst = t :: rest := by
    rcases hpart with rfl | rfl
    · exact Or.inl hleft
    · exact Or.inr hleft
  refine Or.inr (exists_step_of_transfer hinv (hshorter _ (C.mem t ht).1)
    (hshorter _ (C.mem t ht).2) hhead fun heq => ?_)
  -- no program sends to itself
  have hmatches := hinv.follows t.src
  have hself : left t.src = t :: rest := by
    rcases hhead with h | h
    · exact h
    · rwa [← heq] at h
  rw [hself] at hmatches
  exact hmatches.of_src.1 heq.symm

/-- In every state that is reached, every process has its result or some process can go
on, and no process has raised. -/
theorem no_deadlock (hc : C.agents.system.Reachable (fun _ _ => True) c) :
    (∀ p, c.agent p = .running (.done (C.result p))) ∨
      ∃ a d, C.agents.system.step c a = some d := by
  obtain ⟨left, hinv⟩ := reachable_inv hc
  refine hinv.progress.imp id fun ⟨p, hstep⟩ => ?_
  obtain ⟨⟨channels, process⟩, hstep⟩ := Option.isSome_iff_exists.mp hstep
  exact ⟨(p, ()), _, Agents.system_step_eq_some.mpr ⟨channels, process, hstep, rfl⟩⟩

/-- A process that is done has its result, and none raises. -/
theorem result_of_done (hc : C.agents.system.Reachable (fun _ _ => True) c) :
    (∀ p value, c.agent p = .running (.done value) → value = C.result p) ∧
      ∀ p error, c.agent p ≠ .running (.raise error) := by
  obtain ⟨left, hinv⟩ := reachable_inv hc
  refine ⟨fun p value hdone => ?_, fun p error hraise => ?_⟩
  · have hmatches := hinv.follows p
    rw [hdone] at hmatches
    exact hmatches.of_running.of_done
  · have hmatches := hinv.follows p
    rw [hraise] at hmatches
    exact hmatches.of_running.not_raise

end Choreography

end ResiliencyExt.Foundation
