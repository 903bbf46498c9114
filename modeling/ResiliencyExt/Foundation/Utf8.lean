import Mathlib.Data.List.Count

set_option autoImplicit false

/-!
# Foundation: decoding UTF-8 with replacement

`bytes.decode('utf-8', errors='replace')` as a machine that is fed one byte at
a time.  A byte that cannot continue the character begun before it replaces
what was begun by one U+FFFD and is then read as a first byte; a byte that
begins no character is replaced by itself; and what is begun at the end of the
input is replaced too.

`decode_append` says when two byte strings may be decoded apart: unless the
second goes on with a character that the first has begun.  `count_decode_append`
is the other half: if it does, decoding apart makes more replacement characters.
-/

namespace ResiliencyExt.Foundation.Utf8

open List

/-- U+FFFD. -/
def replacement : Char := '\uFFFD'

/-- The bytes that may follow: all continuation bytes, or those that the first byte leaves. -/
inductive Window
  | tail
  | afterE0
  | afterED
  | afterF0
  | afterF4
  deriving DecidableEq, Repr

/-- The least and the greatest byte of a window. -/
def Window.bounds : Window → Nat × Nat
  | .tail => (0x80, 0xBF)
  | .afterE0 => (0xA0, 0xBF)
  | .afterED => (0x80, 0x9F)
  | .afterF0 => (0x90, 0xBF)
  | .afterF4 => (0x80, 0x8F)

/-- Where the machine stands between two bytes. -/
inductive State
  | start
  /-- A character is begun: a byte of the window is owed, and `later` continuation bytes
  after it. -/
  | within (later : Nat) (window : Window) (codePoint : Nat)
  deriving DecidableEq, Repr

/-- The byte goes on with the character that is begun. -/
def State.accepts : State → UInt8 → Bool
  | .start, _ => false
  | .within _ window _, b =>
    decide (window.bounds.1 ≤ b.toNat) && decide (b.toNat ≤ window.bounds.2)

/-- A byte at the start of a character: the text it completes and the state after it. -/
def first (b : UInt8) : List Char × State :=
  let n := b.toNat
  if n < 0x80 then ([Char.ofNat n], .start)
  else if n < 0xC2 then ([replacement], .start)
  else if n < 0xE0 then ([], .within 0 .tail (n - 0xC0))
  else if n = 0xE0 then ([], .within 1 .afterE0 0)
  else if n = 0xED then ([], .within 1 .afterED 0x0D)
  else if n < 0xF0 then ([], .within 1 .tail (n - 0xE0))
  else if n = 0xF0 then ([], .within 2 .afterF0 0)
  else if n < 0xF4 then ([], .within 2 .tail (n - 0xF0))
  else if n = 0xF4 then ([], .within 2 .afterF4 0x04)
  else ([replacement], .start)

/-- A continuation byte of a character with `later` more to come. -/
def next (later codePoint : Nat) (b : UInt8) : List Char × State :=
  let extended := codePoint * 64 + (b.toNat - 0x80)
  match later with
  | 0 => ([Char.ofNat extended], .start)
  | later + 1 => ([], .within later .tail extended)

/-- One byte: the text it completes and the state after it. -/
def feed (state : State) (b : UInt8) : List Char × State :=
  match state with
  | .start => first b
  | .within later window codePoint =>
    if (State.within later window codePoint).accepts b then next later codePoint b
    else (replacement :: (first b).1, (first b).2)

/-- A byte string: the text it completes and the state after it. -/
def run : State → List UInt8 → List Char × State
  | state, [] => ([], state)
  | state, b :: bytes =>
    ((feed state b).1 ++ (run (feed state b).2 bytes).1, (run (feed state b).2 bytes).2)

/-- What is left at the end of the input. -/
def finish : State → List Char
  | .start => []
  | .within _ _ _ => [replacement]

/-- The text of a byte string that is fed to the machine in some state. -/
def decodeFrom (state : State) (bytes : List UInt8) : List Char :=
  (run state bytes).1 ++ finish (run state bytes).2

/-- `bytes.decode('utf-8', errors='replace')` -/
def decode (bytes : List UInt8) : List Char :=
  decodeFrom .start bytes

example : decode [0xE2, 0x82, 0x41] = ['\uFFFD', 'A'] := by decide

/-- The first byte of `bytes` goes on with the character that is begun. -/
def State.continues (state : State) (bytes : List UInt8) : Bool :=
  bytes.head?.any state.accepts

theorem run_append (xs ys : List UInt8) : ∀ state : State,
    run state (xs ++ ys) =
      ((run state xs).1 ++ (run (run state xs).2 ys).1, (run (run state xs).2 ys).2) := by
  induction xs with
  | nil => exact fun _ => rfl
  | cons x xs ih =>
    intro state
    simp only [cons_append, run, ih, append_assoc]

theorem decodeFrom_append (state : State) (xs ys : List UInt8) :
    decodeFrom state (xs ++ ys) = (run state xs).1 ++ decodeFrom (run state xs).2 ys := by
  simp only [decodeFrom, run_append, append_assoc]

/-- A state whose character is not gone on with is finished before the bytes. -/
theorem decodeFrom_of_not_continues {state : State} {bytes : List UInt8}
    (h : state.continues bytes = false) :
    decodeFrom state bytes = finish state ++ decode bytes := by
  cases state with
  | start => rfl
  | within later window codePoint =>
    cases bytes with
    | nil => rfl
    | cons b bytes =>
      have hb : (State.within later window codePoint).accepts b = false := h
      simp only [decode, decodeFrom, run, feed, hb, finish]
      simp only [Bool.false_eq_true, if_false, cons_append, nil_append]

/-- Byte strings are decoded apart unless the second goes on with a character of the first. -/
theorem decode_append {xs ys : List UInt8} (h : (run .start xs).2.continues ys = false) :
    decode (xs ++ ys) = decode xs ++ decode ys := by
  rw [decode, decodeFrom_append, decodeFrom_of_not_continues h, ← append_assoc]
  rfl

/-! ## Replacement characters -/

/-- A byte that goes on with a character begins none. -/
theorem first_of_accepts {state : State} {b : UInt8} (h : state.accepts b = true) :
    first b = ([replacement], .start) := by
  cases state with
  | start => exact absurd h Bool.false_ne_true
  | within later window codePoint =>
    simp only [State.accepts, Bool.and_eq_true, decide_eq_true_eq] at h
    have hlow : 0x80 ≤ window.bounds.1 := by cases window <;> decide
    have hhigh : window.bounds.2 ≤ 0xBF := by cases window <;> decide
    have hge : ¬ b.toNat < 0x80 := by omega
    have hlt : b.toNat < 0xC2 := by omega
    simp only [first, if_neg hge, if_pos hlt]

theorem count_finish_within (later : Nat) (window : Window) (codePoint : Nat) :
    (finish (.within later window codePoint)).count replacement = 1 := rfl

/-- What a state has begun costs at most one replacement character, and none when the bytes go
on with it. -/
theorem count_decodeFrom (bytes : List UInt8) : ∀ state : State,
    (decodeFrom state bytes).count replacement + (if state.continues bytes then 1 else 0) ≤
      (finish state).count replacement + (decode bytes).count replacement := by
  induction bytes with
  | nil =>
    intro state
    cases state <;> exact Nat.le_refl _
  | cons b bytes ih =>
    intro state
    cases hcont : state.continues (b :: bytes) with
    | false =>
      rw [decodeFrom_of_not_continues hcont, count_append]
      exact Nat.le_refl _
    | true =>
      have hb : state.accepts b = true := hcont
      have hfirst := first_of_accepts hb
      have hplain : (decode (b :: bytes)).count replacement =
          1 + (decode bytes).count replacement := by
        simp only [decode, decodeFrom, run, feed, hfirst, cons_append, nil_append,
          count_cons_self]
        omega
      cases state with
      | start => exact absurd hb Bool.false_ne_true
      | within later window codePoint =>
        have hfeed : feed (.within later window codePoint) b = next later codePoint b := by
          simp only [feed, hb, if_true]
        have hone := count_finish_within later window codePoint
        have hhead : decodeFrom (.within later window codePoint) (b :: bytes) =
            (next later codePoint b).1 ++ decodeFrom (next later codePoint b).2 bytes := by
          simp only [decodeFrom, run, hfeed, append_assoc]
        rw [hhead, count_append, hplain, hone]
        have hrest := ih (next later codePoint b).2
        cases later with
        | zero =>
          have hchar : (next 0 codePoint b).1.count replacement ≤ 1 :=
            count_le_length
          have hnone : (finish (next 0 codePoint b).2).count replacement = 0 := rfl
          rw [hnone] at hrest
          rw [if_pos rfl]
          omega
        | succ later =>
          have hchar : (next (later + 1) codePoint b).1.count replacement = 0 := rfl
          have hfinish : (finish (next (later + 1) codePoint b).2).count replacement = 1 :=
            count_finish_within _ _ _
          rw [hfinish] at hrest
          rw [if_pos rfl, hchar]
          omega

/-- Decoding apart never makes fewer replacement characters, and makes more if the second byte
string goes on with a character of the first. -/
theorem count_decode_append (xs ys : List UInt8) :
    (decode (xs ++ ys)).count replacement +
        (if (run .start xs).2.continues ys then 1 else 0) ≤
      (decode xs).count replacement + (decode ys).count replacement := by
  have hrest := count_decodeFrom ys (run .start xs).2
  rw [decode, decodeFrom_append, count_append]
  have hxs : (decode xs).count replacement = (run .start xs).1.count replacement +
      (finish (run .start xs).2).count replacement := count_append
  rw [hxs]
  omega

/-! ## Lengths -/

theorem decodeFrom_within_ne_nil (bytes : List UInt8) :
    ∀ (later : Nat) (window : Window) (codePoint : Nat),
      decodeFrom (.within later window codePoint) bytes ≠ [] := by
  induction bytes with
  | nil => exact fun _ _ _ => cons_ne_nil _ _
  | cons b bytes ih =>
    intro later window codePoint
    cases hb : (State.within later window codePoint).accepts b with
    | false =>
      simp only [decodeFrom, run, feed, hb, Bool.false_eq_true, if_false, cons_append]
      exact cons_ne_nil _ _
    | true =>
      cases later with
      | zero =>
        simp only [decodeFrom, run, feed, hb, if_true, next, cons_append]
        exact cons_ne_nil _ _
      | succ later =>
        simp only [decodeFrom, run, feed, hb, if_true, next, nil_append]
        exact ih later .tail _

/-- A first byte completes a text or begins a character. -/
theorem first_cases (b : UInt8) :
    (first b).1 ≠ [] ∨ ∃ later window codePoint, (first b).2 = .within later window codePoint := by
  unfold first
  simp only
  repeat' split
  all_goals first
    | exact .inl (cons_ne_nil _ _)
    | exact .inr ⟨_, _, _, rfl⟩

/-- A non-empty byte string decodes to a non-empty text. -/
theorem decode_ne_nil {bytes : List UInt8} (h : bytes ≠ []) : decode bytes ≠ [] := by
  cases bytes with
  | nil => exact absurd rfl h
  | cons b bytes =>
    have hhead : decode (b :: bytes) = (first b).1 ++ decodeFrom (first b).2 bytes := by
      simp only [decode, decodeFrom, run, feed, append_assoc]
    rw [hhead]
    rcases first_cases b with hout | ⟨later, window, codePoint, hstate⟩
    · exact fun hnil => hout (append_eq_nil_iff.mp hnil).1
    · rw [hstate]
      exact fun hnil => decodeFrom_within_ne_nil bytes later window codePoint
        (append_eq_nil_iff.mp hnil).2

end ResiliencyExt.Foundation.Utf8
