import ResiliencyExt.Foundation.Text

set_option autoImplicit false

/-!
# Foundation: a key-value store of text

A store maps keys to text.  `add` keeps a counter as decimal text, and `append`
builds a list of entries behind one another.  Both create a key that is absent.
What a protocol knows of such a key is the number that was added, or the list of
numbers that were appended: `HoldsCount` and `HoldsLog` say so, and every
operation on the key is described by what it does to that number or list.
-/

namespace ResiliencyExt.Foundation

/-- What each key holds; `none` before the key is first written. -/
abbrev KeyValue (Key : Type) := Key → Option (List Char)

namespace KeyValue

variable {Key : Type} [DecidableEq Key]

def set (store : KeyValue Key) (key : Key) (value : List Char) : KeyValue Key :=
  Function.update store key (some value)

/-- The text under a key, empty when the key is absent. -/
def text (store : KeyValue Key) (key : Key) : List Char :=
  (store key).getD []

def append (store : KeyValue Key) (key : Key) (value : List Char) : KeyValue Key :=
  store.set key (store.text key ++ value)

/-- `add` counts up from zero; the store afterwards and the new count. -/
def add (store : KeyValue Key) (key : Key) (amount : Nat) : KeyValue Key × Nat :=
  let count := ((Text.parseInt (store.text key)).getD 0).toNat + amount
  (store.set key (Text.decimal count), count)

variable {store : KeyValue Key} {key key' : Key} {count : Nat} {log : List Nat}

@[simp] theorem set_self (store : KeyValue Key) (key : Key) (value : List Char) :
    store.set key value key = some value :=
  Function.update_self ..

theorem set_of_ne (store : KeyValue Key) (value : List Char) (h : key' ≠ key) :
    store.set key value key' = store key' :=
  Function.update_of_ne h ..

theorem append_of_ne (store : KeyValue Key) (value : List Char) (h : key' ≠ key) :
    store.append key value key' = store key' :=
  store.set_of_ne _ h

theorem add_of_ne (store : KeyValue Key) (amount : Nat) (h : key' ≠ key) :
    (store.add key amount).1 key' = store key' :=
  store.set_of_ne _ h

/-! ## Counters -/

/-- The counter under `key` stands at `count`; an absent key stands at zero. -/
def HoldsCount (store : KeyValue Key) (key : Key) (count : Nat) : Prop :=
  (store key = none ∧ count = 0) ∨ store key = some (Text.decimal count)

theorem HoldsCount.congr {next : KeyValue Key} (h : store.HoldsCount key count)
    (heq : next key = store key) : next.HoldsCount key count := by
  rwa [HoldsCount, heq]

theorem HoldsCount.snd_add (h : store.HoldsCount key count) (amount : Nat) :
    (store.add key amount).2 = count + amount := by
  rcases h with ⟨hnone, rfl⟩ | hsome
  · simp [add, text, hnone, Text.parseInt, Text.strip, Text.parseNat]
  · simp [add, text, hsome, Text.parseInt_decimal]

theorem HoldsCount.add (h : store.HoldsCount key count) (amount : Nat) :
    (store.add key amount).1.HoldsCount key (count + amount) := by
  refine Or.inr ?_
  rw [← h.snd_add amount]
  exact set_self ..

/-- A counter that something was added to is present. -/
theorem HoldsCount.eq_some (h : store.HoldsCount key count) (hpos : 0 < count) :
    store key = some (Text.decimal count) := by
  rcases h with ⟨_, hzero⟩ | hsome
  · omega
  · exact hsome

/-! ## Lists of numbers -/

/-- The numbers of `log` were appended to `key`, each as an entry of its own. -/
def HoldsLog (store : KeyValue Key) (key : Key) (log : List Nat) : Prop :=
  store key = if log = [] then none else some (Text.entries (log.map fun n => [n]))

theorem HoldsLog.congr {next : KeyValue Key} (h : store.HoldsLog key log)
    (heq : next key = store key) : next.HoldsLog key log := by
  rwa [HoldsLog, heq]

theorem HoldsLog.text_eq (h : store.HoldsLog key log) :
    store.text key = Text.entries (log.map fun n => [n]) := by
  rw [text, h]
  split
  · subst log
    rfl
  · rfl

theorem HoldsLog.append (h : store.HoldsLog key log) (n : Nat) :
    (store.append key (Text.entry ',' [Text.decimal n])).HoldsLog key (log ++ [n]) := by
  rw [HoldsLog, if_neg (by simp), KeyValue.append, set_self, h.text_eq]
  simp [Text.entries]

end KeyValue

end ResiliencyExt.Foundation
