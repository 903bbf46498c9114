import Mathlib.Data.List.Dedup

set_option autoImplicit false

/-!
# Foundation: insertion-ordered dictionaries

A dictionary is a list of entries with pairwise different keys, in the order in
which the keys were first inserted.  Overwriting a key keeps its place; a key
that is deleted and inserted again goes to the end.
-/

namespace ResiliencyExt.Foundation

open List

/-- An insertion-ordered dictionary. -/
structure Dict (κ ν : Type) where
  entries : List (κ × ν)
  nodup : (entries.map Prod.fst).Nodup

namespace Dict

variable {κ ν : Type}

/-- Dropping a key that is not there drops nothing. -/
theorem filter_ne_eq_self [DecidableEq κ] {keys : List κ} {key : κ} (h : key ∉ keys) :
    (keys.filter fun k => k ≠ key) = keys := by
  refine filter_eq_self.mpr fun k hk => ?_
  have hne : k ≠ key := fun heq => h (heq ▸ hk)
  simpa using hne

/-- `{}` -/
def empty : Dict κ ν where
  entries := []
  nodup := nodup_nil

theorem eq_of_entries {d e : Dict κ ν} (h : d.entries = e.entries) : d = e := by
  cases d
  cases e
  cases h
  rfl

/-- The keys in insertion order. -/
def keys (d : Dict κ ν) : List κ :=
  d.entries.map Prod.fst

theorem nodup_keys (d : Dict κ ν) : d.keys.Nodup :=
  d.nodup

@[simp] theorem keys_empty : (empty : Dict κ ν).keys = [] := rfl

/-- `{key: value for key in keys}` over keys without duplicates. -/
def const (keys : List κ) (nodup : keys.Nodup) (value : ν) : Dict κ ν where
  entries := keys.map fun key => (key, value)
  nodup := by simpa [Function.comp_def] using nodup

variable [DecidableEq κ]

/-- `d.get(key)` -/
def get? (d : Dict κ ν) (key : κ) : Option ν :=
  (d.entries.find? fun e => e.1 = key).map Prod.snd

variable {d : Dict κ ν} {value : ν} {k : κ}

theorem get?_isSome_iff {key : κ} : (d.get? key).isSome ↔ key ∈ d.keys := by
  simp only [get?, Option.isSome_map, find?_isSome, decide_eq_true_eq, keys,
    mem_map]

theorem exists_get?_of_mem {key : κ} (h : key ∈ d.keys) : ∃ value, d.get? key = some value :=
  Option.isSome_iff_exists.mp (get?_isSome_iff.mpr h)

theorem get?_eq_some_of_mem {e : κ × ν} (h : e ∈ d.entries) : d.get? e.1 = some e.2 := by
  obtain ⟨entries, nodup⟩ := d
  simp only [get?]
  induction entries with
  | nil => simp at h
  | cons first rest ih =>
    obtain ⟨hfirst, hrest⟩ := nodup_cons.mp nodup
    rcases mem_cons.mp h with rfl | hmem
    · simp
    · have hne : first.1 ≠ e.1 := fun heq => hfirst (heq ▸ mem_map_of_mem hmem)
      rw [find?_cons_of_neg (by simpa using hne)]
      exact ih hrest hmem

theorem mem_of_get?_eq_some {key : κ} (h : d.get? key = some value) :
    (key, value) ∈ d.entries := by
  obtain ⟨e, hfind, rfl⟩ := Option.map_eq_some_iff.mp h
  have hkey : e.1 = key := by simpa using find?_some hfind
  exact hkey ▸ mem_of_find?_eq_some hfind

/-- Changing a value changes no key. -/
theorem map_fst_modify (entries : List (κ × ν)) (key : κ) (g : ν → ν) :
    (entries.map fun e => if e.1 = key then (key, g e.2) else e).map Prod.fst =
      entries.map Prod.fst := by
  rw [map_map]
  refine map_congr_left fun e _ => ?_
  simp only [Function.comp_apply]
  split
  · rename_i heq
    exact heq.symm
  · rfl

/-- Change the value under a key in place, or insert a changed `init` at the end:
`d.setdefault(key, init)` followed by a mutation of what is there. -/
def alter (d : Dict κ ν) (key : κ) (init : ν) (g : ν → ν) : Dict κ ν where
  entries :=
    if key ∈ d.keys then d.entries.map fun e => if e.1 = key then (key, g e.2) else e
    else d.entries ++ [(key, g init)]
  nodup := by
    split
    · rw [map_fst_modify]
      exact d.nodup
    · rename_i hnew
      rw [map_append]
      exact nodup_append_comm.mp (nodup_cons.mpr ⟨hnew, d.nodup⟩)

theorem entries_alter_of_mem {key : κ} (init : ν) (g : ν → ν) (h : key ∈ d.keys) :
    (d.alter key init g).entries =
      d.entries.map fun e => if e.1 = key then (key, g e.2) else e :=
  if_pos h

theorem entries_alter_of_not_mem {key : κ} (init : ν) (g : ν → ν) (h : key ∉ d.keys) :
    (d.alter key init g).entries = d.entries ++ [(key, g init)] :=
  if_neg h

theorem mem_keys_alter {key : κ} {init : ν} {g : ν → ν} :
    k ∈ (d.alter key init g).keys ↔ k = key ∨ k ∈ d.keys := by
  by_cases hkey : key ∈ d.keys
  · rw [keys, entries_alter_of_mem _ _ hkey, map_fst_modify]
    exact ⟨Or.inr, fun h => h.elim (fun heq => heq ▸ hkey) id⟩
  · rw [keys, entries_alter_of_not_mem _ _ hkey, map_append, mem_append]
    exact or_comm.trans (or_congr mem_singleton Iff.rfl)

/-- `d[key] = value` -/
def set (d : Dict κ ν) (key : κ) (value : ν) : Dict κ ν :=
  d.alter key value fun _ => value

/-- `del d[key]`, leaving a dictionary without the key alone. -/
def erase (d : Dict κ ν) (key : κ) : Dict κ ν where
  entries := d.entries.filter fun e => e.1 ≠ key
  nodup := d.nodup.sublist (filter_sublist.map Prod.fst)

/-- `{k: v for k, v in d.items() if keep(k)}` -/
def filterKeys (d : Dict κ ν) (keep : κ → Bool) : Dict κ ν where
  entries := d.entries.filter fun e => keep e.1
  nodup := d.nodup.sublist (filter_sublist.map Prod.fst)

theorem keys_set_of_mem {key : κ} (value : ν) (h : key ∈ d.keys) :
    (d.set key value).keys = d.keys := by
  rw [set, keys, entries_alter_of_mem _ _ h]
  exact map_fst_modify d.entries key fun _ => value

theorem keys_set_of_not_mem {key : κ} (value : ν) (h : key ∉ d.keys) :
    (d.set key value).keys = d.keys ++ [key] := by
  rw [set, keys, entries_alter_of_not_mem _ _ h, map_append]
  rfl

theorem get?_set_self (d : Dict κ ν) (key : κ) (value : ν) :
    (d.set key value).get? key = some value := by
  have hmem : (key, value) ∈ (d.set key value).entries := by
    by_cases hkey : key ∈ d.keys
    · rw [set, entries_alter_of_mem _ _ hkey]
      obtain ⟨e, he, rfl⟩ := mem_map.mp hkey
      exact mem_map.mpr ⟨e, he, if_pos rfl⟩
    · rw [set, entries_alter_of_not_mem _ _ hkey]
      simp
  exact get?_eq_some_of_mem hmem

theorem get?_set_of_ne (d : Dict κ ν) {key : κ} (value : ν) (h : k ≠ key) :
    (d.set key value).get? k = d.get? k := by
  unfold get?
  by_cases hkey : key ∈ d.keys
  · rw [set, entries_alter_of_mem _ _ hkey, find?_map]
    have hsame : (d.entries.find? ((fun e => decide (e.1 = k)) ∘ fun e : κ × ν =>
        if e.1 = key then (key, value) else e)) = d.entries.find? fun e => e.1 = k := by
      congr 1
      funext e
      by_cases he : e.1 = key
      · simp [he]
      · simp [he]
    rw [hsame, Option.map_map]
    cases hfind : d.entries.find? fun e => e.1 = k with
    | none => rfl
    | some e =>
      have hek : e.1 = k := by simpa using find?_some hfind
      have hne : e.1 ≠ key := fun heq => h (hek.symm.trans heq)
      simp [hne]
  · rw [set, entries_alter_of_not_mem _ _ hkey, find?_append]
    have hlast : [(key, value)].find? (fun e => decide (e.1 = k)) = none := by
      simp [Ne.symm h]
    rw [hlast, Option.or_none]

theorem keys_erase (d : Dict κ ν) (key : κ) :
    (d.erase key).keys = d.keys.filter fun k => k ≠ key := by
  simp only [erase, keys, filter_map, Function.comp_def]

theorem mem_keys_set {key : κ} : k ∈ (d.set key value).keys ↔ k = key ∨ k ∈ d.keys := by
  by_cases hkey : key ∈ d.keys
  · rw [keys_set_of_mem value hkey]
    exact ⟨Or.inr, fun h => h.elim (fun heq => heq ▸ hkey) id⟩
  · rw [keys_set_of_not_mem value hkey, mem_append, mem_singleton]
    exact or_comm

theorem mem_keys_erase {key : κ} : k ∈ (d.erase key).keys ↔ k ∈ d.keys ∧ k ≠ key := by
  rw [keys_erase, mem_filter, decide_eq_true_eq]

theorem get?_erase_of_ne (d : Dict κ ν) {key : κ} (h : k ≠ key) :
    (d.erase key).get? k = d.get? k := by
  have hsame : ∀ e : κ × ν, (e.1 ≠ key ∧ e.1 = k) ↔ e.1 = k := fun e =>
    ⟨And.right, fun heq => ⟨heq ▸ h, heq⟩⟩
  simp only [get?, erase, find?_filter, decide_eq_true_eq, hsame]

theorem get?_erase_self (d : Dict κ ν) (key : κ) : (d.erase key).get? key = none := by
  refine Option.not_isSome_iff_eq_none.mp fun h => ?_
  exact (mem_keys_erase.mp (get?_isSome_iff.mp h)).2 rfl

/-- What is left after a deletion was there before. -/
theorem get?_of_get?_erase {key : κ} (h : (d.erase key).get? k = some value) :
    d.get? k = some value := by
  have hmem : k ∈ (d.erase key).keys := get?_isSome_iff.mp (h ▸ rfl)
  rwa [get?_erase_of_ne d (mem_keys_erase.mp hmem).2] at h

theorem get?_set (d : Dict κ ν) (key k : κ) (value : ν) :
    (d.set key value).get? k = if k = key then some value else d.get? k := by
  split
  · rename_i heq
    rw [heq, get?_set_self]
  · rename_i hne
    exact get?_set_of_ne d value hne

theorem mem_keys_of_get? {key : κ} (h : d.get? key = some value) : key ∈ d.keys :=
  get?_isSome_iff.mp (h ▸ rfl)

/-- An entry of the dictionary, with the entries before and after it. -/
theorem exists_split_of_get? {key : κ} (h : d.get? key = some value) : ∃ front back,
      d.entries = front ++ (key, value) :: back ∧ (d.erase key).entries = front ++ back ∧
        ∀ e ∈ front ++ back, e.1 ≠ key := by
  obtain ⟨front, back, hsplit⟩ := append_of_mem (mem_of_get?_eq_some h)
  have hnodup := d.nodup
  rw [hsplit, map_append, map_cons] at hnodup
  have hothers : ∀ e ∈ front ++ back, e.1 ≠ key := by
    intro e he heq
    have hmem : key ∈ (front ++ back).map Prod.fst := heq ▸ mem_map_of_mem he
    rw [map_append] at hmem
    exact (nodup_cons.mp (perm_middle.nodup_iff.mp hnodup)).1 hmem
  refine ⟨front, back, hsplit, ?_, hothers⟩
  have hkeep : ∀ part : List (κ × ν), (∀ e ∈ part, e.1 ≠ key) →
      part.filter (fun e => e.1 ≠ key) = part := fun part hpart =>
    filter_eq_self.mpr fun e he => decide_eq_true (hpart e he)
  change d.entries.filter (fun e => e.1 ≠ key) = _
  rw [hsplit, filter_append, filter_cons_of_neg (by simp),
    hkeep front fun e he => hothers e (mem_append_left back he),
    hkeep back fun e he => hothers e (mem_append_right front he)]

/-- Setting different new keys one after another appends their entries. -/
theorem entries_foldl_set {α : Type} (key : α → κ) (value : α → ν) {items : List α}
    (hnodup : (items.map key).Nodup) :
    ∀ {d : Dict κ ν}, (∀ item ∈ items, key item ∉ d.keys) →
      (items.foldl (fun d item => d.set (key item) (value item)) d).entries =
        d.entries ++ items.map fun item => (key item, value item) := by
  induction items with
  | nil => exact fun _ => (append_nil _).symm
  | cons first rest ih =>
    intro d hfresh
    obtain ⟨hfirst, hrest⟩ := nodup_cons.mp hnodup
    have hentries : (d.set (key first) (value first)).entries =
        d.entries ++ [(key first, value first)] :=
      entries_alter_of_not_mem _ _ (hfresh first mem_cons_self)
    rw [foldl_cons, ih hrest, hentries, append_assoc]
    · rfl
    · intro item hmem hkey
      rcases mem_keys_set.mp hkey with heq | hold
      · exact hfirst (heq ▸ mem_map_of_mem hmem)
      · exact hfresh item (mem_cons_of_mem _ hmem) hold

/-- Setting one key after another leaves the value that all settings of a key agree on. -/
theorem get?_foldl_set {α : Type} (key : α → κ) (value : α → ν) {v : ν} {items : List α}
    (hsame : ∀ item ∈ items, key item = k → value item = v) :
    ∀ {d : Dict κ ν}, ((∃ item ∈ items, key item = k) ∨ d.get? k = some v) →
      (items.foldl (fun d item => d.set (key item) (value item)) d).get? k = some v := by
  induction items with
  | nil => exact fun h => h.elim (fun ⟨_, hmem, _⟩ => nomatch hmem) id
  | cons first rest ih =>
    intro d h
    refine ih (fun item hmem => hsame item (mem_cons_of_mem _ hmem)) ?_
    rw [get?_set]
    split
    · next heq => exact .inr (congrArg some (hsame first mem_cons_self heq.symm))
    · next hne =>
      refine h.imp (fun ⟨item, hmem, heq⟩ => ⟨item, ?_, heq⟩) id
      exact (mem_cons.mp hmem).resolve_left fun hfirst => hne (hfirst ▸ heq.symm)

/-- The same keys with the values changed. -/
def mapValues {μ : Type} (d : Dict κ ν) (g : ν → μ) : Dict κ μ where
  entries := d.entries.map fun e => (e.1, g e.2)
  nodup := by
    rw [map_map]
    exact d.nodup

omit [DecidableEq κ] in
@[simp] theorem keys_mapValues {μ : Type} (d : Dict κ ν) (g : ν → μ) :
    (d.mapValues g).keys = d.keys := by
  simp [keys, mapValues]

/-- A dictionary with one key. -/
theorem entries_eq_singleton {d : Dict κ ν} {key : κ} {value : ν}
    (hkeys : ∀ k ∈ d.keys, k = key) (h : d.get? key = some value) :
    d.entries = [(key, value)] := by
  have hmem := mem_of_get?_eq_some h
  obtain ⟨entries, nodup⟩ := d
  match entries, nodup with
  | [], _ => cases hmem
  | [e], _ => rw [mem_singleton.mp hmem]
  | e :: e' :: rest, nodup =>
    have hfirst := hkeys e.1 mem_cons_self
    have hsecond := hkeys e'.1 (mem_cons_of_mem _ mem_cons_self)
    refine absurd ?_ (nodup_cons.mp nodup).1
    rw [hfirst, ← hsecond]
    exact mem_cons_self

/-! ## Grouping -/

section Grouping

variable {α : Type} (key : α → κ) (init : ν) (add : ν → α → ν)

/-- Every key of the items is there, and its value has the items with that key added to `init` in
their order. -/
structure Groups (items : List α) (d : Dict κ ν) : Prop where
  value : ∀ e ∈ d.entries, e.1 ∈ items.map key ∧
    e.2 = (items.filter fun item => key item = e.1).foldl add init
  covers : ∀ item ∈ items, key item ∈ d.keys

variable {key init add}

theorem Groups.alter {items : List α} {d : Dict κ ν} (h : Groups key init add items d)
    (item : α) : Groups key init add (items ++ [item])
      (d.alter (key item) init fun value => add value item) where
  value := by
    intro e he
    by_cases hmem : key item ∈ d.keys
    · rw [entries_alter_of_mem _ _ hmem] at he
      obtain ⟨old, hold, rfl⟩ := mem_map.mp he
      obtain ⟨hkeys, hvalue⟩ := h.value old hold
      by_cases hkey : old.1 = key item
      · rw [if_pos hkey]
        refine ⟨mem_map_of_mem (mem_append_right _ mem_cons_self), ?_⟩
        rw [filter_append, hvalue, hkey]
        simp
      · rw [if_neg hkey]
        refine ⟨by rw [map_append]; exact mem_append_left _ hkeys, ?_⟩
        rw [filter_append, hvalue]
        simp [Ne.symm hkey]
    · rw [entries_alter_of_not_mem _ _ hmem] at he
      rcases mem_append.mp he with hold | hnew
      · obtain ⟨hkeys, hvalue⟩ := h.value e hold
        have hkey : key item ≠ e.1 := fun heq => hmem (heq ▸ mem_map_of_mem hold)
        refine ⟨by rw [map_append]; exact mem_append_left _ hkeys, ?_⟩
        rw [filter_append, hvalue]
        simp [hkey]
      · obtain rfl := mem_singleton.mp hnew
        refine ⟨mem_map_of_mem (mem_append_right _ mem_cons_self), ?_⟩
        have hnone : items.filter (fun other => key other = key item) = [] := by
          refine filter_eq_nil_iff.mpr fun other hother heq => hmem ?_
          rw [← of_decide_eq_true heq]
          exact h.covers other hother
        rw [filter_append, hnone]
        simp
  covers := by
    intro other hother
    rcases mem_append.mp hother with hold | hnew
    · exact mem_keys_alter.mpr (.inr (h.covers other hold))
    · obtain rfl := mem_singleton.mp hnew
      exact mem_keys_alter.mpr (.inl rfl)

theorem groups_foldl_alter (more : List α) :
    ∀ {items : List α} {d : Dict κ ν}, Groups key init add items d →
      Groups key init add (items ++ more)
        (more.foldl (fun d item => d.alter (key item) init fun value => add value item) d) := by
  induction more with
  | nil =>
    intro items d h
    rwa [append_nil]
  | cons item rest ih =>
    intro items d h
    rw [append_cons]
    exact ih (h.alter item)

/-- Grouping a list from the empty dictionary. -/
theorem groups_of_foldl_alter (items : List α) : Groups key init add items
    (items.foldl (fun d item => d.alter (key item) init fun value => add value item) empty) := by
  have hempty : Groups key init add [] empty :=
    ⟨fun _ he => absurd he not_mem_nil, fun _ hitem => absurd hitem not_mem_nil⟩
  exact groups_foldl_alter items hempty

/-- The keys are those of the items, each once. -/
theorem Groups.keys_perm_dedup {items : List α} {d : Dict κ ν}
    (h : Groups key init add items d) : d.keys.Perm (items.map key).dedup := by
  refine (perm_ext_iff_of_nodup d.nodup_keys (nodup_dedup _)).mpr fun k => ?_
  rw [mem_dedup]
  constructor
  · intro hmem
    obtain ⟨e, he, rfl⟩ := mem_map.mp hmem
    exact (h.value e he).1
  · intro hmem
    obtain ⟨item, hitem, rfl⟩ := mem_map.mp hmem
    exact h.covers item hitem

/-- The items key by key, over different keys that cover them. -/
theorem flatMap_filter_perm {items : List α} {keys : List κ} (hnodup : keys.Nodup) :
    (keys.flatMap fun k => items.filter fun item => key item = k).Perm
      (items.filter fun item => key item ∈ keys) := by
  induction keys with
  | nil =>
    rw [filter_eq_nil_iff.mpr fun _ _ h => not_mem_nil (of_decide_eq_true h)]
    exact .nil
  | cons k keys ih =>
    obtain ⟨hnew, hnodup⟩ := nodup_cons.mp hnodup
    have hfirst : (items.filter fun item => key item ∈ k :: keys).filter
        (fun item => decide (key item = k)) = items.filter fun item => key item = k := by
      rw [filter_filter]
      refine filter_congr fun item _ => ?_
      simp only [mem_cons, Bool.decide_or]
      cases decide (key item = k) <;> simp
    have hrest : (items.filter fun item => key item ∈ k :: keys).filter
        (fun item => !decide (key item = k)) = items.filter fun item => key item ∈ keys := by
      rw [filter_filter]
      refine filter_congr fun item _ => ?_
      rcases eq_or_ne (key item) k with heq | hne
      · simp [heq, hnew]
      · simp [hne]
    have hsplit := filter_append_perm (fun item => decide (key item = k))
      (items.filter fun item => key item ∈ k :: keys)
    rw [hfirst, hrest] at hsplit
    exact ((ih hnodup).append_left _).trans hsplit

theorem flatMap_filter_perm_self {items : List α} {keys : List κ} (hnodup : keys.Nodup)
    (hcovers : ∀ item ∈ items, key item ∈ keys) :
    (keys.flatMap fun k => items.filter fun item => key item = k).Perm items := by
  have h : (keys.flatMap fun k => items.filter fun item => key item = k).Perm
      (items.filter fun item => key item ∈ keys) := flatMap_filter_perm hnodup
  rwa [filter_eq_self.mpr fun item hitem => decide_eq_true (hcovers item hitem)] at h

end Grouping

/-! ## What the values hold together -/

/-- If changing a value adds one item to what it holds, and the initial value
holds nothing, then `alter` adds that item to what all values hold. -/
theorem flatMap_alter_perm {β : Type} {d : Dict κ ν} {key : κ} {init : ν} {g : ν → ν}
    {items : ν → List β} {x : β} (hg : ∀ v, (items (g v)).Perm (x :: items v))
    (hinit : items init = []) :
    ((d.alter key init g).entries.flatMap fun e => items e.2).Perm
      (x :: d.entries.flatMap fun e => items e.2) := by
  by_cases hmem : key ∈ d.keys
  · rw [entries_alter_of_mem _ _ hmem]
    obtain ⟨entries, nodup⟩ := d
    simp only [keys] at hmem
    induction entries with
    | nil => simp at hmem
    | cons first rest ih =>
      obtain ⟨hfirst, hrest⟩ := nodup_cons.mp nodup
      by_cases hkey : first.1 = key
      · have hsame : (rest.map fun e => if e.1 = key then (key, g e.2) else e) = rest := by
          refine (map_congr_left fun e he => ?_).trans (map_id rest)
          have hne : e.1 ≠ key := fun heq =>
            hfirst (hkey.trans heq.symm ▸ mem_map_of_mem he)
          rw [if_neg hne]
          rfl
        simp only [map_cons, if_pos hkey, hsame, flatMap_cons]
        exact (hg first.2).append_right _
      · have hmem' : key ∈ rest.map Prod.fst := by
          rcases mem_cons.mp hmem with heq | h
          · exact absurd heq.symm hkey
          · exact h
        simp only [map_cons, if_neg hkey, flatMap_cons]
        exact ((ih hrest hmem').append_left _).trans perm_middle
  · rw [entries_alter_of_not_mem _ _ hmem, flatMap_append]
    have hlast : ([(key, g init)].flatMap fun e => items e.2).Perm [x] := by
      simpa [hinit] using hg init
    exact (hlast.append_left _).trans (perm_append_singleton x _)

end Dict

end ResiliencyExt.Foundation
