import ResiliencyExt.Foundation.RegexTerms

set_option autoImplicit false

/-!
# Foundation: groups of a pattern

What a greedy loop over one class takes, exactly (`mem_run_loop_iff`), and what the value of a
group can be: a text that a body of a group of that name goes over (`searchGroup_sound`).  A
pattern that begins at the start of a text is run there only (`search_textStart`).
-/

namespace ResiliencyExt.Foundation.Regex

open List

variable {data : CharData} {ignoreCase : Bool}

namespace Cursor

/-- The cursor behind a text. -/
def advance (p : Cursor) (taken rest : List Char) : Cursor :=
  ⟨taken.reverse ++ p.before, rest, p.groups⟩

theorem advance_advance (p : Cursor) (first second middle rest : List Char) :
    (p.advance first middle).advance second rest = p.advance (first ++ second) rest := by
  unfold advance
  rw [reverse_append, append_assoc]

theorem textTo_of_rest {p q : Cursor} {taken : List Char} (h : p.rest = taken ++ q.rest) :
    p.textTo q = taken := by
  unfold textTo
  rw [h, length_append, Nat.add_sub_cancel, take_left]

theorem textTo_advance {p : Cursor} {taken rest : List Char} (h : p.rest = taken ++ rest) :
    p.textTo (p.advance taken rest) = taken :=
  textTo_of_rest h

end Cursor

section Matching

variable (data : CharData) (ignoreCase : Bool)

/-- The matches of a pattern from a cursor on, where it matches no empty text. -/
def findAllFrom (r : Pattern) : Nat → Cursor → List Cursor
  | 0, _ => []
  | fuel + 1, p =>
    match searchFrom data ignoreCase r p.before p.rest with
    | none => []
    | some (_, q) => q :: findAllFrom r fuel q

/-- `pattern.finditer(text)`: the matches one behind another. -/
def findAll (r : Pattern) (text : List Char) : List Cursor :=
  findAllFrom data ignoreCase r (text.length + 1) (.start text)

end Matching

/-! ## Loops over a class -/

variable {admits : Char → Bool} {p q : Cursor} {r : Pattern} {before text : List Char}

variable {least : Nat} {c : Char} {greedy : Bool} {name : String} {value : List Char}

theorem mem_step_iff :
    q ∈ p.step admits ↔
      ∃ c rest, p.rest = c :: rest ∧ admits c = true ∧ q = p.advance [c] rest := by
  constructor
  · intro h
    unfold Cursor.step at h
    split at h
    · cases h
    · next c rest hrest =>
      split at h
      · next hadmits => exact ⟨c, rest, hrest, hadmits, mem_singleton.mp h⟩
      · cases h
  · rintro ⟨c, rest, hrest, hadmits, rfl⟩
    unfold Cursor.step
    rw [hrest]
    exact mem_ite_nil_right.mpr ⟨hadmits, mem_singleton_self _⟩

/-- A text of admitted characters that the loop can take. -/
def Takes (admits : Char → Bool) (least : Nat) (p q : Cursor) : Prop :=
  ∃ taken rest, p.rest = taken ++ rest ∧ (∀ c ∈ taken, admits c = true) ∧
    least ≤ taken.length ∧ q = p.advance taken rest

theorem takes_refl (admits : Char → Bool) (p : Cursor) : Takes admits 0 p p :=
  ⟨[], p.rest, rfl, fun _ h => absurd h not_mem_nil, Nat.zero_le _, rfl⟩

/-- A loop takes one character, then the rest of what it takes. -/
theorem Takes.cons {rest : List Char} (hrest : p.rest = c :: rest) (hadmits : admits c = true)
    (h : Takes admits (least - 1) (p.advance [c] rest) q) : Takes admits least p q := by
  obtain ⟨taken, rest', hrest', hall, hleast, rfl⟩ := h
  have hcut : rest = taken ++ rest' := hrest'
  refine ⟨c :: taken, rest', by rw [hrest, hcut]; rfl, ?_, ?_, ?_⟩
  · exact forall_mem_cons.mpr ⟨hadmits, hall⟩
  · rw [length_cons]
    omega
  · exact p.advance_advance [c] taken rest rest'

theorem takes_of_mem_iterate {fuel : Nat} :
    ∀ {least : Nat} {p q : Cursor},
      q ∈ iterate (Cursor.step admits) greedy fuel least none p → Takes admits least p q := by
  induction fuel with
  | zero =>
    intro least p q h
    unfold iterate at h
    obtain ⟨rfl, hq⟩ := mem_ite_nil_right.mp h
    exact mem_singleton.mp hq ▸ takes_refl admits p
  | succ fuel ih =>
    intro least p q h
    have hmore : q ∈ (p.step admits).flatMap
        (iterate (Cursor.step admits) greedy fuel (least - 1) none) →
        Takes admits least p q := by
      intro hq
      obtain ⟨middle, hmiddle, hq⟩ := mem_flatMap.mp hq
      obtain ⟨c, rest, hrest, hadmits, rfl⟩ := mem_step_iff.mp hmiddle
      exact (ih hq).cons hrest hadmits
    unfold iterate at h
    dsimp only at h
    rw [if_neg (Option.some_ne_none 0).symm] at h
    split at h
    · exact hmore h
    · next hzero =>
      obtain rfl : least = 0 := by omega
      split at h
      · rcases mem_append.mp h with hq | hq
        · exact hmore hq
        · exact mem_singleton.mp hq ▸ takes_refl admits p
      · rcases mem_cons.mp h with rfl | hq
        · exact takes_refl admits q
        · exact hmore hq

theorem mem_iterate_of_takes {taken : List Char} :
    ∀ {fuel least : Nat} {p : Cursor} {rest : List Char}, p.rest = taken ++ rest →
      (∀ c ∈ taken, admits c = true) → least ≤ taken.length → taken.length ≤ fuel →
      p.advance taken rest ∈ iterate (Cursor.step admits) true fuel least none p := by
  induction taken with
  | nil =>
    intro fuel least p rest hrest hall hleast hfuel
    obtain rfl : least = 0 := Nat.le_zero.mp hleast
    have hself : p.advance [] rest = p := by
      rw [nil_append] at hrest
      exact hrest ▸ rfl
    rw [hself]
    cases fuel with
    | zero => exact mem_singleton_self p
    | succ fuel => exact mem_append_right _ (mem_singleton_self p)
  | cons c taken ih =>
    intro fuel least p rest hrest hall hleast hfuel
    obtain ⟨hadmits, hall⟩ := forall_mem_cons.mp hall
    cases fuel with
    | zero => exact absurd hfuel (Nat.not_succ_le_zero _)
    | succ fuel =>
      rw [length_cons] at hleast hfuel
      have hmiddle : p.advance [c] (taken ++ rest) ∈ p.step admits :=
        mem_step_iff.mpr ⟨c, taken ++ rest, hrest, hadmits, rfl⟩
      have hrun : p.advance (c :: taken) rest ∈
          iterate (Cursor.step admits) true fuel (least - 1) none
            (p.advance [c] (taken ++ rest)) :=
        p.advance_advance [c] taken (taken ++ rest) rest ▸
          ih rfl hall (by omega) (by omega)
      have hmore := mem_flatMap.mpr ⟨_, hmiddle, hrun⟩
      unfold iterate
      dsimp only
      rw [if_neg (Option.some_ne_none 0).symm]
      split
      · exact hmore
      · exact mem_append_left _ hmore

/-- A greedy loop over a class comes to the places behind enough admitted characters. -/
theorem mem_run_loop_iff {cls : CharClass} :
    q ∈ run data ignoreCase (.repeated (.one cls) least none true) p ↔
      Takes (cls.admits ignoreCase) least p q := by
  constructor
  · exact takes_of_mem_iterate
  · rintro ⟨taken, rest, hrest, hall, hleast, rfl⟩
    refine mem_iterate_of_takes hrest hall hleast ?_
    rw [hrest, length_append]
    omega

/-! ## Patterns at the start of a text -/

theorem run_textStart (r : Pattern) (hne : before ≠ []) (rest : List Char) :
    run data ignoreCase (.seq .textStart r) ⟨before, rest, []⟩ = [] := by
  cases before with
  | nil => exact absurd rfl hne
  | cons c before => rfl

/-- A pattern that begins at the start of a text is not found behind it. -/
theorem searchFrom_textStart (r : Pattern) (hne : before ≠ []) (text : List Char) :
    searchFrom data ignoreCase (.seq .textStart r) before text = none := by
  induction text generalizing before with
  | nil =>
    unfold searchFrom
    rw [run_textStart r hne]
    rfl
  | cons c rest ih =>
    unfold searchFrom
    rw [run_textStart r hne]
    exact ih (cons_ne_nil c before)

theorem search_textStart (r : Pattern) (text : List Char) :
    search data ignoreCase (.seq .textStart r) text =
      (run data ignoreCase r (.start text)).head?.map fun q => (.start text, q) := by
  have hrun : run data ignoreCase (.seq .textStart r) (.start text) =
      run data ignoreCase r (.start text) :=
    flatMap_singleton (run data ignoreCase r) (Cursor.start text)
  cases text with
  | nil =>
    unfold search searchFrom
    exact congrArg (fun ends => (head? ends).map fun q => (Cursor.start [], q)) hrun
  | cons c rest =>
    have hstart : (⟨[], c :: rest, []⟩ : Cursor) = .start (c :: rest) := rfl
    unfold search searchFrom
    rw [hstart, hrun, searchFrom_textStart r (cons_ne_nil c [])]
    cases (run data ignoreCase r (.start (c :: rest))).head? <;> rfl

/-! ## Groups -/

/-- The groups of a pattern with their bodies. -/
def groupsOf : Pattern → List (String × Pattern)
  | .seq first second => groupsOf first ++ groupsOf second
  | .alt left right => groupsOf left ++ groupsOf right
  | .repeated body _ _ _ => groupsOf body
  | .group name body => (name, body) :: groupsOf body
  | _ => []

/-- A text that a body of a group of that name goes over. -/
def Captured (data : CharData) (ignoreCase : Bool) (groups : List (String × Pattern))
    (g : String × List Char) : Prop :=
  ∃ body, (g.1, body) ∈ groups ∧ ∃ p q, q ∈ run data ignoreCase body p ∧ g.2 = p.textTo q

theorem Captured.mono {groups more : List (String × Pattern)} {g : String × List Char}
    (hsub : groups ⊆ more) (h : Captured data ignoreCase groups g) :
    Captured data ignoreCase more g := by
  obtain ⟨body, hbody, hrun⟩ := h
  exact ⟨body, hsub hbody, hrun⟩

theorem groups_of_mem_iterate {body : Cursor → List Cursor} {P : String × List Char → Prop}
    (hbody : ∀ p q, q ∈ body p → ∀ g ∈ q.groups, g ∈ p.groups ∨ P g) :
    ∀ {fuel least : Nat} {most : Option Nat} {p q : Cursor},
      q ∈ iterate body greedy fuel least most p → ∀ g ∈ q.groups, g ∈ p.groups ∨ P g := by
  intro fuel
  induction fuel using Nat.strongRecOn with
  | ind fuel ih =>
    intro least most p q h g hg
    rcases mem_iterate h with ⟨rfl, _⟩ | ⟨middle, hmiddle, fuel', _, _, hq, hless⟩
    · exact .inl hg
    · exact (ih fuel' hless hq g hg).elim (hbody p middle hmiddle g) .inr

theorem groups_of_mem_step (h : q ∈ p.step admits) : q.groups = p.groups := by
  obtain ⟨_, _, _, _, rfl⟩ := mem_step_iff.mp h
  rfl

theorem groups_of_mem_stepText : ∀ {p q : Cursor}, q ∈ p.stepText text →
    q.groups = p.groups := by
  induction text with
  | nil =>
    intro p q h
    exact congrArg Cursor.groups (mem_singleton.mp h)
  | cons x text ih =>
    intro p q h
    obtain ⟨middle, hmiddle, hq⟩ := mem_flatMap.mp h
    exact (ih hq).trans (groups_of_mem_step hmiddle)

/-- A run adds groups of the pattern. -/
theorem groups_of_mem_run : ∀ {p q : Cursor}, q ∈ run data ignoreCase r p →
    ∀ g ∈ q.groups, g ∈ p.groups ∨ Captured data ignoreCase (groupsOf r) g := by
  have hsame : ∀ {p q : Cursor} {groups : List (String × Pattern)}, q.groups = p.groups →
      ∀ g ∈ q.groups, g ∈ p.groups ∨ Captured data ignoreCase groups g :=
    fun heq _ hg => .inl (heq ▸ hg)
  induction r with
  | one cls => exact fun h => hsame (groups_of_mem_step h)
  | seq first second ihfirst ihsecond =>
    intro p q h g hg
    obtain ⟨middle, hmiddle, hq⟩ := mem_flatMap.mp h
    rcases ihsecond hq g hg with hg | hg
    · exact (ihfirst hmiddle g hg).imp_right (·.mono (subset_append_left _ _))
    · exact .inr (hg.mono (subset_append_right _ _))
  | alt left right ihleft ihright =>
    intro p q h g hg
    rcases mem_append.mp h with hq | hq
    · exact (ihleft hq g hg).imp_right (·.mono (subset_append_left _ _))
    · exact (ihright hq g hg).imp_right (·.mono (subset_append_right _ _))
  | repeated body least most greedy ih =>
    exact fun h => groups_of_mem_iterate (fun _ _ => ih) h
  | group name body ih =>
    intro p q h g hg
    obtain ⟨q', hq', rfl⟩ := mem_map.mp h
    rcases mem_cons.mp hg with rfl | hg
    · exact .inr ⟨body, mem_cons_self, p, q', hq', rfl⟩
    · exact (ih hq' g hg).imp_right (·.mono (subset_cons_self _ _))
  | backref name =>
    intro p q h
    unfold run at h
    split at h
    · cases h
    · exact hsame (groups_of_mem_stepText h)
  | notBehind cls =>
    intro p q h
    unfold run at h
    split at h
    · cases h
    · exact hsame (congrArg Cursor.groups (mem_singleton.mp h))
  | empty => exact fun h => hsame (congrArg Cursor.groups (mem_singleton.mp h))
  | wordBoundary => exact fun h => hsame (congrArg Cursor.groups (eq_of_mem_ite h))
  | textStart => exact fun h => hsame (congrArg Cursor.groups (eq_of_mem_ite h))
  | textEnd => exact fun h => hsame (congrArg Cursor.groups (eq_of_mem_ite h))
  | notAhead body => exact fun h => hsame (congrArg Cursor.groups (eq_of_mem_ite h))

/-- Groups are empty where a search starts. -/
theorem groups_of_searchFrom {m : Cursor × Cursor}
    (h : searchFrom data ignoreCase r before text = some m) : m.1.groups = [] := by
  induction text generalizing before with
  | nil =>
    obtain ⟨q, _, rfl⟩ := Option.map_eq_some_iff.mp h
    rfl
  | cons c rest ih =>
    unfold searchFrom at h
    split at h
    · cases h
      rfl
    · exact ih h

theorem searchGroup_sound (h : searchGroup data ignoreCase r name text = some value) :
    Captured data ignoreCase (groupsOf r) (name, value) := by
  obtain ⟨m, hm, hget⟩ := Option.bind_eq_some_iff.mp h
  obtain ⟨g, hfind, rfl⟩ := Option.map_eq_some_iff.mp hget
  have hfound := find?_some hfind
  have hname : g.1 = name := of_decide_eq_true hfound
  have hrun := (exists_run_of_searchFrom hm).2
  subst hname
  rcases groups_of_mem_run hrun g (mem_of_find?_eq_some hfind) with hg | hg
  · rw [groups_of_searchFrom hm] at hg
    exact absurd hg not_mem_nil
  · exact hg

/-! ## Numbers -/

/-- Each group of that name is a run of digits. -/
def capturesDigits (name : String) (r : Pattern) : Bool :=
  (groupsOf r).all fun g => g.1 ≠ name || g.2 = Pattern.digits

/-- The value of a group of digits is a run of digits. -/
theorem digits_of_searchGroup (hdigits : capturesDigits name r = true)
    (h : searchGroup data ignoreCase r name text = some value) :
    value ≠ [] ∧ ∀ c ∈ value, Unicode.isDecimal c = true := by
  obtain ⟨body, hbody, p, q, hrun, rfl⟩ := searchGroup_sound h
  have hcheck := all_eq_true.mp hdigits _ hbody
  obtain rfl : body = Pattern.digits := by simpa using hcheck
  obtain ⟨taken, rest, hrest, hall, hleast, rfl⟩ := mem_run_loop_iff.mp hrun
  rw [Cursor.textTo_advance hrest]
  exact ⟨ne_nil_of_length_pos hleast, hall⟩

/-! ## Words without the letters of `isSpecial` -/

/-- An ASCII character that no letter beyond `str.lower` is taken for. -/
def isFaithful (x : Char) : Bool :=
  isAscii x && x.toLower ≠ 'i' && x.toLower ≠ 's'

theorem fold?_of_isFaithful {x : Char} (hx : isFaithful x = true) (h : x ∈ caseVariants c) :
    fold? c = some x.toLower := by
  simp only [isFaithful, Bool.and_eq_true, decide_eq_true_eq] at hx
  obtain ⟨⟨hascii, hi⟩, hs⟩ := hx
  refine fold?_of_mem_caseVariants ?_ hascii h
  simp only [isSpecial, Bool.or_eq_false_iff, decide_eq_false_iff_not]
  refine ⟨⟨?_, ?_⟩, ?_⟩
  · rintro rfl
    have hmem : x ∈ ['i', 'I'] := h
    rcases mem_pair.mp hmem with rfl | rfl
    · exact hi rfl
    · exact hi rfl
  · rintro rfl
    have hmem : x ∈ ['i', 'I'] := h
    rcases mem_pair.mp hmem with rfl | rfl
    · exact hi rfl
    · exact hi rfl
  · rintro rfl
    have hmem : x ∈ ['s', 'S'] := h
    rcases mem_pair.mp hmem with rfl | rfl
    · exact hs rfl
    · exact hs rfl

/-- A word that is matched is in the text in lower case. -/
theorem folds_of_mem_run_word (word : List Char) (hword : word.all isFaithful = true) :
    ∀ {p q : Cursor},
      q ∈ run data true (Pattern.cat (word.map fun c => .one (.char c))) p →
      ∃ taken, p.rest = taken ++ q.rest ∧ Folds taken (word.map Char.toLower) := by
  have hone : ∀ {x : Char} {p q : Cursor}, isFaithful x = true →
      q ∈ run data true (.one (.char x)) p →
      ∃ c, p.rest = c :: q.rest ∧ fold? c = some x.toLower := by
    intro x p q hx h
    obtain ⟨c, hrest, hadmits⟩ := mem_step h
    exact ⟨c, hrest, fold?_of_isFaithful hx (contains_iff_mem.mp hadmits)⟩
  induction word with
  | nil =>
    intro p q h
    exact ⟨[], congrArg Cursor.rest (mem_singleton.mp h).symm, .nil⟩
  | cons x word ih =>
    rw [all_cons, Bool.and_eq_true] at hword
    intro p q h
    cases word with
    | nil =>
      obtain ⟨c, hrest, hfold⟩ := hone hword.1 h
      exact ⟨[c], hrest, .cons hfold .nil⟩
    | cons y word =>
      obtain ⟨middle, hmiddle, hq⟩ := mem_flatMap.mp h
      obtain ⟨c, hrest, hfold⟩ := hone hword.1 hmiddle
      obtain ⟨taken, hrest', hfolds⟩ := ih hword.2 hq
      exact ⟨c :: taken, by rw [hrest, hrest', cons_append], .cons hfold hfolds⟩

end ResiliencyExt.Foundation.Regex
