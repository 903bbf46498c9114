import ResiliencyExt.Attribution.Straggler.DistUtils
import ResiliencyExt.Foundation.Dict

set_option autoImplicit false

/-!
# Straggler detection: the name mapper

Every rank keeps its own maps between names and ids, for kernels and for sections.
In a round the ranks first find out together whether somebody has a new name; only
then they exchange all names, and each assigns ids to the new ones in the order of
the ranks.  Ranks that agreed before a round agree after it, whatever names each of
them has.
-/

namespace ResiliencyExt.Attribution.Straggler

open Foundation List

/-- `*_name_to_id`, `id_to_*_name` and `*_counter` of kernels or of sections. -/
structure IdMap where
  nameToId : Dict String Nat
  idToName : Dict Nat String
  counter : Nat

def IdMap.empty : IdMap :=
  ⟨.empty, .empty, 0⟩

/-- `_assign_kernel_id` and `_assign_section_id`, without the returned id. -/
def IdMap.assign (m : IdMap) (name : String) : IdMap :=
  if name ∈ m.nameToId.keys then m
  else
    { nameToId := m.nameToId.set name m.counter
      idToName := m.idToName.set m.counter name
      counter := m.counter + 1 }

structure NameMapper where
  kernels : IdMap
  sections : IdMap

def NameMapper.empty : NameMapper :=
  ⟨.empty, .empty⟩

/-- The names that were recorded on one rank. -/
structure LocalNames where
  kernelNames : List String
  sectionNames : List String

/-- `_check_if_has_all_names` -/
def NameMapper.hasAllNames (m : NameMapper) (names : LocalNames) : Bool :=
  if names.kernelNames.any fun name => name ∉ m.kernels.nameToId.keys then false
  else if names.sectionNames.any fun name => name ∉ m.sections.nameToId.keys then false
  else true

def GatheredObject.sections : GatheredObject → List String
  | .names sectionNames _ => sectionNames
  | .node .. => []

def GatheredObject.kernels : GatheredObject → List String
  | .names _ kernelNames => kernelNames
  | .node .. => []

/-- The loops that assign ids to the gathered names. -/
def NameMapper.assignIds (m : NameMapper) (gatheredNames : List GatheredObject) : NameMapper where
  sections := (gatheredNames.flatMap GatheredObject.sections).foldl IdMap.assign m.sections
  kernels := (gatheredNames.flatMap GatheredObject.kernels).foldl IdMap.assign m.kernels

/-- `gather_and_assign_ids` -/
def NameMapper.gatherAndAssignIds (worldSize : Nat) (m : NameMapper) (names : LocalNames) :
    RankProgram NameMapper := do
  let allHave ← isAllTrue worldSize (m.hasAllNames names)
  if !allHave then
    let gatheredNames ← allGatherObject worldSize (.names names.sectionNames names.kernelNames)
    return m.assignIds gatheredNames
  else return m

/-! ## One map -/

namespace IdMap

/-- The ids are the numbers below the counter, and the two maps are inverse. -/
structure Consecutive (m : IdMap) : Prop where
  inverse : ∀ name id, m.nameToId.get? name = some id ↔ m.idToName.get? id = some name
  ids : ∀ id, (∃ name, m.nameToId.get? name = some id) ↔ id < m.counter

/-- Every id is kept. -/
def Keeps (m m' : IdMap) : Prop :=
  ∀ name id, m.nameToId.get? name = some id → m'.nameToId.get? name = some id

variable {m' : IdMap} (m : IdMap) (name : String) (names : List String)

theorem Keeps.refl : m.Keeps m :=
  fun _ _ h => h

theorem Keeps.trans {m m'' : IdMap} (h : m.Keeps m') (h' : m'.Keeps m'') : m.Keeps m'' :=
  fun name id hget => h' name id (h name id hget)

theorem Keeps.mem {m : IdMap} (h : m.Keeps m') {name : String} (hname : name ∈ m.nameToId.keys) :
    name ∈ m'.nameToId.keys := by
  obtain ⟨id, hid⟩ := Dict.exists_get?_of_mem hname
  exact Dict.mem_keys_of_get? (h name id hid)

theorem consecutive_empty : empty.Consecutive where
  inverse _ _ := iff_of_false nofun nofun
  ids _ := iff_of_false nofun (Nat.not_lt_zero _)

theorem Consecutive.assign {m : IdMap} (h : m.Consecutive) (name : String) :
    (m.assign name).Consecutive := by
  unfold IdMap.assign
  split
  · exact h
  · rename_i hnew
    have hname : ∀ id, m.nameToId.get? name ≠ some id := fun id hget =>
      hnew (Dict.mem_keys_of_get? hget)
    have hcounter : ∀ other, m.nameToId.get? other ≠ some m.counter := fun other hget =>
      Nat.lt_irrefl _ ((h.ids m.counter).mp ⟨other, hget⟩)
    constructor
    · intro other id
      rw [Dict.get?_set, Dict.get?_set]
      by_cases hother : other = name
      · subst hother
        by_cases hid : id = m.counter
        · subst hid
          simp
        · rw [if_pos rfl, if_neg hid, ← h.inverse]
          exact iff_of_false (fun heq => hid (Option.some.inj heq).symm) (hname id)
      · by_cases hid : id = m.counter
        · subst hid
          rw [if_neg hother, if_pos rfl]
          exact iff_of_false (hcounter other) fun heq => hother (Option.some.inj heq).symm
        · rw [if_neg hother, if_neg hid]
          exact h.inverse other id
    · intro id
      rw [Nat.lt_succ_iff_lt_or_eq, ← h.ids id]
      constructor
      · rintro ⟨other, hget⟩
        rw [Dict.get?_set] at hget
        split at hget
        · exact Or.inr (Option.some.inj hget).symm
        · exact Or.inl ⟨other, hget⟩
      · rintro (⟨other, hget⟩ | rfl)
        · have hne : other ≠ name := by
            rintro rfl
            exact hname id hget
          refine ⟨other, ?_⟩
          rw [Dict.get?_set_of_ne _ _ hne]
          exact hget
        · exact ⟨name, Dict.get?_set_self _ _ _⟩

theorem keeps_assign : m.Keeps (m.assign name) := by
  intro other id hget
  unfold IdMap.assign
  split
  · exact hget
  · rename_i hnew
    have hne : other ≠ name := by
      rintro rfl
      exact hnew (Dict.mem_keys_of_get? hget)
    rw [Dict.get?_set_of_ne _ _ hne]
    exact hget

theorem mem_assign : name ∈ (m.assign name).nameToId.keys := by
  unfold IdMap.assign
  split
  · rename_i hmem
    exact hmem
  · exact Dict.mem_keys_set.mpr (Or.inl rfl)

theorem Consecutive.foldl_assign : ∀ {m : IdMap}, m.Consecutive →
    (names.foldl IdMap.assign m).Consecutive := by
  induction names with
  | nil => exact fun h => h
  | cons name rest ih => exact fun h => ih (h.assign name)

theorem keeps_foldl_assign : ∀ m : IdMap,
    m.Keeps (names.foldl IdMap.assign m) := by
  induction names with
  | nil => exact Keeps.refl
  | cons name rest ih => exact fun m => (m.keeps_assign name).trans (ih _)

/-- Every name that was gathered has an id. -/
theorem mem_foldl_assign : ∀ m : IdMap, ∀ name ∈ names,
    name ∈ (names.foldl IdMap.assign m).nameToId.keys := by
  induction names with
  | nil => exact fun _ _ hname => absurd hname not_mem_nil
  | cons first rest ih =>
    intro m name hname
    rcases mem_cons.mp hname with rfl | hrest
    · exact (keeps_foldl_assign rest _).mem (m.mem_assign name)
    · exact ih (m.assign first) name hrest

end IdMap

/-! ## One round -/

namespace NameMapper

/-- The maps of one rank. -/
structure Consecutive (m : NameMapper) : Prop where
  kernels : m.kernels.Consecutive
  sections : m.sections.Consecutive

/-- Every id is kept. -/
structure Keeps (m m' : NameMapper) : Prop where
  kernels : m.kernels.Keeps m'.kernels
  sections : m.sections.Keeps m'.sections

/-- All names that were recorded have ids. -/
structure Covers (m : NameMapper) (names : LocalNames) : Prop where
  kernels : ∀ name ∈ names.kernelNames, name ∈ m.kernels.nameToId.keys
  sections : ∀ name ∈ names.sectionNames, name ∈ m.sections.nameToId.keys

variable {m m' : NameMapper} {names : LocalNames}

theorem Keeps.refl (m : NameMapper) : m.Keeps m :=
  ⟨.refl _, .refl _⟩

theorem Keeps.trans {m'' : NameMapper} (h : m.Keeps m') (h' : m'.Keeps m'') : m.Keeps m'' :=
  ⟨h.kernels.trans h'.kernels, h.sections.trans h'.sections⟩

theorem Covers.mono (h : m.Covers names) (hkeeps : m.Keeps m') : m'.Covers names where
  kernels name hname := hkeeps.kernels.mem (h.kernels name hname)
  sections name hname := hkeeps.sections.mem (h.sections name hname)

theorem consecutive_empty : empty.Consecutive :=
  ⟨IdMap.consecutive_empty, IdMap.consecutive_empty⟩

theorem hasAllNames_iff : m.hasAllNames names = true ↔ m.Covers names := by
  have hkernels : (names.kernelNames.any fun name => name ∉ m.kernels.nameToId.keys) = true ↔
      ¬ ∀ name ∈ names.kernelNames, name ∈ m.kernels.nameToId.keys := by
    simp
  have hsections : (names.sectionNames.any fun name => name ∉ m.sections.nameToId.keys) = true ↔
      ¬ ∀ name ∈ names.sectionNames, name ∈ m.sections.nameToId.keys := by
    simp
  unfold hasAllNames
  split
  · rename_i hnot
    exact iff_of_false nofun fun h => hkernels.mp hnot h.kernels
  · rename_i hall
    split
    · rename_i hnot
      exact iff_of_false nofun fun h => hsections.mp hnot h.sections
    · rename_i hall'
      exact iff_of_true rfl ⟨not_not.mp (mt hkernels.mpr hall), not_not.mp (mt hsections.mpr hall')⟩

theorem Consecutive.assignIds (h : m.Consecutive) (gatheredNames : List GatheredObject) :
    (m.assignIds gatheredNames).Consecutive :=
  ⟨h.kernels.foldl_assign _, h.sections.foldl_assign _⟩

theorem keeps_assignIds (m : NameMapper) (gatheredNames : List GatheredObject) :
    m.Keeps (m.assignIds gatheredNames) :=
  ⟨IdMap.keeps_foldl_assign _ _, IdMap.keeps_foldl_assign _ _⟩

/-- The object that a rank gathers. -/
def gatheredObject (names : LocalNames) : GatheredObject :=
  .names names.sectionNames names.kernelNames

theorem covers_assignIds (m : NameMapper) {gatheredNames : List GatheredObject}
    (h : gatheredObject names ∈ gatheredNames) :
    (m.assignIds gatheredNames).Covers names where
  kernels name hname :=
    IdMap.mem_foldl_assign _ _ name (mem_flatMap.mpr ⟨_, h, hname⟩)
  sections name hname :=
    IdMap.mem_foldl_assign _ _ name (mem_flatMap.mpr ⟨_, h, hname⟩)

variable {n : Nat}

/-- In a round, ranks with the same maps go through the same operations to the same maps, in
which all their names have ids. -/
theorem gatherAndAssignIds_lockstep (m : NameMapper) (names : Fin n → LocalNames) :
    ∃ trace m', Lockstep (processGroup n) (fun r => m.gatherAndAssignIds n (names r)) trace
      (fun _ => m') ∧ (m.Consecutive → m'.Consecutive) ∧ m.Keeps m' ∧
        ∀ r, m'.Covers (names r) := by
  obtain ⟨trace, hall⟩ := isAllTrue_lockstep fun r => m.hasAllNames (names r)
  by_cases hhave : ∀ r, m.hasAllNames (names r) = true
  · refine ⟨trace ++ [], m, hall.bind ?_, id, .refl m, fun r => hasAllNames_iff.mp (hhave r)⟩
    refine .done fun r => ?_
    rw [decide_eq_true hhave]
    rfl
  · obtain ⟨trace', hgather⟩ := allGatherObject_lockstep fun r => gatheredObject (names r)
    refine ⟨trace ++ (trace' ++ []), m.assignIds (ofFn fun r => gatheredObject (names r)),
      hall.bind ?_, fun h => h.assignIds _, m.keeps_assignIds _, fun r => m.covers_assignIds ?_⟩
    · rw [decide_eq_false hhave]
      exact hgather.bind (.done fun _ => rfl)
    · exact mem_ofFn.mpr ⟨r, rfl⟩

/-! ## Rounds -/

/-- Rounds of `gather_and_assign_ids` on all ranks, each with the operations of all ranks. -/
inductive Rounds : (Fin n → NameMapper) → List (Fin n → LocalNames) → List (List Signature) →
    (Fin n → NameMapper) → Prop
  | nil (mappers : Fin n → NameMapper) : Rounds mappers [] [] mappers
  | cons {mappers next last : Fin n → NameMapper} {names : Fin n → LocalNames}
      {rounds : List (Fin n → LocalNames)} {trace : List Signature}
      {traces : List (List Signature)}
      (hround : Lockstep (processGroup n)
        (fun r => (mappers r).gatherAndAssignIds n (names r)) trace next)
      (rest : Rounds next rounds traces last) : Rounds mappers (names :: rounds)
        (trace :: traces) last

/-- What all ranks have after rounds from `first`. -/
structure Agreed (first : Fin n → NameMapper) (rounds : List (Fin n → LocalNames))
    (last : Fin n → NameMapper) : Prop where
  same : ∀ r s, last r = last s
  consecutive : ∀ r, (last r).Consecutive
  keeps : ∀ r, (first r).Keeps (last r)
  covers : ∀ names ∈ rounds, ∀ r, (last r).Covers (names r)

/-- Ranks with the same maps get through every round. -/
theorem exists_rounds (rounds : List (Fin n → LocalNames)) : ∀ m : NameMapper,
    ∃ traces last, Rounds (fun _ => m) rounds traces last := by
  induction rounds with
  | nil => exact fun m => ⟨[], _, .nil _⟩
  | cons names rest ih =>
    intro m
    obtain ⟨trace, m', hround, -⟩ := gatherAndAssignIds_lockstep m names
    obtain ⟨traces, last, hrest⟩ := ih m'
    exact ⟨_, last, .cons hround hrest⟩

theorem Rounds.agreed {first last : Fin n → NameMapper} {rounds : List (Fin n → LocalNames)}
    {traces : List (List Signature)} (h : Rounds first rounds traces last)
    (hsame : ∀ r s, first r = first s) (hconsecutive : ∀ r, (first r).Consecutive) :
    Agreed first rounds last := by
  induction h with
  | nil mappers => exact ⟨hsame, hconsecutive, fun r => .refl _, fun _ h => absurd h not_mem_nil⟩
  | @cons mappers next last names rounds trace traces hround _ ih =>
    have hstep : ∀ r, (∀ s, next r = next s) ∧ (next r).Consecutive ∧
        (mappers r).Keeps (next r) ∧ ∀ s, (next r).Covers (names s) := by
      intro r
      obtain ⟨trace', m', hlockstep, hconsecutive', hkeeps, hcovers⟩ :=
        gatherAndAssignIds_lockstep (mappers r) names
      have hprograms : (fun s => (mappers s).gatherAndAssignIds n (names s)) =
          fun s => (mappers r).gatherAndAssignIds n (names s) :=
        funext fun s => by rw [hsame s r]
      rw [hprograms] at hround
      have hnext := (hlockstep.unique r hround).2
      rw [hnext]
      exact ⟨fun _ => rfl, hconsecutive' (hconsecutive r), hkeeps, hcovers⟩
    have hrest := ih (fun r s => (hstep r).1 s) fun r => (hstep r).2.1
    refine ⟨hrest.same, hrest.consecutive, fun r => (hstep r).2.2.1.trans (hrest.keeps r), ?_⟩
    intro names' hnames r
    rcases mem_cons.mp hnames with rfl | hlater
    · exact ((hstep r).2.2.2 r).mono (hrest.keeps r)
    · exact hrest.covers names' hlater r

/-- After any rounds from new mappers all ranks have the same consecutive ids.  They get through
any further rounds with the same operations, and keep the ids they have. -/
theorem rounds_agree {earlier : List (Fin n → LocalNames)} {traces : List (List Signature)}
    {mappers : Fin n → NameMapper} (h : Rounds (fun _ => .empty) earlier traces mappers)
    (later : List (Fin n → LocalNames)) :
    Agreed (fun _ => .empty) earlier mappers ∧
      (∃ traces' last, Rounds mappers later traces' last) ∧
        ∀ traces' last, Rounds mappers later traces' last → Agreed mappers later last := by
  have hagreed := h.agreed (fun _ _ => rfl) fun _ => consecutive_empty
  refine ⟨hagreed, ?_, fun traces' last h' => h'.agreed hagreed.same hagreed.consecutive⟩
  rcases Nat.eq_zero_or_pos n with rfl | hpos
  · obtain ⟨traces', last, hrounds⟩ := exists_rounds later .empty
    have hsame : mappers = fun _ => .empty := funext fun r => absurd r.isLt (Nat.not_lt_zero _)
    exact ⟨traces', last, hsame ▸ hrounds⟩
  · obtain ⟨traces', last, hrounds⟩ := exists_rounds later (mappers ⟨0, hpos⟩)
    have hsame : mappers = fun _ => mappers ⟨0, hpos⟩ := funext fun r => hagreed.same r _
    exact ⟨traces', last, hsame ▸ hrounds⟩

/-- Two ranks, of which the second has recorded one more section. -/
def twoRanks (r : Fin 2) : LocalNames where
  kernelNames := ["gemm"]
  sectionNames := if r = 0 then ["forward"] else ["backward", "forward"]

theorem rounds_agree_twoRanks :
    ∃ traces mappers, Rounds (fun _ => .empty) [twoRanks] traces mappers ∧
      Agreed (fun _ => .empty) [twoRanks] mappers ∧
        ∃ traces' last, Rounds mappers [twoRanks, twoRanks] traces' last := by
  obtain ⟨traces, mappers, hrounds⟩ := exists_rounds [twoRanks] .empty
  have hagree := rounds_agree hrounds [twoRanks, twoRanks]
  exact ⟨traces, mappers, hrounds, hagree.1, hagree.2.1⟩

end NameMapper

end ResiliencyExt.Attribution.Straggler
