import Mathlib.Data.List.MinMax
import Mathlib.Data.List.Perm.Basic
import Mathlib.Order.Nat
import ResiliencyExt.FaultTolerance.CycleInfo.NodeList
set_option autoImplicit false

/-!
# Cycle info: what a node list stands for

When every name has a number, the list stands for the prefixes in order, each with its
numbers in order, as wide as the widest.  These are the names of the nodes exactly when
the numbers of a prefix are all spelled as wide as each other.  When some name has no
number, the list is the names themselves.
-/

namespace ResiliencyExt.FaultTolerance.CycleInfo

open Foundation Hostlist Unicode List
open Option (some)

/-- A name and what it is taken apart into. -/
abbrev Parsed := List Char × Nat × List Char

/-! ## The numbers of a prefix -/

theorem mem_keys_foldl_set (items : List Parsed) : ∀ {d : Dict Nat (List Char)} {n : Nat},
    n ∈ (items.foldl (fun nums p => nums.set p.2.1 p.2.2) d).keys ↔
      n ∈ d.keys ∨ ∃ p ∈ items, p.2.1 = n := by
  induction items with
  | nil => simp
  | cons p items ih =>
    intro d n
    rw [foldl_cons, ih, Dict.mem_keys_set, exists_mem_cons_iff, or_assoc,
      or_left_comm, eq_comm]

theorem mem_of_get?_foldl_set (items : List Parsed) :
    ∀ {d : Dict Nat (List Char)} {n : Nat} {digits : List Char},
      (items.foldl (fun nums p => nums.set p.2.1 p.2.2) d).get? n = some digits →
        d.get? n = some digits ∨ ∃ p ∈ items, p.2 = (n, digits) := by
  induction items with
  | nil => exact fun h => .inl h
  | cons p items ih =>
    intro d n digits h
    rw [foldl_cons] at h
    rcases ih h with h | ⟨q, hq, hdigits⟩
    · rw [Dict.get?_set] at h
      split_ifs at h with hn
      · refine .inr ⟨p, mem_cons_self, Prod.ext hn.symm ?_⟩
        exact some.inj h
      · exact .inl h
    · exact .inr ⟨q, mem_cons_of_mem p hq, hdigits⟩

/-- The numbers of one prefix, with the spellings that are kept. -/
def numbered (parsed : List Parsed) (before : List Char) : Dict Nat (List Char) :=
  (parsed.filter fun p => p.1 = before).foldl (fun nums p => nums.set p.2.1 p.2.2) Dict.empty

/-- The numbers of one prefix, in order. -/
def sortedNumbers (parsed : List Parsed) (before : List Char) : List Nat :=
  (numbered parsed before).keys.insertionSort (· ≤ ·)

/-- The width of the numbers of one prefix. -/
def prefixWidth (parsed : List Parsed) (before : List Char) : Nat :=
  padWidth (numbered parsed before) (sortedNumbers parsed before)

/-- The prefixes, in order. -/
def sortedPrefixes (parsed : List Parsed) : List (List Char) :=
  (byPrefix parsed).keys.insertionSort (· ≤ ·)

/-- The names of one prefix, as the list spells them. -/
def prefixNames (parsed : List Parsed) (before : List Char) : List (List Char) :=
  (sortedNumbers parsed before).map fun n => before ++ zfill (prefixWidth parsed before) n

variable {parsed : List Parsed} {before : List Char}

theorem byPrefix_groups (parsed : List Parsed) :
    Dict.Groups Prod.fst Dict.empty (fun nums p => nums.set p.2.1 p.2.2) parsed
      (byPrefix parsed) :=
  Dict.groups_of_foldl_alter parsed

theorem mem_sortedPrefixes :
    before ∈ sortedPrefixes parsed ↔ ∃ n digits, (before, n, digits) ∈ parsed := by
  rw [sortedPrefixes, (perm_insertionSort _ _).mem_iff,
    (byPrefix_groups parsed).keys_perm_dedup.mem_iff, mem_dedup]
  simp

theorem mem_sortedNumbers {n : Nat} :
    n ∈ sortedNumbers parsed before ↔ ∃ digits, (before, n, digits) ∈ parsed := by
  rw [sortedNumbers, (perm_insertionSort _ _).mem_iff, numbered, mem_keys_foldl_set]
  simp [Dict.empty, Dict.keys]

theorem mem_of_get?_numbered {n : Nat} {digits : List Char}
    (h : (numbered parsed before).get? n = some digits) : (before, n, digits) ∈ parsed := by
  rcases mem_of_get?_foldl_set _ h with h | ⟨p, hp, hdigits⟩
  · exact absurd h (by simp [Dict.empty, Dict.get?])
  · obtain ⟨hp, hbefore⟩ := mem_filter.mp hp
    have heq : p = (before, n, digits) := Prod.ext (of_decide_eq_true hbefore) hdigits
    exact heq ▸ hp

/-- Every number has a spelling that is kept, and it is no wider than the prefix asks for. -/
theorem exists_spelling {n : Nat} (h : n ∈ sortedNumbers parsed before) :
    ∃ digits, (before, n, digits) ∈ parsed ∧
      (((numbered parsed before).get? n).getD []).length = digits.length ∧
      digits.length ≤ prefixWidth parsed before := by
  have hkey : n ∈ (numbered parsed before).keys := (perm_insertionSort _ _).mem_iff.mp h
  obtain ⟨digits, hdigits⟩ := Dict.exists_get?_of_mem hkey
  have hlength : (((numbered parsed before).get? n).getD []).length = digits.length := by
    rw [hdigits, Option.getD_some]
  refine ⟨digits, mem_of_get?_numbered hdigits, hlength, ?_⟩
  have hmem : digits.length ∈ (sortedNumbers parsed before).map fun n =>
      (((numbered parsed before).get? n).getD []).length :=
    mem_map.mpr ⟨n, h, hlength⟩
  exact le_max_of_le hmem (le_refl _)

/-- The width of a prefix is that of a spelling of it. -/
theorem exists_widest (h : before ∈ sortedPrefixes parsed) :
    ∃ n digits, (before, n, digits) ∈ parsed ∧ prefixWidth parsed before = digits.length := by
  obtain ⟨n, digits, hparsed⟩ := mem_sortedPrefixes.mp h
  have hne : ((sortedNumbers parsed before).map fun n =>
      (((numbered parsed before).get? n).getD []).length) ≠ [] := by
    have hn : n ∈ sortedNumbers parsed before := mem_sortedNumbers.mpr ⟨digits, hparsed⟩
    simpa using ne_nil_of_mem hn
  have hmem := maximum_mem (foldr_max_of_ne_nil hne).symm
  obtain ⟨m, hm, hwidth⟩ := mem_map.mp hmem
  obtain ⟨spelling, hspelling, hlength, _⟩ := exists_spelling hm
  exact ⟨m, spelling, hspelling, hwidth.symm.trans hlength⟩

/-! ## The names of the list -/

/-- A host name: nothing in it has a meaning in a host list, and it is not longer than the
digits that `int` reads. -/
structure HostName (text : List Char) : Prop where
  ne_nil : text ≠ []
  plain : Plain text
  short : text.length ≤ 4300

/-- The short names of the addresses are host names. -/
def NodeAddresses (addrs : List (List Char)) : Prop :=
  ∀ name ∈ shortNames addrs, HostName name

/-- A stripped text does not end a line. -/
theorem unended_shortName (addr : List Char) : Unended (shortName addr) := by
  intro hlast
  obtain ⟨init, hinit⟩ := getLast?_eq_some_iff.mp hlast
  have hne : shortName addr ≠ [] := by
    rw [hinit]
    exact concat_ne_nil _ _
  refine rdropWhile_last_not isSpace _ hne ?_
  have hget : (shortName addr).getLast hne = '\n' :=
    some.inj ((getLast?_eq_some_getLast hne).symm.trans hlast)
  exact (congrArg isSpace hget).trans rfl

theorem unended_of_mem_shortNames {addrs : List (List Char)} {name : List Char}
    (h : name ∈ shortNames addrs) : Unended name := by
  obtain ⟨addr, _, rfl⟩ := mem_map.mp h
  exact unended_shortName addr

theorem mem_of_mapM {names : List (List Char)} : ∀ {parsed : List Parsed},
    names.mapM parseHostnamePrefixSuffix = some parsed → ∀ p,
      p ∈ parsed ↔ ∃ name ∈ names, parseHostnamePrefixSuffix name = some p := by
  induction names with
  | nil =>
    intro parsed h p
    simp only [mapM_nil, pure, some.injEq] at h
    simp [← h]
  | cons name names ih =>
    intro parsed h p
    simp only [mapM_cons, bind, Option.bind_eq_some_iff, pure, some.injEq] at h
    obtain ⟨q, hq, rest, hrest, rfl⟩ := h
    rw [mem_cons, exists_mem_cons_iff, ih hrest, hq, some.injEq, eq_comm]

theorem mapM_eq_none_iff {names : List (List Char)} :
    names.mapM parseHostnamePrefixSuffix = none ↔
      ∃ name ∈ names, parseHostnamePrefixSuffix name = none := by
  induction names with
  | nil => simp [pure]
  | cons name names ih =>
    rw [exists_mem_cons_iff, ← ih, mapM_cons]
    cases parseHostnamePrefixSuffix name with
    | none => simp
    | some p => cases names.mapM parseHostnamePrefixSuffix <;> simp [pure]

/-- What is known of a prefix of the names that were taken apart. -/
structure ParsedFrom (names : List (List Char)) (parsed : List Parsed) : Prop where
  unended : ∀ name ∈ names, Unended name
  mem_iff : ∀ p, p ∈ parsed ↔ ∃ name ∈ names, parseHostnamePrefixSuffix name = some p

variable {names : List (List Char)}

variable {n : Nat} {digits : List Char}

theorem ParsedFrom.of_mapM (hunended : ∀ name ∈ names, Unended name)
    (h : names.mapM parseHostnamePrefixSuffix = some parsed) : ParsedFrom names parsed :=
  ⟨hunended, mem_of_mapM h⟩

theorem ParsedFrom.spelled (h : ParsedFrom names parsed) (hmem : (before, n, digits) ∈ parsed) :
    before ++ digits ∈ names ∧ n = intValue digits ∧ digits ≠ [] ∧
      (∀ c ∈ digits, isDecimal c = true) ∧ '\n' ∉ before ∧ Undigited before := by
  obtain ⟨name, hname, hparse⟩ := (h.mem_iff _).mp hmem
  obtain ⟨rfl, hrest⟩ := parse_eq_some (h.unended name hname) hparse
  exact ⟨hname, hrest⟩

theorem ParsedFrom.prefix_facts (h : ParsedFrom names parsed)
    (hmem : before ∈ sortedPrefixes parsed) : '\n' ∉ before ∧ Undigited before := by
  obtain ⟨n, digits, hparsed⟩ := mem_sortedPrefixes.mp hmem
  exact (h.spelled hparsed).2.2.2.2

theorem pairwise_lt_insertionSort {α : Type} [LinearOrder α] {items : List α}
    (h : items.Nodup) : (items.insertionSort (· ≤ ·)).Pairwise (· < ·) := by
  have hnodup : (items.insertionSort (· ≤ ·)).Nodup :=
    (perm_insertionSort _ _).nodup_iff.mpr h
  exact ((pairwise_insertionSort (· ≤ ·) items).and hnodup).imp
    fun hle => lt_of_le_of_ne hle.1 hle.2

/-- The names of the list are in the order of their keys. -/
theorem ParsedFrom.pairwise_names (h : ParsedFrom names parsed) :
    ((sortedPrefixes parsed).flatMap (prefixNames parsed)).Pairwise
      fun a b => nameKey a < nameKey b := by
  refine pairwise_flatMap.mpr ⟨fun before hmem => ?_, ?_⟩
  · obtain ⟨hline, hdigits⟩ := h.prefix_facts hmem
    refine pairwise_map.mpr ?_
    refine (pairwise_lt_insertionSort (Dict.nodup_keys _)).imp fun hlt => ?_
    rw [nameKey_append_zfill hdigits hline, nameKey_append_zfill hdigits hline]
    simpa [Prod.Lex.toLex_lt_toLex] using hlt
  · refine (pairwise_lt_insertionSort (Dict.nodup_keys _)).imp_of_mem
      fun ha hb hlt x hx y hy => ?_
    obtain ⟨hline, hdigits⟩ := h.prefix_facts ha
    obtain ⟨hline', hdigits'⟩ := h.prefix_facts hb
    obtain ⟨m, _, rfl⟩ := mem_map.mp hx
    obtain ⟨n, _, rfl⟩ := mem_map.mp hy
    rw [nameKey_append_zfill hdigits hline, nameKey_append_zfill hdigits' hline']
    simp [Prod.Lex.toLex_lt_toLex, hlt]

/-! ## Expanding the list -/

theorem get?_byPrefix (h : before ∈ sortedPrefixes parsed) :
    (byPrefix parsed).get? before = some (numbered parsed before) := by
  have hkey : before ∈ (byPrefix parsed).keys := (perm_insertionSort _ _).mem_iff.mp h
  obtain ⟨e, he, rfl⟩ := mem_map.mp hkey
  rw [Dict.get?_eq_some_of_mem he, ((byPrefix_groups parsed).value e he).2]
  rfl

/-- Where every name has a number, the list stands for the names of the prefixes. -/
theorem expand_of_parsed {addrs : List (List Char)} (haddrs : NodeAddresses addrs)
    (h : (shortNames addrs).mapM parseHostnamePrefixSuffix = some parsed) :
    expand (hostnamesToSlurmNodelist addrs) =
      (sortedPrefixes parsed).flatMap (prefixNames parsed) := by
  rcases eq_or_ne (shortNames addrs) [] with hnone | hsome
  · rw [hnone] at h
    obtain rfl : [] = parsed := some.inj h
    rw [hostnamesToSlurmNodelist, if_pos hnone]
    rfl
  · have hfrom : ParsedFrom (shortNames addrs) parsed :=
      .of_mapM (fun _ => unended_of_mem_shortNames) h
    have hplain : ∀ before ∈ sortedPrefixes parsed, Plain before := by
      intro before hmem c hc
      obtain ⟨n, digits, hparsed⟩ := mem_sortedPrefixes.mp hmem
      exact (haddrs _ (hfrom.spelled hparsed).1).plain c (mem_append_left _ hc)
    have hwords : ((sortedPrefixes parsed).map fun before =>
          prefixItem before (((byPrefix parsed).get? before).getD Dict.empty)) =
        (sortedPrefixes parsed).map fun before => prefixItem before (numbered parsed before) :=
      map_congr_left fun before hmem => by rw [get?_byPrefix hmem, Option.getD_some]
    have hlist : hostnamesToSlurmNodelist addrs =
        commaJoin ((sortedPrefixes parsed).map fun before =>
          prefixItem before (numbered parsed before)) := by
      rw [hostnamesToSlurmNodelist, if_neg hsome, h, ← hwords]
      rfl
    rw [hlist, expand_commaJoin, flatMap_map]
    · refine flatMap_congr fun before hmem => ?_
      obtain ⟨n, digits, hparsed⟩ := mem_sortedPrefixes.mp hmem
      exact expandItem_ranges (hplain before hmem) _
        (ne_nil_of_mem (mem_sortedNumbers.mpr ⟨digits, hparsed⟩))
    · intro item hitem
      obtain ⟨before, hmem, rfl⟩ := mem_map.mp hitem
      exact isItem_bracketItem (hplain before hmem) (bracketed_ranges _ _)
    · intro item hitem
      obtain ⟨before, hmem, rfl⟩ := mem_map.mp hitem
      exact append_ne_nil_of_right_ne_nil _ (cons_ne_nil _ _)

/-- Where some name has no number, the list stands for the names in order. -/
theorem expand_of_unparsed {addrs : List (List Char)} (haddrs : NodeAddresses addrs)
    (h : ∃ name ∈ shortNames addrs, parseHostnamePrefixSuffix name = none) :
    expand (hostnamesToSlurmNodelist addrs) =
      (shortNames addrs).dedup.insertionSort (· ≤ ·) := by
  have hsome : shortNames addrs ≠ [] := by
    obtain ⟨name, hname, _⟩ := h
    exact ne_nil_of_mem hname
  have hmem : ∀ name ∈ (shortNames addrs).dedup.insertionSort (· ≤ ·), HostName name := by
    intro name hname
    exact haddrs name (mem_dedup.mp ((perm_insertionSort _ _).mem_iff.mp hname))
  have hexpand : ∀ name ∈ (shortNames addrs).dedup.insertionSort (· ≤ ·),
      expandItem name = [name] :=
    fun name hname => expandItem_plain (hmem name hname).plain
  rw [hostnamesToSlurmNodelist, if_neg hsome, mapM_eq_none_iff.mpr h,
    expand_commaJoin (fun name hname => isItem_of_plain (hmem name hname).plain)
      (fun name hname => (hmem name hname).ne_nil),
    flatMap_congr hexpand]
  simp

/-! ## When the list is exact -/

/-- Names with the same prefix have numbers as wide as each other, in ASCII digits. -/
def NumberedAlike (names : List (List Char)) : Prop :=
  ∀ a ∈ names, ∀ b ∈ names, ∀ before m n s t,
    parseHostnamePrefixSuffix a = some (before, m, s) →
    parseHostnamePrefixSuffix b = some (before, n, t) →
    s.length = t.length ∧ ∀ c ∈ s, c.isDigit = true

theorem mem_nodeNames {name : List Char} :
    name ∈ (sortedPrefixes parsed).flatMap (prefixNames parsed) ↔
      ∃ before n digits, (before, n, digits) ∈ parsed ∧
        name = before ++ zfill (prefixWidth parsed before) n := by
  simp only [mem_flatMap, prefixNames, mem_map, mem_sortedPrefixes, mem_sortedNumbers]
  constructor
  · rintro ⟨before, _, n, ⟨digits, hparsed⟩, rfl⟩
    exact ⟨before, n, digits, hparsed, rfl⟩
  · rintro ⟨before, n, digits, hparsed, rfl⟩
    exact ⟨before, ⟨n, digits, hparsed⟩, n, ⟨digits, hparsed⟩, rfl⟩

/-- Among names numbered alike, a number is written as it was spelled. -/
theorem ParsedFrom.zfill_eq (h : ParsedFrom names parsed) (halike : NumberedAlike names)
    (hmem : (before, n, digits) ∈ parsed) : zfill (prefixWidth parsed before) n = digits := by
  obtain ⟨m, widest, hwidest, hwidth⟩ :=
    exists_widest (mem_sortedPrefixes.mpr ⟨n, digits, hmem⟩)
  obtain ⟨a, ha, hparsea⟩ := (h.mem_iff _).mp hmem
  obtain ⟨b, hb, hparseb⟩ := (h.mem_iff _).mp hwidest
  obtain ⟨hlength, hascii⟩ := halike a ha b hb before n m digits widest hparsea hparseb
  obtain ⟨_, hvalue, hne, _⟩ := h.spelled hmem
  rw [hwidth, ← hlength, hvalue]
  exact zfill_intValue hascii hne

theorem ParsedFrom.mem_names_of_alike (h : ParsedFrom names parsed)
    (hall : ∀ name ∈ names, parseHostnamePrefixSuffix name ≠ none)
    (halike : NumberedAlike names) {name : List Char} :
    name ∈ (sortedPrefixes parsed).flatMap (prefixNames parsed) ↔ name ∈ names := by
  rw [mem_nodeNames]
  constructor
  · rintro ⟨before, n, digits, hparsed, rfl⟩
    rw [h.zfill_eq halike hparsed]
    exact (h.spelled hparsed).1
  · intro hname
    obtain ⟨⟨before, n, digits⟩, hparse⟩ := Option.ne_none_iff_exists'.mp (hall name hname)
    have hparsed : (before, n, digits) ∈ parsed := (h.mem_iff _).mpr ⟨name, hname, hparse⟩
    refine ⟨before, n, digits, hparsed, ?_⟩
    rw [h.zfill_eq halike hparsed]
    exact (parse_eq_some (h.unended name hname) hparse).1

/-- A name that the list spells has its number as wide as its prefix asks for. -/
theorem ParsedFrom.spelling_of_mem (h : ParsedFrom names parsed)
    (hmem : (before, n, digits) ∈ parsed)
    (hlisted : before ++ digits ∈ (sortedPrefixes parsed).flatMap (prefixNames parsed)) :
    digits.length = prefixWidth parsed before ∧ ∀ c ∈ digits, c.isDigit = true := by
  obtain ⟨other, m, spelling, hother, heq⟩ := mem_nodeNames.mp hlisted
  obtain ⟨name, hname, hparse⟩ := (h.mem_iff _).mp hmem
  obtain ⟨hspelled, _⟩ := parse_eq_some (h.unended name hname) hparse
  obtain ⟨hline, hdigits⟩ := h.prefix_facts (mem_sortedPrefixes.mpr ⟨m, spelling, hother⟩)
  rw [hspelled, heq, parse_append_zfill hdigits hline, some.injEq, Prod.mk.injEq,
    Prod.mk.injEq] at hparse
  obtain ⟨rfl, rfl, rfl⟩ := hparse
  obtain ⟨kept, hkept, _, hwidth⟩ := exists_spelling (mem_sortedNumbers.mpr ⟨spelling, hother⟩)
  obtain ⟨_, hvalue, hne, _⟩ := h.spelled hkept
  have hdecimal : (Text.decimal m).length ≤ kept.length := by
    rw [hvalue]
    exact length_decimal_intValue hne
  refine ⟨?_, fun c hc => isDigit_of_mem_zfill hc⟩
  rw [length_zfill]
  omega

theorem ParsedFrom.nodup_names (h : ParsedFrom names parsed) :
    ((sortedPrefixes parsed).flatMap (prefixNames parsed)).Nodup :=
  h.pairwise_names.imp fun hlt heq => absurd hlt (by rw [heq]; exact lt_irrefl _)

variable {addrs : List (List Char)}

theorem parsedFrom_shortNames
    (h : (shortNames addrs).mapM parseHostnamePrefixSuffix = some parsed) :
    ParsedFrom (shortNames addrs) parsed :=
  .of_mapM (fun _ => unended_of_mem_shortNames) h

theorem parse_ne_none (h : (shortNames addrs).mapM parseHostnamePrefixSuffix = some parsed) :
    ∀ name ∈ shortNames addrs, parseHostnamePrefixSuffix name ≠ none := by
  intro name hname hnone
  have hfailed := mapM_eq_none_iff.mpr ⟨name, hname, hnone⟩
  exact Option.some_ne_none _ (h.symm.trans hfailed)

/-- Where some name has no number, the names are listed as they are. -/
theorem expand_perm_of_unparsed (haddrs : NodeAddresses addrs)
    (h : ∃ name ∈ shortNames addrs, parseHostnamePrefixSuffix name = none) :
    (expand (hostnamesToSlurmNodelist addrs)).Perm (shortNames addrs).dedup := by
  rw [expand_of_unparsed haddrs h]
  exact perm_insertionSort _ _

/-- Where the names are numbered alike, each is listed as it was spelled. -/
theorem expand_perm_of_alike (haddrs : NodeAddresses addrs)
    (halike : NumberedAlike (shortNames addrs)) :
    (expand (hostnamesToSlurmNodelist addrs)).Perm (shortNames addrs).dedup := by
  cases hparsed : (shortNames addrs).mapM parseHostnamePrefixSuffix with
  | none => exact expand_perm_of_unparsed haddrs (mapM_eq_none_iff.mp hparsed)
  | some parsed =>
    have hfrom := parsedFrom_shortNames hparsed
    rw [expand_of_parsed haddrs hparsed,
      perm_ext_iff_of_nodup hfrom.nodup_names (nodup_dedup _)]
    intro name
    rw [mem_dedup]
    exact hfrom.mem_names_of_alike (parse_ne_none hparsed) halike

/-- Names that are listed as they were spelled are numbered alike. -/
theorem alike_of_expand_perm (haddrs : NodeAddresses addrs)
    (hparsed : (shortNames addrs).mapM parseHostnamePrefixSuffix = some parsed)
    (h : (expand (hostnamesToSlurmNodelist addrs)).Perm (shortNames addrs).dedup) :
    NumberedAlike (shortNames addrs) := by
  have hfrom := parsedFrom_shortNames hparsed
  have hspelled : ∀ {name before : List Char} {n : Nat} {digits : List Char},
      name ∈ shortNames addrs → parseHostnamePrefixSuffix name = some (before, n, digits) →
        digits.length = prefixWidth parsed before ∧ ∀ c ∈ digits, c.isDigit = true := by
    intro name before n digits hname hparse
    refine hfrom.spelling_of_mem ((hfrom.mem_iff _).mpr ⟨name, hname, hparse⟩) ?_
    rw [← (parse_eq_some (hfrom.unended name hname) hparse).1,
      ← expand_of_parsed haddrs hparsed, h.mem_iff, mem_dedup]
    exact hname
  intro a ha b hb before m n s t hparsea hparseb
  obtain ⟨hs, hascii⟩ := hspelled ha hparsea
  obtain ⟨ht, _⟩ := hspelled hb hparseb
  exact ⟨hs.trans ht.symm, hascii⟩

/-- The list stands for the distinct short names, each spelled as it was and each once,
exactly when some name has no number or all are numbered alike. -/
theorem nodelist_exact_iff (addrs : List (List Char)) (haddrs : NodeAddresses addrs) :
    (expand (hostnamesToSlurmNodelist addrs)).Perm (shortNames addrs).dedup ↔
      (∃ name ∈ shortNames addrs, parseHostnamePrefixSuffix name = none) ∨
        NumberedAlike (shortNames addrs) := by
  constructor
  · intro hexact
    cases hparsed : (shortNames addrs).mapM parseHostnamePrefixSuffix with
    | none => exact .inl (mapM_eq_none_iff.mp hparsed)
    | some parsed => exact .inr (alike_of_expand_perm haddrs hparsed hexact)
  · rintro (hnone | halike)
    · exact expand_perm_of_unparsed haddrs hnone
    · exact expand_perm_of_alike haddrs halike

/-- A node given by its host name and one given by a longer name. -/
def twoNodes : List (List Char) :=
  ["node9".toList, "node10.cluster.com".toList]

theorem nodeAddresses_twoNodes : NodeAddresses twoNodes := by
  have hnames : shortNames twoNodes = ["node9".toList, "node10".toList] := by decide +kernel
  intro name hname
  rw [hnames] at hname
  rcases mem_pair.mp hname with rfl | rfl
  · exact ⟨cons_ne_nil _ _, plain_of_all (by decide), by decide⟩
  · exact ⟨cons_ne_nil _ _, plain_of_all (by decide), by decide⟩

theorem nodelist_exact_iff_twoNodes :
    (expand (hostnamesToSlurmNodelist twoNodes)).Perm (shortNames twoNodes).dedup ↔
      (∃ name ∈ shortNames twoNodes, parseHostnamePrefixSuffix name = none) ∨
        NumberedAlike (shortNames twoNodes) :=
  nodelist_exact_iff twoNodes nodeAddresses_twoNodes

/-- `node9` and `node10` become `node[09-10]`, where no node is called `node09`. -/
theorem not_nodelist_exact :
    ¬ ∀ addrs, NodeAddresses addrs →
      ∀ name, name ∈ expand (hostnamesToSlurmNodelist addrs) ↔ name ∈ shortNames addrs := by
  intro hexact
  have hlisted : "node09".toList ∈ expand (hostnamesToSlurmNodelist twoNodes) := by
    decide +kernel
  have hname := (hexact twoNodes nodeAddresses_twoNodes _).mp hlisted
  exact absurd hname (by decide +kernel)

end ResiliencyExt.FaultTolerance.CycleInfo
