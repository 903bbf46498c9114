import ResiliencyExt.Foundation.RegexGroups
import ResiliencyExt.Foundation.RegexWords
import ResiliencyExt.Foundation.Text

set_option autoImplicit false

/-!
# Foundation: runs of characters, and texts of words

`re.sub("[…]+", separator, text)` puts one separator for each run of the characters of a class
(`sub_plus`).  Between the runs are words, so that what it leaves, without the separators at
its ends, is words with one separator between each two (`exists_words_squash`).  A pattern that
stands by itself replaces such words as a whole (`sub_standalone`).
-/

namespace ResiliencyExt.Foundation.Regex

open Text (join)

variable {data : CharData} {ignoreCase : Bool}

/-! ## Runs -/

/-- One separator for each run of dropped characters; `inRun` says that the last character
before the text is dropped. -/
def squash (drops : Char → Bool) (separator : Char) : Bool → List Char → List Char
  | _, [] => []
  | inRun, c :: rest =>
    if drops c then
      if inRun then squash drops separator true rest
      else separator :: squash drops separator true rest
    else c :: squash drops separator false rest

/-- The first end of a greedy repetition is behind the whole run. -/
theorem head?_iterate_step {admits : Char → Bool} {groups : List (String × List Char)}
    {rest : List Char} : ∀ (before : List Char) {fuel : Nat}, rest.length < fuel →
      (iterate (Cursor.step admits) true fuel 0 none ⟨before, rest, groups⟩).head? =
        some ⟨(rest.takeWhile admits).reverse ++ before, rest.dropWhile admits, groups⟩ := by
  induction rest with
  | nil =>
    intro before fuel hfuel
    obtain ⟨fuel, rfl⟩ := Nat.exists_eq_add_of_lt hfuel
    rfl
  | cons c rest ih =>
    intro before fuel hfuel
    cases fuel with
    | zero => exact absurd hfuel (Nat.not_lt_zero _)
    | succ fuel =>
      have hmore := ih (c :: before) (Nat.lt_of_succ_lt_succ hfuel)
      cases hc : admits c with
      | true =>
        simp only [iterate, Cursor.step, hc, if_true, List.flatMap_cons, List.flatMap_nil,
          List.append_nil, Option.map_none, reduceCtorEq, if_false, Nat.lt_irrefl,
          Nat.zero_sub, List.head?_append, hmore, List.takeWhile_cons,
          List.dropWhile_cons, List.reverse_cons, List.append_assoc,
          List.singleton_append]
        rfl
      | false =>
        simp [iterate, Cursor.step, hc]

theorem run_plus_of_not_admits {cls : CharClass} {before rest : List Char} {c : Char}
    (hc : cls.admits ignoreCase c = false) :
    run data ignoreCase (.plus (.one cls)) ⟨before, c :: rest, []⟩ = [] := by
  simp [Pattern.plus, run, iterate, Cursor.step, hc]

theorem head?_run_plus (data : CharData) {cls : CharClass} (before rest : List Char) {c : Char}
    (hc : cls.admits ignoreCase c = true) :
    (run data ignoreCase (.plus (.one cls)) ⟨before, c :: rest, []⟩).head? =
      some ⟨(rest.takeWhile (cls.admits ignoreCase)).reverse ++ c :: before,
        rest.dropWhile (cls.admits ignoreCase), []⟩ := by
  have hstep : (run data ignoreCase (.one cls) : Cursor → List Cursor) =
      Cursor.step (cls.admits ignoreCase) := by
    funext p
    rw [run]
  have hrest : rest.length < rest.length + 2 := by omega
  rw [Pattern.plus, run, hstep]
  simp only [iterate, Cursor.step, hc, if_true, List.flatMap_cons, List.flatMap_nil,
    List.append_nil, Option.map_none, reduceCtorEq, if_false, Nat.lt_one_iff, Nat.sub_self,
    List.length_cons]
  exact head?_iterate_step (c :: before) hrest

/-- What is left of a run is dropped, and behind it the run makes no difference. -/
theorem squash_run (drops : Char → Bool) (separator : Char) (rest : List Char) :
    squash drops separator true rest = squash drops separator false (rest.dropWhile drops) := by
  induction rest with
  | nil => rfl
  | cons c rest ih =>
    cases hc : drops c with
    | true => rw [squash, if_pos hc, if_pos rfl, List.dropWhile_cons_of_pos hc, ih]
    | false =>
      have hnot : ¬ drops c = true := Bool.eq_false_iff.mp hc
      rw [squash, if_neg hnot, List.dropWhile_cons_of_neg hnot, squash, if_neg hnot]

/-- The substitution of the runs of a class. -/
theorem sub_plus (cls : CharClass) (separator : Char) (text : List Char) :
    sub data ignoreCase (.plus (.one cls)) [separator] text =
      squash (cls.admits ignoreCase) separator false text := by
  have hfrom : ∀ n, ∀ rest : List Char, rest.length ≤ n → ∀ before,
      subFrom data ignoreCase (.plus (.one cls)) [separator] 0 before rest =
        squash (cls.admits ignoreCase) separator false rest := by
    intro n
    induction n with
    | zero =>
      intro rest hrest before
      rw [List.eq_nil_of_length_eq_zero (Nat.le_zero.mp hrest)]
      rfl
    | succ n ih =>
      intro rest hrest before
      cases rest with
      | nil => rfl
      | cons c rest =>
        have hlength : rest.length ≤ n := Nat.le_of_succ_le_succ hrest
        cases hc : cls.admits ignoreCase c with
        | false =>
          rw [subFrom_of_run_eq_nil _ (run_plus_of_not_admits hc), squash, hc,
            if_neg Bool.false_ne_true, ih rest hlength]
        | true =>
          -- the run is replaced as a whole, and what is behind it is shorter
          have hsplit : c :: rest = (c :: rest.takeWhile (cls.admits ignoreCase)) ++
              rest.dropWhile (cls.admits ignoreCase) := by
            rw [List.cons_append, List.takeWhile_append_dropWhile]
          have hdrop : (rest.dropWhile (cls.admits ignoreCase)).length ≤ n :=
            Nat.le_trans (List.dropWhile_suffix _).length_le hlength
          have hhead := head?_run_plus data before rest hc
          rw [hsplit] at hhead
          rw [squash, if_pos hc, if_neg Bool.false_ne_true, squash_run, hsplit,
            subFrom_of_match _ (List.cons_ne_nil _ _) hhead rfl, ih _ hdrop]
          rfl
  exact hfrom text.length text (Nat.le_refl _) []

/-- The separators of a substitution have no runs to replace. -/
theorem squash_squash {drops : Char → Bool} {separator : Char}
    (hseparator : drops separator = true) (inRun : Bool) (text : List Char) :
    squash (· == separator) separator inRun (squash drops separator inRun text) =
      squash drops separator inRun text := by
  induction text generalizing inRun with
  | nil => rfl
  | cons c text ih =>
    by_cases hc : drops c = true
    · rw [squash, if_pos hc]
      cases inRun with
      | true => exact ih true
      | false =>
        rw [if_neg Bool.false_ne_true, squash, if_pos (beq_self_eq_true separator),
          if_neg Bool.false_ne_true, ih true]
    · have hne : ¬ (c == separator) = true := by
        intro heq
        exact hc (eq_of_beq heq ▸ hseparator)
      rw [squash, if_neg hc, squash, if_neg hne, ih false]

/-! ## Texts of words -/

/-- Words none of which is empty or has a dropped character in it. -/
def AreWords (drops : Char → Bool) (words : List (List Char)) : Prop :=
  ∀ word ∈ words, word ≠ [] ∧ ∀ c ∈ word, drops c = false

/-- `text.strip(separator)` -/
def stripChar (separator : Char) (text : List Char) : List Char :=
  (text.dropWhile (· == separator)).rdropWhile (· == separator)

theorem stripChar_separator (separator : Char) (text : List Char) :
    stripChar separator (separator :: text) = stripChar separator text := by
  have hself : (fun c => c == separator) separator = true := beq_self_eq_true separator
  rw [stripChar, List.dropWhile_cons, if_pos hself, stripChar]

section Words

variable {drops : Char → Bool} {separator : Char}

theorem join_cons_cons (word next : List Char) (words : List (List Char)) :
    join separator (word :: next :: words) =
      word ++ separator :: join separator (next :: words) := by
  simp [join, List.intercalate]

theorem join_cons_of_ne_nil (word : List Char) {words : List (List Char)} (hne : words ≠ []) :
    join separator (word :: words) = word ++ separator :: join separator words := by
  obtain ⟨next, words, rfl⟩ := List.exists_cons_of_ne_nil hne
  exact join_cons_cons word next words

@[simp] theorem join_nil : join separator [] = [] :=
  rfl

@[simp] theorem join_singleton (word : List Char) : join separator [word] = word := by
  simp [join, List.intercalate]

theorem AreWords.tail {word : List Char} {words : List (List Char)}
    (h : AreWords drops (word :: words)) : AreWords drops words :=
  fun other hother => h other (List.mem_cons_of_mem word hother)

theorem AreWords.cons {word : List Char} {words : List (List Char)} (hne : word ≠ [])
    (hword : ∀ c ∈ word, drops c = false) (h : AreWords drops words) :
    AreWords drops (word :: words) := by
  intro other hother
  rcases List.mem_cons.mp hother with rfl | hother
  · exact ⟨hne, hword⟩
  · exact h other hother

theorem AreWords.mono {drops' : Char → Bool} (hdrops : ∀ c, drops' c = true → drops c = true)
    {words : List (List Char)} (h : AreWords drops words) : AreWords drops' words :=
  fun word hword => ⟨(h word hword).1, fun c hc => Bool.eq_false_iff.mpr fun htrue =>
    Bool.eq_false_iff.mp ((h word hword).2 c hc) (hdrops c htrue)⟩

theorem areWords_nil : AreWords drops [] :=
  fun _ hword => absurd hword List.not_mem_nil

theorem join_concat {words : List (List Char)} (hne : words ≠ []) (last : List Char) :
    join separator (words ++ [last]) = join separator words ++ separator :: last := by
  induction words with
  | nil => exact absurd rfl hne
  | cons word words ih =>
    have happend : words ++ [last] ≠ [] :=
      List.append_ne_nil_of_right_ne_nil _ (List.cons_ne_nil _ _)
    rw [List.cons_append, join_cons_of_ne_nil word happend]
    by_cases hnil : words = []
    · rw [hnil, List.nil_append, join_singleton, join_singleton]
    · rw [ih hnil, join_cons_of_ne_nil word hnil, List.append_assoc, List.cons_append]

/-- The words are joined by nothing but the separator. -/
theorem mem_join {words : List (List Char)} (h : AreWords drops words) {c : Char}
    (hc : c ∈ join separator words) : c = separator ∨ drops c = false := by
  induction words with
  | nil => cases hc
  | cons word words ih =>
    by_cases hne : words = []
    · rw [hne, join_singleton] at hc
      exact .inr ((h word List.mem_cons_self).2 c hc)
    · rw [join_cons_of_ne_nil word hne] at hc
      rcases List.mem_append.mp hc with hc | hc
      · exact .inr ((h word List.mem_cons_self).2 c hc)
      · exact (List.mem_cons.mp hc).imp_right (ih h.tail) |>.elim .inl id

theorem exists_head_join (separator : Char) {words : List (List Char)}
    (h : AreWords drops words) (hne : words ≠ []) :
    ∃ c rest, join separator words = c :: rest ∧ drops c = false := by
  obtain ⟨word, words, rfl⟩ := List.exists_cons_of_ne_nil hne
  obtain ⟨hword, hkept⟩ := h word List.mem_cons_self
  obtain ⟨c, word, rfl⟩ := List.exists_cons_of_ne_nil hword
  have hc := hkept c List.mem_cons_self
  by_cases hwords : words = []
  · exact ⟨c, word, by rw [hwords, join_singleton], hc⟩
  · exact ⟨c, _, by rw [join_cons_of_ne_nil _ hwords, List.cons_append], hc⟩

theorem exists_last_join (separator : Char) {words : List (List Char)}
    (h : AreWords drops words) (hne : words ≠ []) :
    ∃ rest c, join separator words = rest ++ [c] ∧ drops c = false := by
  induction words with
  | nil => exact absurd rfl hne
  | cons word words ih =>
    by_cases hwords : words = []
    · obtain ⟨hword, hkept⟩ := h word List.mem_cons_self
      refine ⟨word.dropLast, word.getLast hword, ?_, hkept _ (List.getLast_mem hword)⟩
      rw [hwords, join_singleton, List.dropLast_append_getLast]
    · obtain ⟨rest, c, hjoin, hc⟩ := ih h.tail hwords
      refine ⟨word ++ separator :: rest, c, ?_, hc⟩
      rw [join_cons_of_ne_nil word hwords, hjoin, List.append_assoc, List.cons_append]

/-! ### Runs between words -/

/-- Words with one separator between each two, and maybe one behind the last. -/
def IsSpaced (drops : Char → Bool) (separator : Char) (text : List Char) : Prop :=
  ∃ words, AreWords drops words ∧
    (text = join separator words ∨ words ≠ [] ∧ text = join separator words ++ [separator])

theorem IsSpaced.word {word text : List Char} (hne : word ≠ [])
    (hword : ∀ c ∈ word, drops c = false) (h : IsSpaced drops separator text) :
    IsSpaced drops separator (word ++ separator :: text) := by
  obtain ⟨words, hwords, htext⟩ := h
  by_cases hnil : words = []
  · have htext : text = [] := by
      rcases htext with htext | ⟨hwordsNe, -⟩
      · rw [htext, hnil, join_nil]
      · exact absurd hnil hwordsNe
    exact ⟨[word], .cons hne hword areWords_nil, .inr ⟨List.cons_ne_nil _ _, by
      rw [htext, join_singleton]⟩⟩
  · refine ⟨word :: words, .cons hne hword hwords, ?_⟩
    rw [join_cons_of_ne_nil word hnil]
    rcases htext with htext | ⟨-, htext⟩
    · exact .inl (by rw [htext])
    · exact .inr ⟨List.cons_ne_nil _ _, by rw [htext, List.append_assoc, List.cons_append]⟩

/-- What the substitution makes of a text, in the middle of a word or behind a run. -/
theorem squash_forms (drops : Char → Bool) (separator : Char) (text : List Char) :
    (∃ word rest, squash drops separator false text = word ++ rest ∧
      (∀ c ∈ word, drops c = false) ∧
      (rest = [] ∨ ∃ tail, rest = separator :: tail ∧ IsSpaced drops separator tail)) ∧
    IsSpaced drops separator (squash drops separator true text) := by
  induction text with
  | nil =>
    exact ⟨⟨[], [], rfl, fun _ hc => absurd hc List.not_mem_nil, .inl rfl⟩,
      [], areWords_nil, .inl rfl⟩
  | cons c text ih =>
    obtain ⟨⟨word, rest, hword, hkept, hrest⟩, hspaced⟩ := ih
    cases hc : drops c with
    | true =>
      rw [squash, if_pos hc, if_neg Bool.false_ne_true, squash, if_pos hc, if_pos rfl]
      exact ⟨⟨[], _, rfl, fun _ hd => absurd hd List.not_mem_nil, .inr ⟨_, rfl, hspaced⟩⟩,
        hspaced⟩
    | false =>
      have hnot : ¬ drops c = true := Bool.eq_false_iff.mp hc
      have hkept' : ∀ d ∈ c :: word, drops d = false := by
        intro d hd
        rcases List.mem_cons.mp hd with rfl | hd
        · exact hc
        · exact hkept d hd
      rw [squash, if_neg hnot, squash, if_neg hnot, hword]
      refine ⟨⟨c :: word, rest, rfl, hkept', hrest⟩, ?_⟩
      rcases hrest with rfl | ⟨tail, rfl, htail⟩
      · refine ⟨[c :: word], .cons (List.cons_ne_nil _ _) hkept' areWords_nil, .inl ?_⟩
        rw [List.append_nil, join_singleton]
      · exact htail.word (List.cons_ne_nil _ _) hkept'

theorem squash_append_word (separator : Char) {word : List Char} (hne : word ≠ [])
    (hword : ∀ c ∈ word, drops c = false) (inRun : Bool) (rest : List Char) :
    squash drops separator inRun (word ++ rest) = word ++ squash drops separator false rest := by
  induction word generalizing inRun with
  | nil => exact absurd rfl hne
  | cons c word ih =>
    have hnot : ¬ drops c = true := Bool.eq_false_iff.mp (hword c List.mem_cons_self)
    rw [List.cons_append, squash, if_neg hnot]
    by_cases hnil : word = []
    · rw [hnil]
      rfl
    · rw [ih hnil fun d hd => hword d (List.mem_cons_of_mem c hd)]
      rfl

/-! ### Separators that are dropped -/

variable (hseparator : drops separator = true)

include hseparator

theorem ne_separator {c : Char} (hc : drops c = false) : (c == separator) = false := by
  refine beq_eq_false_iff_ne.mpr fun heq => ?_
  rw [heq, hseparator] at hc
  cases hc

theorem dropWhile_join {words : List (List Char)} (h : AreWords drops words)
    (behind : List Char) (hbehind : words = [] → behind = []) :
    (join separator words ++ behind).dropWhile (· == separator) =
      join separator words ++ behind := by
  by_cases hne : words = []
  · rw [hbehind hne, hne]
    rfl
  · obtain ⟨c, rest, hjoin, hc⟩ := exists_head_join separator h hne
    rw [hjoin, List.cons_append, List.dropWhile_cons_of_neg]
    rw [ne_separator hseparator hc]
    exact Bool.false_ne_true

theorem rdropWhile_join {words : List (List Char)} (h : AreWords drops words) :
    (join separator words).rdropWhile (· == separator) = join separator words := by
  by_cases hne : words = []
  · rw [hne]
    rfl
  · obtain ⟨rest, c, hjoin, hc⟩ := exists_last_join separator h hne
    rw [hjoin, List.rdropWhile_concat_neg]
    rw [ne_separator hseparator hc]
    exact Bool.false_ne_true

/-- Joined words have no separator at an end. -/
theorem stripChar_join {words : List (List Char)} (h : AreWords drops words) :
    stripChar separator (join separator words) = join separator words := by
  have hdrop := dropWhile_join hseparator h [] fun _ => rfl
  rw [List.append_nil] at hdrop
  rw [stripChar, hdrop, rdropWhile_join hseparator h]

/-- A separator behind the words is stripped. -/
theorem stripChar_join_separator {words : List (List Char)} (h : AreWords drops words)
    (hne : words ≠ []) :
    stripChar separator (join separator words ++ [separator]) = join separator words := by
  have hself : (fun c => c == separator) separator = true := beq_self_eq_true separator
  rw [stripChar, dropWhile_join hseparator h [separator] fun heq => absurd heq hne,
    List.rdropWhile_concat_pos (fun c => c == separator) _ separator hself,
    rdropWhile_join hseparator h]

theorem exists_words_of_isSpaced {text : List Char} (h : IsSpaced drops separator text) :
    ∃ words, AreWords drops words ∧ stripChar separator text = join separator words := by
  obtain ⟨words, hwords, rfl | ⟨hne, rfl⟩⟩ := h
  · exact ⟨words, hwords, stripChar_join hseparator hwords⟩
  · exact ⟨words, hwords, stripChar_join_separator hseparator hwords hne⟩

/-- The substitution leaves words with one separator between each two. -/
theorem exists_words_squash (text : List Char) :
    ∃ words, AreWords drops words ∧
      stripChar separator (squash drops separator false text) = join separator words := by
  obtain ⟨⟨word, rest, hword, hkept, hrest⟩, -⟩ := squash_forms drops separator
    text
  rw [hword]
  cases word with
  | nil =>
    rcases hrest with rfl | ⟨tail, rfl, htail⟩
    · exact ⟨[], areWords_nil, rfl⟩
    · rw [List.nil_append, stripChar_separator]
      exact exists_words_of_isSpaced hseparator htail
  | cons c word =>
    refine exists_words_of_isSpaced hseparator ?_
    rcases hrest with rfl | ⟨tail, rfl, htail⟩
    · refine ⟨[c :: word], .cons (List.cons_ne_nil _ _) hkept areWords_nil, .inl ?_⟩
      rw [List.append_nil, join_singleton]
    · exact htail.word (List.cons_ne_nil _ _) hkept

/-- Joined words have no runs to replace. -/
theorem squash_join {words : List (List Char)} (h : AreWords drops words) (inRun : Bool) :
    squash drops separator inRun (join separator words) = join separator words := by
  induction words generalizing inRun with
  | nil => rfl
  | cons word words ih =>
    obtain ⟨hword, hkept⟩ := h word List.mem_cons_self
    by_cases hnil : words = []
    · have hsquash := squash_append_word separator hword hkept inRun []
      rw [List.append_nil] at hsquash
      rw [hnil, join_singleton, hsquash]
      exact List.append_nil word
    · rw [join_cons_of_ne_nil word hnil, squash_append_word separator hword hkept, squash,
        if_pos hseparator, if_neg Bool.false_ne_true, ih h.tail]

end Words

/-! ## Words that a pattern replaces -/

/-- `(?<!cls)inner+(?!cls)` -/
def standalone (cls inner : CharClass) : Pattern :=
  .cat [.notBehind cls, .plus (.one inner), .notAhead (.one cls)]

section Standalone

variable {cls inner : CharClass}

theorem run_notAhead_one (data : CharData) (before : List Char) {rest : List Char}
    (h : ∀ c ∈ rest.head?, cls.admits ignoreCase c = false) :
    run data ignoreCase (.notAhead (.one cls)) ⟨before, rest, []⟩ = [⟨before, rest, []⟩] := by
  cases rest with
  | nil => rfl
  | cons c rest => simp [run, Cursor.step, h c rfl]

theorem mem_run_notAhead_one {p q : Cursor}
    (h : q ∈ run data ignoreCase (.notAhead (.one cls)) p) :
    q = p ∧ p.rest.head?.any (cls.admits ignoreCase) = false := by
  obtain ⟨before, rest, groups⟩ := p
  cases rest with
  | nil => exact ⟨List.mem_singleton.mp h, rfl⟩
  | cons c rest =>
    cases hc : cls.admits ignoreCase c with
    | true => simp [run, Cursor.step, hc] at h
    | false =>
      have heq : q = ⟨before, c :: rest, groups⟩ := by
        simpa [run, Cursor.step, hc] using h
      exact ⟨heq, hc⟩

theorem mem_run_notBehind {p q : Cursor} (h : q ∈ run data ignoreCase (.notBehind cls) p) :
    q = p ∧ p.before.head?.any (cls.admits ignoreCase) = false := by
  rw [run] at h
  split at h
  · cases h
  · next hnot => exact ⟨List.mem_singleton.mp h, Bool.eq_false_iff.mpr hnot⟩

/-- A match is a run that stands by itself. -/
theorem mem_run_standalone {p q : Cursor} (h : q ∈ run data ignoreCase (standalone cls inner) p) :
    p.before.head?.any (cls.admits ignoreCase) = false ∧
      Takes (inner.admits ignoreCase) 1 p q ∧ q.rest.head?.any (cls.admits ignoreCase) = false := by
  obtain ⟨start, hstart, h⟩ := List.mem_flatMap.mp h
  obtain ⟨stop, hstop, hq⟩ := List.mem_flatMap.mp h
  obtain ⟨rfl, hbefore⟩ := mem_run_notBehind hstart
  obtain ⟨rfl, hrest⟩ := mem_run_notAhead_one hq
  exact ⟨hbefore, mem_run_loop_iff.mp hstop, hrest⟩

theorem run_standalone_of_behind {before rest : List Char} {b : Char}
    (hb : cls.admits ignoreCase b = true) :
    run data ignoreCase (standalone cls inner) ⟨b :: before, rest, []⟩ = [] := by
  refine List.eq_nil_iff_forall_not_mem.mpr fun q hq => ?_
  have hbehind := (mem_run_standalone hq).1
  rw [List.head?_cons, Option.any_some, hb] at hbehind
  cases hbehind

theorem run_standalone_of_not_admits {before rest : List Char} {c : Char}
    (hc : inner.admits ignoreCase c = false) :
    run data ignoreCase (standalone cls inner) ⟨before, c :: rest, []⟩ = [] := by
  refine List.eq_nil_iff_forall_not_mem.mpr fun q hq => ?_
  obtain ⟨-, ⟨taken, more, hsplit, hall, hleast, -⟩, -⟩ := mem_run_standalone hq
  cases taken with
  | nil => exact absurd hleast (Nat.not_succ_le_zero 0)
  | cons d taken =>
    obtain ⟨rfl, -⟩ := List.cons.inj hsplit
    have hd := hall c List.mem_cons_self
    rw [hc] at hd
    cases hd

/-- At a word that is not made of the inner class the pattern does not match. -/
theorem run_standalone_of_not_all (data : CharData) (before : List Char) {word : List Char}
    (rest : List Char)
    (hword : ∀ c ∈ word, cls.admits ignoreCase c = true)
    (hnot : ∃ c ∈ word, inner.admits ignoreCase c = false) :
    run data ignoreCase (standalone cls inner) ⟨before, word ++ rest, []⟩ = [] := by
  refine List.eq_nil_iff_forall_not_mem.mpr fun q hq => ?_
  obtain ⟨-, ⟨taken, more, hsplit, hall, -, rfl⟩, hahead⟩ := mem_run_standalone hq
  rcases List.append_eq_append_iff.mp hsplit with ⟨within, htaken, -⟩ | ⟨left, hleft, hmore⟩
  · -- the match goes over the word
    obtain ⟨c, hc, hnotInner⟩ := hnot
    have hinner := hall c (htaken ▸ List.mem_append_left within hc)
    rw [hnotInner] at hinner
    cases hinner
  · -- the match ends before the word does
    cases left with
    | nil =>
      rw [List.append_nil] at hleft
      obtain ⟨c, hc, hnotInner⟩ := hnot
      have hinner := hall c (hleft ▸ hc)
      rw [hnotInner] at hinner
      cases hinner
    | cons c left =>
      have hc := hword c (hleft ▸ List.mem_append_right taken List.mem_cons_self)
      have hahead : more.head?.any (cls.admits ignoreCase) = false := hahead
      rw [hmore, List.cons_append, List.head?_cons, Option.any_some, hc] at hahead
      cases hahead

/-- At a word of the inner class the first match is the word. -/
theorem head?_run_standalone (data : CharData) {before word rest : List Char} (hne : word ≠ [])
    (hbefore : ∀ b ∈ before.head?, cls.admits ignoreCase b = false)
    (hinner : ∀ c ∈ word, inner.admits ignoreCase c = true)
    (hrestCls : ∀ c ∈ rest.head?, cls.admits ignoreCase c = false)
    (hrestInner : ∀ c ∈ rest.head?, inner.admits ignoreCase c = false) :
    (run data ignoreCase (standalone cls inner) ⟨before, word ++ rest, []⟩).head? =
      some ⟨word.reverse ++ before, rest, []⟩ := by
  obtain ⟨c, word, rfl⟩ := List.exists_cons_of_ne_nil hne
  have hc := hinner c List.mem_cons_self
  have htail : ∀ d ∈ word, inner.admits ignoreCase d = true :=
    fun d hd => hinner d (List.mem_cons_of_mem c hd)
  have hstops : rest.takeWhile (inner.admits ignoreCase) = [] ∧
      rest.dropWhile (inner.admits ignoreCase) = rest := by
    cases rest with
    | nil => exact ⟨rfl, rfl⟩
    | cons d rest => simp [hrestInner d rfl]
  have hplus := head?_run_plus data before (word ++ rest) hc
  rw [List.takeWhile_append_of_pos htail, List.dropWhile_append_of_pos htail, hstops.1, hstops.2,
    List.append_nil] at hplus
  obtain ⟨ends, hends⟩ : ∃ ends, run data ignoreCase (.plus (.one inner))
      ⟨before, c :: (word ++ rest), []⟩ = ⟨word.reverse ++ c :: before, rest, []⟩ :: ends := by
    cases hrun : run data ignoreCase (.plus (.one inner)) ⟨before, c :: (word ++ rest), []⟩ with
    | nil =>
      rw [hrun] at hplus
      cases hplus
    | cons q ends =>
      rw [hrun] at hplus
      exact ⟨ends, by rw [Option.some.inj hplus]⟩
  have hbehind : run data ignoreCase (.notBehind cls) ⟨before, c :: (word ++ rest), []⟩ =
      [⟨before, c :: (word ++ rest), []⟩] := by
    cases before with
    | nil => rfl
    | cons b before => simp [run, hbefore b rfl]
  have hahead := run_notAhead_one data (word.reverse ++ c :: before) hrestCls
  have hrun : run data ignoreCase (standalone cls inner) ⟨before, c :: (word ++ rest), []⟩ =
      (run data ignoreCase (.notBehind cls) ⟨before, c :: (word ++ rest), []⟩).flatMap fun start =>
        (run data ignoreCase (.plus (.one inner)) start).flatMap
          (run data ignoreCase (.notAhead (.one cls))) := rfl
  rw [List.cons_append, hrun, hbehind, List.flatMap_singleton, hends, List.flatMap_cons, hahead,
    List.reverse_cons, List.append_assoc, List.singleton_append]
  rfl

/-- In the middle of a word nothing is replaced. -/
theorem subFrom_standalone_within (replacement : List Char) {word : List Char}
    (hword : ∀ c ∈ word, cls.admits ignoreCase c = true) (rest : List Char) :
    ∀ {before : List Char} {b : Char}, cls.admits ignoreCase b = true →
      subFrom data ignoreCase (standalone cls inner) replacement 0 (b :: before) (word ++ rest) =
        word ++ subFrom data ignoreCase (standalone cls inner) replacement 0
          (word.reverse ++ b :: before) rest := by
  induction word with
  | nil => exact fun _ => rfl
  | cons c word ih =>
    intro before b hb
    have hc := hword c List.mem_cons_self
    rw [List.cons_append, subFrom_of_run_eq_nil _ (run_standalone_of_behind hb),
      ih (fun d hd => hword d (List.mem_cons_of_mem c hd)) hc, List.reverse_cons,
      List.append_assoc, List.singleton_append, List.cons_append]

/-- One word, with something behind it that belongs to no word. -/
theorem subFrom_standalone_word (replacement : List Char) {before word rest : List Char}
    (hne : word ≠ []) (hword : ∀ c ∈ word, cls.admits ignoreCase c = true)
    (hbefore : ∀ b ∈ before.head?, cls.admits ignoreCase b = false)
    (hrestCls : ∀ c ∈ rest.head?, cls.admits ignoreCase c = false)
    (hrestInner : ∀ c ∈ rest.head?, inner.admits ignoreCase c = false) :
    subFrom data ignoreCase (standalone cls inner) replacement 0 before (word ++ rest) =
      (if word.all (inner.admits ignoreCase) then replacement else word) ++
        subFrom data ignoreCase (standalone cls inner) replacement 0
          (word.reverse ++ before) rest := by
  cases hall : word.all (inner.admits ignoreCase) with
  | true =>
    have hhead := head?_run_standalone data hne hbefore (List.all_eq_true.mp hall)
      hrestCls hrestInner
    rw [if_pos rfl]
    exact subFrom_of_match replacement hne hhead rfl
  | false =>
    have hnot : ∃ c ∈ word, inner.admits ignoreCase c = false := by
      obtain ⟨c, hc, hinner⟩ := List.all_eq_false.mp hall
      exact ⟨c, hc, Bool.eq_false_iff.mpr hinner⟩
    have hrun := run_standalone_of_not_all data before rest hword hnot
    obtain ⟨c, word, rfl⟩ := List.exists_cons_of_ne_nil hne
    rw [List.cons_append] at hrun ⊢
    rw [if_neg Bool.false_ne_true, subFrom_of_run_eq_nil _ hrun, subFrom_standalone_within _
      (fun d hd => hword d (List.mem_cons_of_mem c hd)) _ (hword c List.mem_cons_self),
      List.reverse_cons, List.append_assoc, List.singleton_append, List.cons_append]

/-- The substitution goes word by word. -/
theorem sub_standalone {separator : Char} (hcls : cls.admits ignoreCase separator = false)
    (hinner : inner.admits ignoreCase separator = false) (replacement : List Char)
    {words : List (List Char)} (h : AreWords (fun c => !cls.admits ignoreCase c) words) :
    sub data ignoreCase (standalone cls inner) replacement (join separator words) =
      join separator (words.map fun word =>
        if word.all (inner.admits ignoreCase) then replacement else word) := by
  have hfrom : ∀ before : List Char, (∀ b ∈ before.head?, cls.admits ignoreCase b = false) →
      subFrom data ignoreCase (standalone cls inner) replacement 0 before (join separator words) =
        join separator (words.map fun word =>
          if word.all (inner.admits ignoreCase) then replacement else word) := by
    induction words with
    | nil => exact fun _ _ => rfl
    | cons word words ih =>
      intro before hbefore
      obtain ⟨hne, hkept⟩ := h word List.mem_cons_self
      have hword : ∀ c ∈ word, cls.admits ignoreCase c = true :=
        fun c hc => by simpa using hkept c hc
      by_cases hwords : words = []
      · have hend : subFrom data ignoreCase (standalone cls inner) replacement 0 before
            (word ++ []) = _ :=
          subFrom_standalone_word replacement hne hword hbefore (fun _ hc => by cases hc)
            (fun _ hc => by cases hc)
        rw [List.append_nil] at hend
        rw [hwords, join_singleton, List.map_cons, List.map_nil, join_singleton, hend]
        exact List.append_nil _
      · have hmap : words.map (fun word =>
            if word.all (inner.admits ignoreCase) then replacement else word) ≠ [] :=
          fun heq => hwords (List.map_eq_nil_iff.mp heq)
        have hseparatorCls : ∀ more : List Char, ∀ c ∈ (separator :: more).head?,
            cls.admits ignoreCase c = false := by
          rintro more c ⟨⟩
          exact hcls
        have hseparatorInner : ∀ c ∈ (separator :: join separator words).head?,
            inner.admits ignoreCase c = false := by
          rintro c ⟨⟩
          exact hinner
        rw [join_cons_of_ne_nil word hwords, List.map_cons, join_cons_of_ne_nil _ hmap,
          subFrom_standalone_word replacement hne hword hbefore (hseparatorCls _)
            hseparatorInner,
          subFrom_of_run_eq_nil _ (run_standalone_of_not_admits hinner),
          ih h.tail _ (hseparatorCls _)]
  exact hfrom [] fun _ hb => by cases hb

end Standalone

end ResiliencyExt.Foundation.Regex
