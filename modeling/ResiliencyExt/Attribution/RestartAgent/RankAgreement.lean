import ResiliencyExt.Attribution.RestartAgent.LineIdentity

set_option autoImplicit false

/-!
# Restart agent: the two ways to the rank of a line

`_fast_numeric_rank` against `extract_rank`.  Both take a number at the head of a line that a
colon and white space follow, but the fast way asks for a blank or a tab, and for characters
that `str.isdigit` takes, where `int` takes fewer.  The lines on which they agree are the
`RankReadable` ones (`fastNumericRank_eq_ok_iff`).
-/

namespace ResiliencyExt.Attribution.RestartAgent

open Foundation List
open LinePattern (numberPrefix rankField)
open Foundation.Regex
open Foundation.Unicode
open ResiliencyExt.FaultTolerance.CycleInfo (intValue)

/-! ## Numbers at the head of a line -/

/-- A line begins, behind white space, with a number in decimal digits, a colon and a character
of white space. -/
structure NumberedBy (text digits : List Char) (next : Char) : Prop where
  ne_nil : digits ≠ []
  decimal : ∀ c ∈ digits, isDecimal c = true
  space : isSpace next = true
  head : ∃ rest, text.dropWhile isSpace = digits ++ ':' :: next :: rest

variable {digits text line : List Char} {data : CharData}

theorem takeWhile_append_cons {p : Char → Bool} {stop : Char} (hall : ∀ c ∈ digits, p c = true)
    (hstop : p stop = false) (rest : List Char) :
    (digits ++ stop :: rest).takeWhile p = digits ∧
      (digits ++ stop :: rest).dropWhile p = stop :: rest := by
  constructor
  · rw [takeWhile_append_of_pos hall, takeWhile_cons_of_neg (by simp [hstop]),
      append_nil]
  · rw [dropWhile_append_of_pos hall, dropWhile_cons_of_neg (by simp [hstop])]

theorem NumberedBy.digits_eq {next : Char} (h : NumberedBy text digits next) :
    (text.dropWhile isSpace).takeWhile isDecimal = digits := by
  obtain ⟨rest, hhead⟩ := h.head
  rw [hhead]
  exact (takeWhile_append_cons h.decimal rfl _).1

/-- White space goes, up to a digit. -/
theorem dropWhile_isSpace_digits {blank : List Char} (hblank : ∀ c ∈ blank, isSpace c = true)
    (hne : digits ≠ []) (hdigits : ∀ c ∈ digits, isDecimal c = true) (rest : List Char) :
    (blank ++ (digits ++ rest)).dropWhile isSpace = digits ++ rest := by
  rw [dropWhile_append_of_pos hblank]
  cases digits with
  | nil => exact absurd rfl hne
  | cons d digits =>
    have hd : isSpace d = false := isSpace_of_isDecimal (hdigits d mem_cons_self)
    exact dropWhile_cons_of_neg (by simp [hd])

/-- What the pattern for such a head goes over. -/
theorem mem_run_numberPrefix {q : Cursor}
    (h : q ∈ run data false (.cat [Pattern.spaces, .group "1" Pattern.digits, .one (.char ':'), Pattern.someSpace]) (.start text)) :
    ∃ digits next, NumberedBy text digits next ∧ q.groups = [("1", digits)] := by
  obtain ⟨p₁, h₁, h⟩ := mem_flatMap.mp h
  obtain ⟨p₂, h₂, h⟩ := mem_flatMap.mp h
  obtain ⟨p₃, h₃, h⟩ := mem_flatMap.mp h
  obtain ⟨blank, rest₁, hrest₁, hblank, _, rfl⟩ := mem_run_loop_iff.mp h₁
  obtain ⟨p₂', hbody, rfl⟩ := mem_map.mp h₂
  obtain ⟨digits, rest₂, hrest₂, hdigits, hleast, rfl⟩ := mem_run_loop_iff.mp hbody
  obtain ⟨colon, rest₃, hrest₃, hcolon, rfl⟩ := mem_step_iff.mp h₃
  obtain ⟨space, rest, hrest₄, hspace, hleast', rfl⟩ := mem_run_loop_iff.mp h
  have hcolon : colon = ':' := by simpa [CharClass.admits, eq_comm] using hcolon
  subst hcolon
  cases space with
  | nil => exact absurd hleast' (Nat.not_succ_le_zero _)
  | cons next space =>
    have hne : digits ≠ [] := ne_nil_of_length_pos hleast
    refine ⟨digits, next, ⟨hne, hdigits, hspace next mem_cons_self, space ++ rest, ?_⟩, ?_⟩
    · have htext : text = blank ++ (digits ++ ':' :: next :: (space ++ rest)) := by
        have e₁ : text = blank ++ rest₁ := hrest₁
        have e₂ : rest₁ = digits ++ rest₂ := hrest₂
        have e₃ : rest₂ = ':' :: rest₃ := hrest₃
        have e₄ : rest₃ = next :: space ++ rest := hrest₄
        rw [e₁, e₂, e₃, e₄, cons_append]
      rw [htext]
      exact dropWhile_isSpace_digits hblank hne hdigits _
    · have hvalue := Cursor.textTo_advance hrest₂
      exact congrArg (fun value => [("1", value)]) hvalue

/-- A head of that kind is matched. -/
theorem run_numberPrefix_ne_nil {next : Char} (h : NumberedBy text digits next) :
    run data false (.cat [Pattern.spaces, .group "1" Pattern.digits, .one (.char ':'),
      Pattern.someSpace]) (.start text) ≠ [] := by
  obtain ⟨rest, hhead⟩ := h.head
  have htext : text = text.takeWhile isSpace ++ (digits ++ ':' :: next :: rest) := by
    rw [← hhead, takeWhile_append_dropWhile]
  have h₁ : (Cursor.start text).advance (text.takeWhile isSpace)
      (digits ++ ':' :: next :: rest) ∈ run data false Pattern.spaces (.start text) :=
    mem_run_loop_iff.mpr ⟨_, _, htext, fun c hc => mem_takeWhile_imp hc, Nat.zero_le _, rfl⟩
  have h₂ : ∀ p : Cursor, p.rest = digits ++ ':' :: next :: rest →
      p.advance digits (':' :: next :: rest) ∈ run data false Pattern.digits p := fun p hp =>
    mem_run_loop_iff.mpr ⟨_, _, hp, h.decimal, length_pos_of_ne_nil h.ne_nil, rfl⟩
  have h₃ : ∀ p : Cursor, p.rest = ':' :: next :: rest →
      p.advance [':'] (next :: rest) ∈ run data false (.one (.char ':')) p :=
    fun p hp => mem_step_iff.mpr ⟨':', next :: rest, hp, rfl, rfl⟩
  have h₄ : ∀ p : Cursor, p.rest = next :: rest →
      p.advance [next] rest ∈ run data false Pattern.someSpace p := fun p hp =>
    mem_run_loop_iff.mpr ⟨[next], rest, hp, by simpa [CharClass.admits] using h.space,
      Nat.le_refl _, rfl⟩
  exact ne_nil_of_mem <| mem_flatMap.mpr ⟨_, h₁, mem_flatMap.mpr
    ⟨_, mem_map_of_mem (h₂ _ rfl), mem_flatMap.mpr ⟨_, h₃ _ rfl, h₄ _ rfl⟩⟩⟩

/-- The plain way reads the number at the head of a line. -/
theorem searchGroup_numberPrefix_iff :
    searchGroup data false numberPrefix "1" text = some digits ↔
      ∃ next, NumberedBy text digits next := by
  have hsearch : search data false (.seq .textStart (.cat [Pattern.spaces,
      .group "1" Pattern.digits, .one (.char ':'), Pattern.someSpace])) text = _ :=
    search_textStart _ text
  have hgroup : searchGroup data false numberPrefix "1" text =
      ((run data false (.cat [Pattern.spaces, .group "1" Pattern.digits, .one (.char ':'),
        Pattern.someSpace]) (.start text)).head?.bind fun q => q.get? "1") := by
    change (search data false _ text).bind _ = _
    rw [show numberPrefix = .seq .textStart (.cat [Pattern.spaces,
      .group "1" Pattern.digits, .one (.char ':'), Pattern.someSpace]) from rfl, hsearch,
      Option.bind_map]
    rfl
  rw [hgroup, Option.bind_eq_some_iff]
  constructor
  · rintro ⟨q, hq, hget⟩
    obtain ⟨digits', next, hnumbered, hgroups⟩ := mem_run_numberPrefix (mem_of_mem_head? hq)
    unfold Cursor.get? at hget
    rw [hgroups] at hget
    cases hget
    exact ⟨next, hnumbered⟩
  · rintro ⟨next, hnumbered⟩
    cases hrun : run data false (.cat [Pattern.spaces, .group "1" Pattern.digits,
        .one (.char ':'), Pattern.someSpace]) (.start text) with
    | nil => exact absurd hrun (run_numberPrefix_ne_nil hnumbered)
    | cons q ends =>
      obtain ⟨digits', next', hnumbered', hgroups⟩ :=
        mem_run_numberPrefix (hrun ▸ mem_cons_self)
      refine ⟨q, rfl, ?_⟩
      unfold Cursor.get?
      rw [hgroups, ← hnumbered.digits_eq, ← hnumbered'.digits_eq]
      rfl

/-! ## The fast way -/

/-- The digits of the fast way, and what follows them. -/
theorem fastPrefix_eq_some_iff :
    fastPrefix text = some digits ↔
      digits ≠ [] ∧ digits.all isDigit = true ∧
        ∃ next rest, (next = ' ' ∨ next = '\t') ∧
          text.dropWhile isSpace = digits ++ ':' :: next :: rest := by
  unfold fastPrefix
  dsimp only
  constructor
  · intro h
    split at h
    · cases h
    · next colon remainder hdrop =>
      split at h
      · next hcond =>
        obtain ⟨⟨hne, hall⟩, hnext⟩ := hcond
        cases h
        have hcolon : colon = ':' := by
          have hhead := head?_dropWhile_not (p := fun c => decide (c ≠ ':'))
            (l := text.dropWhile isSpace)
          rw [hdrop] at hhead
          simpa using hhead
        have hsplit := takeWhile_append_dropWhile (p := fun c => decide (c ≠ ':'))
          (l := text.dropWhile isSpace)
        rw [hdrop, hcolon] at hsplit
        cases remainder with
        | nil => simp at hnext
        | cons next rest =>
          refine ⟨hne, hall, next, rest, ?_, hsplit.symm⟩
          simpa using hnext
      · cases h
  · rintro ⟨hne, hall, next, rest, hnext, hhead⟩
    have hcolon : ∀ c ∈ digits, decide (c ≠ ':') = true := by
      intro c hc
      refine decide_eq_true ?_
      rintro rfl
      exact absurd (all_eq_true.mp hall ':' hc) (by decide +kernel)
    obtain ⟨htake, hdrop⟩ := takeWhile_append_cons hcolon (by simp : decide (':' ≠ ':') = false)
      (next :: rest)
    rw [hhead, htake, hdrop]
    dsimp only
    refine if_pos ⟨⟨hne, hall⟩, ?_⟩
    simpa using hnext

/-- A number in decimal digits before a blank or a tab is on both ways. -/
theorem numberedBy_of_fastPrefix (h : fastPrefix text = some digits)
    (hdecimal : ∀ c ∈ digits, isDecimal c = true) : ∃ next, NumberedBy text digits next := by
  obtain ⟨hne, _, next, rest, hnext, hhead⟩ := fastPrefix_eq_some_iff.mp h
  refine ⟨next, hne, hdecimal, ?_, rest, hhead⟩
  rcases hnext with rfl | rfl <;> rfl

/-! ## The rank by its name -/

/-- A rank that is found by its name is named in the line in lower case. -/
theorem mentions_rank (h : searchGroup data true rankField "1" text = some digits) :
    TextSearch.occursIn "rank".toList (lower data text) = true := by
  obtain ⟨m, hm, _⟩ := Option.bind_eq_some_iff.mp h
  obtain ⟨hsuffix, hrun⟩ := exists_run_of_searchFrom hm
  obtain ⟨middle, hmiddle, hrun⟩ := mem_flatMap.mp hrun
  obtain ⟨named, hnamed, _⟩ := mem_flatMap.mp hrun
  have hterm : HasTerm ["rank".toList] middle.rest := by
    rcases mem_append.mp hnamed with hnamed | hnamed
    · obtain ⟨taken, hrest, hfolds⟩ :=
        folds_of_mem_run_word "rank".toList (by decide +kernel) hnamed
      exact hrest ▸ hasTerm_of_folds hfolds (by decide +kernel) _
    · obtain ⟨taken, hrest, hfolds⟩ :=
        folds_of_mem_run_word "global_rank".toList (by decide +kernel) hnamed
      exact hrest ▸ hasTerm_of_folds hfolds (by decide +kernel) _
  have hmentions : containsAny ["rank".toList] (lower data text) = true :=
    containsAny_lower_of_hasTerm ((hterm.of_suffix (suffix_of_mem_run hmiddle)).of_suffix hsuffix)
  simpa [containsAny] using hmentions

theorem capturesDigits_rankField : capturesDigits "1" rankField = true := by
  decide +kernel

/-! ## Agreement -/

/-- The fast way reads the rank of the line as the plain way does. -/
structure RankReadable (data : CharData) (line : List Char) : Prop where
  /-- What the fast way calls `int` on is a text that `int` takes. -/
  fast : ∀ digits, fastPrefix line = some digits → IntText digits
  /-- A number before white space that is neither a blank nor a tab stands in a line with the
  word "rank". -/
  spaced : fastPrefix line = none → ∀ digits next, NumberedBy line digits next →
    TextSearch.occursIn "rank".toList (lower data line) = true ∧ digits.length ≤ maxStrDigits
  /-- A rank that is read by its name has no more digits than `int` takes. -/
  named : (∀ digits next, ¬ NumberedBy line digits next) → ∀ digits,
    searchGroup data true rankField "1" line = some digits →
      digits.length ≤ maxStrDigits

/-- What the plain way reads, at the head of the line or by its name. -/
theorem extractRank_eq_some_iff :
    extractRank data line = some digits ↔
      (∃ next, NumberedBy line digits next) ∨
        ((∀ digits next, ¬ NumberedBy line digits next) ∧
          searchGroup data true rankField "1" line = some digits) := by
  unfold extractRank
  split
  · next number hnumber =>
    obtain ⟨next, hnumbered⟩ := searchGroup_numberPrefix_iff.mp hnumber
    rw [← hnumber, searchGroup_numberPrefix_iff]
    exact ⟨.inl, fun h => h.resolve_right fun hnot => hnot.1 number next hnumbered⟩
  · next hnone =>
    have hnot : ∀ digits next, ¬ NumberedBy line digits next := by
      intro digits next hnumbered
      have hsome : searchGroup data false numberPrefix "1" line = some digits :=
        searchGroup_numberPrefix_iff.mpr ⟨next, hnumbered⟩
      rw [hnone] at hsome
      cases hsome
    exact ⟨fun h => .inr ⟨hnot, h⟩,
      fun h => (h.resolve_left fun ⟨next, hnumbered⟩ => hnot digits next hnumbered).2⟩

/-- What the plain way reads is a run of decimal digits. -/
theorem digits_of_extractRank (h : extractRank data line = some digits) :
    digits ≠ [] ∧ ∀ c ∈ digits, isDecimal c = true := by
  rcases extractRank_eq_some_iff.mp h with ⟨next, hnumbered⟩ | ⟨_, hnamed⟩
  · exact ⟨hnumbered.ne_nil, hnumbered.decimal⟩
  · exact digits_of_searchGroup capturesDigits_rankField hnamed

/-- The field that the plain way reads is a number unless it is too long. -/
theorem numericField_extractRank_iff :
    numericField (extractRank data line) = .ok ((extractRank data line).map intValue) ↔
      ∀ digits, extractRank data line = some digits → digits.length ≤ maxStrDigits := by
  cases hrank : extractRank data line with
  | none => exact ⟨fun _ _ h => (Option.some_ne_none _ h.symm).elim, fun _ => rfl⟩
  | some digits =>
    have hdigits := digits_of_extractRank hrank
    rw [numericField_of_digits hdigits, intOf_map_some_eq_ok_iff, intText_iff_of_digits hdigits]
    constructor
    · rintro ⟨hlength, -⟩ digits' heq
      exact Option.some.inj heq ▸ hlength
    · exact fun h => ⟨h digits rfl, rfl⟩

/-- The two ways agree on a line exactly when its rank is readable. -/
theorem fastNumericRank_eq_ok_iff :
    fastNumericRank data line (lower data line) =
        .ok ((extractRank data line).map intValue) ↔ RankReadable data line := by
  unfold fastNumericRank
  cases hfast : fastPrefix line with
  | some digits =>
    rw [intOf_map_some_eq_ok_iff]
    constructor
    · rintro ⟨htext, -⟩
      obtain ⟨next, hnumbered⟩ := numberedBy_of_fastPrefix hfast htext.2.1
      refine ⟨fun digits' h => ?_, fun h => ?_, fun h => absurd hnumbered (h digits next)⟩
      · exact Option.some.inj (hfast.symm.trans h) ▸ htext
      · rw [hfast] at h
        cases h
    · intro h
      have htext := h.fast digits hfast
      have hrank : extractRank data line = some digits := by
        unfold extractRank
        rw [searchGroup_numberPrefix_iff.mpr (numberedBy_of_fastPrefix hfast htext.2.1)]
      exact ⟨htext, by rw [hrank]; rfl⟩
  | none =>
    dsimp only
    split
    · next hmentions =>
      rw [numericField_extractRank_iff]
      constructor
      · intro h
        refine ⟨fun digits hsome => ?_, fun _ digits next hnumbered => ⟨hmentions, ?_⟩,
          fun hnot digits hnamed => ?_⟩
        · rw [hfast] at hsome
          cases hsome
        · exact h digits (extractRank_eq_some_iff.mpr (.inl ⟨next, hnumbered⟩))
        · exact h digits (extractRank_eq_some_iff.mpr (.inr ⟨hnot, hnamed⟩))
      · intro h digits hrank
        rcases extractRank_eq_some_iff.mp hrank with ⟨next, hnumbered⟩ | ⟨hnot, hnamed⟩
        · exact (h.spaced hfast digits next hnumbered).2
        · exact h.named hnot digits hnamed
    · next hmentions =>
      rw [Except.ok.injEq, eq_comm, Option.map_eq_none_iff]
      constructor
      · intro hrank
        have hnone : ∀ digits, extractRank data line ≠ some digits := by
          intro digits hsome
          rw [hrank] at hsome
          cases hsome
        refine ⟨fun digits hsome => ?_, fun _ digits next hnumbered => ?_,
          fun _ digits hnamed => absurd (mentions_rank hnamed) hmentions⟩
        · rw [hfast] at hsome
          cases hsome
        · exact absurd (extractRank_eq_some_iff.mpr (.inl ⟨next, hnumbered⟩)) (hnone digits)
      · intro h
        refine Option.eq_none_iff_forall_ne_some.mpr fun digits hrank => ?_
        rcases extractRank_eq_some_iff.mp hrank with ⟨next, hnumbered⟩ | ⟨_, hnamed⟩
        · exact hmentions (h.spaced hfast digits next hnumbered).1
        · exact hmentions (mentions_rank hnamed)

end ResiliencyExt.Attribution.RestartAgent
