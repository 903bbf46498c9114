import ResiliencyExt.Foundation.RegexTerms

set_option autoImplicit false

/-!
# Foundation: substitution, and patterns on one word

`pattern.sub` goes over a text from left to right and puts the replacement for each match.
On a text that is a single word a pattern that begins and ends at word boundaries matches
all of it or nothing (`sub_oneWord`), which is read off the pattern by `oneWord`.
-/

namespace ResiliencyExt.Foundation.Regex

open List

section Substitution

variable (data : CharData) (ignoreCase : Bool)

/-- `pattern.sub` from a place on, of a pattern that matches no empty text; the next `skip`
characters belong to a match. -/
def subFrom (r : Pattern) (replacement : List Char) :
    Nat → List Char → List Char → List Char
  | _, _, [] => []
  | skip + 1, before, c :: rest => subFrom r replacement skip (c :: before) rest
  | 0, before, c :: rest =>
    match (run data ignoreCase r ⟨before, c :: rest, []⟩).head? with
    | some q =>
      replacement ++ subFrom r replacement (rest.length - q.rest.length) (c :: before) rest
    | none => c :: subFrom r replacement 0 (c :: before) rest

/-- `pattern.sub(replacement, text)` -/
def sub (r : Pattern) (replacement text : List Char) : List Char :=
  subFrom data ignoreCase r replacement 0 [] text

/-- Whether `pattern.fullmatch(text)` finds a match. -/
def fullMatch (r : Pattern) (text : List Char) : Bool :=
  (run data ignoreCase r (.start text)).any fun q => q.rest.isEmpty

end Substitution

variable {data : CharData} {ignoreCase : Bool}

variable {r : Pattern} {rest : List Char} {q p : Cursor} (replacement : List Char)

theorem subFrom_skip (r : Pattern) (replacement taken : List Char) :
    ∀ before rest, subFrom data ignoreCase r replacement taken.length before (taken ++ rest) =
      subFrom data ignoreCase r replacement 0 (taken.reverse ++ before) rest := by
  induction taken with
  | nil => exact fun _ _ => rfl
  | cons c taken ih =>
    intro before rest
    rw [reverse_cons, append_assoc, singleton_append]
    exact ih (c :: before) rest

theorem subFrom_of_run_eq_nil {before : List Char} {c : Char}
    (h : run data ignoreCase r ⟨before, c :: rest, []⟩ = []) :
    subFrom data ignoreCase r replacement 0 before (c :: rest) =
      c :: subFrom data ignoreCase r replacement 0 (c :: before) rest := by
  rw [subFrom, h]
  rfl

/-- A match is replaced, and the substitution goes on behind it. -/
theorem subFrom_of_match {before taken : List Char} (hne : taken ≠ [])
    (h : (run data ignoreCase r ⟨before, taken ++ rest, []⟩).head? = some q)
    (hrest : q.rest = rest) :
    subFrom data ignoreCase r replacement 0 before (taken ++ rest) =
      replacement ++ subFrom data ignoreCase r replacement 0 (taken.reverse ++ before) rest := by
  obtain ⟨c, taken, rfl⟩ := exists_cons_of_ne_nil hne
  rw [cons_append] at h ⊢
  rw [subFrom, h]
  dsimp only
  rw [hrest, length_append, Nat.add_sub_cancel, subFrom_skip, reverse_cons,
    append_assoc, singleton_append]

/-- Where a pattern matches nowhere nothing is replaced. -/
theorem subFrom_eq_self :
    ∀ {before : List Char},
      (∀ taken c more, rest = taken ++ c :: more →
        run data ignoreCase r ⟨taken.reverse ++ before, c :: more, []⟩ = []) →
      subFrom data ignoreCase r replacement 0 before rest = rest := by
  induction rest with
  | nil => exact fun _ => rfl
  | cons c rest ih =>
    intro before h
    have hrun : run data ignoreCase r ⟨before, c :: rest, []⟩ = [] := h [] c rest rfl
    rw [subFrom_of_run_eq_nil replacement hrun]
    refine congrArg (c :: ·) (ih fun taken d more heq => ?_)
    have := h (c :: taken) d more (congrArg (c :: ·) heq)
    rwa [reverse_cons, append_assoc, singleton_append] at this

/-! ## What a run keeps -/

/-- What holds between the two cursors of each step of a run holds between its ends. -/
theorem rel_of_mem_run {R : Cursor → Cursor → Prop} (hrefl : ∀ p, R p p)
    (htrans : ∀ p q s, R p q → R q s → R p s)
    (hstep : ∀ (p : Cursor) c rest, p.rest = c :: rest → R p ⟨c :: p.before, rest, p.groups⟩)
    (hgroups : ∀ (p q : Cursor) groups, R p q → R p { q with groups := groups }) :
    ∀ {p q : Cursor}, q ∈ run data ignoreCase r p → R p q := by
  have hstep' : ∀ {admits : Char → Bool} {p q : Cursor}, q ∈ p.step admits → R p q := by
    intro admits p q h
    unfold Cursor.step at h
    split at h
    · cases h
    · next c rest hrest =>
      split at h
      · cases mem_singleton.mp h
        exact hstep p c rest hrest
      · cases h
  have hite : ∀ {c : Prop} [Decidable c] {p q : Cursor}, q ∈ (if c then [p] else []) → R p q :=
    fun h => eq_of_mem_ite h ▸ hrefl _
  induction r with
  | empty => exact fun h => mem_singleton.mp h ▸ hrefl _
  | one cls => exact hstep'
  | seq first second ihfirst ihsecond =>
    intro p q h
    obtain ⟨middle, hmiddle, hq⟩ := mem_flatMap.mp h
    exact htrans _ _ _ (ihfirst hmiddle) (ihsecond hq)
  | alt left right ihleft ihright =>
    exact fun h => (mem_append.mp h).elim ihleft ihright
  | repeated body least most greedy ih =>
    intro p q h
    have hloop : ∀ (fuel : Nat) (least : Nat) (most : Option Nat) (p : Cursor),
        q ∈ iterate (run data ignoreCase body) greedy fuel least most p → R p q := by
      intro fuel
      induction fuel using Nat.strongRecOn with
      | ind fuel ihfuel =>
        intro least most p h
        rcases mem_iterate h with ⟨rfl, _⟩ | ⟨middle, hmiddle, fuel', _, _, hq, hless⟩
        · exact hrefl _
        · exact htrans _ _ _ (ih hmiddle) (ihfuel fuel' hless _ _ middle hq)
    exact hloop _ _ _ p h
  | group name body ih =>
    intro p q h
    obtain ⟨q', hq', rfl⟩ := mem_map.mp h
    exact hgroups p q' _ (ih hq')
  | backref name =>
    intro p q h
    unfold run at h
    split at h
    · cases h
    · next text _ =>
      clear * - hrefl htrans hstep' h
      induction text generalizing p with
      | nil => exact mem_singleton.mp h ▸ hrefl _
      | cons x text ih =>
        obtain ⟨middle, hmiddle, hq⟩ := mem_flatMap.mp h
        exact htrans _ _ _ (hstep' hmiddle) (ih hq)
  | notBehind cls =>
    intro p q h
    unfold run at h
    split at h
    · cases h
    · exact mem_singleton.mp h ▸ hrefl _
  | wordBoundary => exact hite
  | textStart => exact hite
  | textEnd => exact hite
  | notAhead body => exact hite

/-- The text that a cursor is in. -/
def Cursor.text (p : Cursor) : List Char :=
  p.before.reverse ++ p.rest

theorem text_of_mem_run (h : q ∈ run data ignoreCase r p) : q.text = p.text := by
  refine rel_of_mem_run (R := fun p q => q.text = p.text) (fun _ => rfl)
    (fun _ _ _ h h' => h'.trans h) (fun p c rest hrest => ?_) (fun _ _ _ h => h) h
  unfold Cursor.text
  rw [hrest, reverse_cons, append_assoc, singleton_append]

/-! ## Patterns on one word -/

/-- Every match goes over a character. -/
def consumes : Pattern → Bool
  | .one _ => true
  | .seq first second => consumes first || consumes second
  | .alt left right => consumes left && consumes right
  | .repeated body least _ _ => decide (0 < least) && consumes body
  | .group _ body => consumes body
  | _ => false

/-- Every match begins at a word boundary. -/
def leads : Pattern → Bool
  | .wordBoundary => true
  | .seq first _ => leads first
  | _ => false

/-- Every match ends at a word boundary. -/
def trails : Pattern → Bool
  | .wordBoundary => true
  | .seq _ second => trails second
  | _ => false

/-- Every match goes over white space or has it ahead. -/
def needsSpace : Pattern → Bool
  | .one .space => true
  | .seq first second => needsSpace first || needsSpace second
  | .repeated body least _ _ => decide (0 < least) && needsSpace body
  | .notAhead (.notAhead body) => needsSpace body
  | _ => false

/-- A pattern that matches a single word as a whole or not at all. -/
def oneWord : Pattern → Bool
  | .alt left right => oneWord left && oneWord right
  | r => needsSpace r || leads r && trails r && consumes r

theorem length_of_consumes (hr : consumes r = true) :
    ∀ {p q : Cursor}, q ∈ run data ignoreCase r p → q.rest.length < p.rest.length := by
  induction r with
  | one cls =>
    intro p q h
    obtain ⟨c, hrest, _⟩ := mem_step h
    rw [hrest]
    exact Nat.lt_succ_self _
  | seq first second ihfirst ihsecond =>
    intro p q h
    obtain ⟨middle, hmiddle, hq⟩ := mem_flatMap.mp h
    have hfirst := (suffix_of_mem_run hmiddle).length_le
    have hsecond := (suffix_of_mem_run hq).length_le
    rcases Bool.or_eq_true_iff.mp hr with hr | hr
    · exact Nat.lt_of_le_of_lt hsecond (ihfirst hr hmiddle)
    · exact Nat.lt_of_lt_of_le (ihsecond hr hq) hfirst
  | alt left right ihleft ihright =>
    intro p q h
    obtain ⟨hleft, hright⟩ := Bool.and_eq_true_iff.mp hr
    exact (mem_append.mp h).elim (ihleft hleft) (ihright hright)
  | repeated body least most greedy ih =>
    intro p q h
    obtain ⟨hleast, hbody⟩ := Bool.and_eq_true_iff.mp hr
    rcases mem_iterate h with ⟨_, hzero⟩ | ⟨middle, hmiddle, _, _, _, hq, _⟩
    · exact absurd (of_decide_eq_true hleast) (by omega)
    · have hrest := (suffix_of_mem_iterate (fun _ _ h => suffix_of_mem_run h) hq).length_le
      exact Nat.lt_of_le_of_lt hrest (ih hbody hmiddle)
  | group name body ih =>
    intro p q h
    obtain ⟨q', hq', rfl⟩ := mem_map.mp h
    have hlength := ih hr hq'
    exact hlength
  | _ => cases hr

theorem exists_space_of_needsSpace (hr : needsSpace r = true) :
    ∀ {p q : Cursor}, q ∈ run data ignoreCase r p → ∃ c ∈ p.rest, Unicode.isSpace c = true := by
  fun_induction needsSpace r with
  | case1 =>
    intro p q h
    obtain ⟨c, hrest, hspace⟩ := mem_step h
    exact ⟨c, hrest ▸ mem_cons_self, hspace⟩
  | case2 first second ihfirst ihsecond =>
    intro p q h
    obtain ⟨middle, hmiddle, hq⟩ := mem_flatMap.mp h
    rcases Bool.or_eq_true_iff.mp hr with hr | hr
    · exact ihfirst hr hmiddle
    · obtain ⟨c, hc, hspace⟩ := ihsecond hr hq
      exact ⟨c, (suffix_of_mem_run hmiddle).subset hc, hspace⟩
  | case3 body least most greedy ih =>
    intro p q h
    obtain ⟨hleast, hbody⟩ := Bool.and_eq_true_iff.mp hr
    rcases mem_iterate h with ⟨_, hzero⟩ | ⟨middle, hmiddle, _⟩
    · exact absurd (of_decide_eq_true hleast) (by omega)
    · exact ih hbody hmiddle
  | case4 body ih =>
    intro p q h
    -- the look ahead has a match
    by_cases hbody : run data ignoreCase body p = []
    · have hahead : run data ignoreCase (.notAhead body) p = [p] := by
        rw [run, hbody]
        rfl
      rw [run, hahead] at h
      cases h
    · obtain ⟨q', hq'⟩ := exists_mem_of_ne_nil _ hbody
      exact ih hr hq'
  | case5 => cases hr

/-- The cursor is at a word boundary. -/
def AtEdge (data : CharData) (p : Cursor) : Prop :=
  p.before.head?.any (isWord data) ≠ p.rest.head?.any (isWord data)

theorem atEdge_of_mem_wordBoundary (h : q ∈ run data ignoreCase .wordBoundary p) :
    AtEdge data p ∧ q = p := by
  unfold run at h
  split at h
  · next hedge => exact ⟨bne_iff_ne.mp hedge, mem_singleton.mp h⟩
  · cases h

theorem atEdge_of_leads (hr : leads r = true) :
    ∀ {p q : Cursor}, q ∈ run data ignoreCase r p → AtEdge data p := by
  induction r with
  | wordBoundary => exact fun h => (atEdge_of_mem_wordBoundary h).1
  | seq first second ihfirst =>
    intro p q h
    obtain ⟨middle, hmiddle, _⟩ := mem_flatMap.mp h
    exact ihfirst hr hmiddle
  | _ => cases hr

theorem atEdge_of_trails (hr : trails r = true) :
    ∀ {p q : Cursor}, q ∈ run data ignoreCase r p → AtEdge data q := by
  induction r with
  | wordBoundary =>
    intro p q h
    obtain ⟨hedge, rfl⟩ := atEdge_of_mem_wordBoundary h
    exact hedge
  | seq first second _ ihsecond =>
    intro p q h
    obtain ⟨_, _, hq⟩ := mem_flatMap.mp h
    exact ihsecond hr hq
  | _ => cases hr

/-- A text of word characters. -/
def IsWordText (data : CharData) (text : List Char) : Prop :=
  ∀ c ∈ text, isWord data c = true ∧ Unicode.isSpace c = false

/-- Inside a word there is no boundary: a match of such a pattern is the whole text. -/
theorem whole_of_oneWord (hr : oneWord r = true) (htext : IsWordText data p.text)
    (h : q ∈ run data ignoreCase r p) : p.before = [] ∧ q.rest = [] ∧ p.rest ≠ [] := by
  induction r with
  | alt left right ihleft ihright =>
    obtain ⟨hleft, hright⟩ := Bool.and_eq_true_iff.mp hr
    exact (mem_append.mp h).elim (ihleft hleft) (ihright hright)
  | _ =>
    rcases Bool.or_eq_true_iff.mp hr with hspace | hedges
    · obtain ⟨c, hc, hisSpace⟩ := exists_space_of_needsSpace hspace h
      have hnot := (htext c (mem_append_right _ hc)).2
      rw [hisSpace] at hnot
      cases hnot
    · obtain ⟨hboth, hconsumes⟩ := Bool.and_eq_true_iff.mp hedges
      obtain ⟨hleads, htrails⟩ := Bool.and_eq_true_iff.mp hboth
      have hlength := length_of_consumes hconsumes h
      have hsame := text_of_mem_run h
      have hword : ∀ s : Cursor, s.text = p.text → AtEdge data s →
          s.before = [] ∨ s.rest = [] := by
        intro s hs hedge
        rcases hb : s.before with _ | ⟨b, before⟩
        · exact .inl rfl
        · rcases hc : s.rest with _ | ⟨c, rest⟩
          · exact .inr rfl
          · refine absurd ?_ hedge
            have hbefore : b ∈ p.text := by
              rw [← hs, Cursor.text, hb]
              simp
            have hafter : c ∈ p.text := by
              rw [← hs, Cursor.text, hc]
              simp
            rw [hb, hc]
            exact (htext b hbefore).1.trans (htext c hafter).1.symm
      have hpRest : p.rest ≠ [] := ne_nil_of_length_pos (Nat.zero_lt_of_lt hlength)
      have hpBefore := (hword p rfl (atEdge_of_leads hleads h)).resolve_right hpRest
      refine ⟨hpBefore, (hword q hsame (atEdge_of_trails htrails h)).resolve_left ?_, hpRest⟩
      intro hqBefore
      have hlengths := congrArg List.length hsame
      rw [Cursor.text, Cursor.text, hpBefore, hqBefore] at hlengths
      simp only [reverse_nil, nil_append] at hlengths
      omega

/-- On a single word the substitution replaces all of it or nothing. -/
theorem sub_oneWord (hr : oneWord r = true) (replacement : List Char) {text : List Char}
    (htext : IsWordText data text) :
    sub data ignoreCase r replacement text =
      if fullMatch data ignoreCase r text then replacement else text := by
  have hstart : (Cursor.start text).text = text := nil_append text
  cases hrun : run data ignoreCase r (.start text) with
  | nil =>
    have hfull : fullMatch data ignoreCase r text = false := by
      rw [fullMatch, hrun]
      rfl
    rw [hfull, if_neg Bool.false_ne_true]
    refine subFrom_eq_self replacement fun taken c more heq => ?_
    cases taken with
    | nil =>
      rw [nil_append] at heq
      rw [heq] at hrun
      exact hrun
    | cons d taken =>
      refine eq_nil_iff_forall_not_mem.mpr fun q hq => ?_
      have hhere : Cursor.text ⟨(d :: taken).reverse ++ [], c :: more, []⟩ = text := by
        rw [Cursor.text, append_nil, reverse_reverse, heq]
      have hbefore := (whole_of_oneWord hr (hhere ▸ htext) hq).1
      simp at hbefore
  | cons q ends =>
    have hmem : q ∈ run data ignoreCase r (.start text) := hrun ▸ mem_cons_self
    obtain ⟨-, hrest, hne⟩ := whole_of_oneWord hr (hstart ▸ htext) hmem
    have hfull : fullMatch data ignoreCase r text = true :=
      any_eq_true.mpr ⟨q, hmem, by rw [hrest]; rfl⟩
    have hhead : (run data ignoreCase r ⟨[], text ++ [], []⟩).head? = some q := by
      rw [append_nil]
      exact congrArg head? hrun
    rw [hfull, if_pos rfl]
    have hsub := subFrom_of_match replacement hne hhead hrest
    rw [append_nil] at hsub
    exact hsub.trans (append_nil _)

end ResiliencyExt.Foundation.Regex
