import ResiliencyExt.FaultTolerance.PerCycleLogs.ReadCuts

set_option autoImplicit false

/-!
# Per-cycle logs: the lines of a badly cut stream

Cut in any way that leaves the characters whole, a stream is assembled into
groups of consecutive lines of the whole stream: a group is one line to the
filter and gets one prefix.  A cut after a line end other than the line feed
makes a group of two lines or more (`exists_grouping`).

What is queued for the groups then differs from what is queued for the lines
(`singleton_of_queued_eq`).  The queued text determines the queued lines, since
each of them closes before the next.  Comparing these, a group that is kept
holds only lines that are kept, since none but its first can begin with a
prefix otherwise; by their number no kept line is in a dropped group; by their
length a kept group has one prefix for each line, so it is one line; and a
dropped group is one line since it has two words, and so has each of its lines.
-/

namespace ResiliencyExt.FaultTolerance.PerCycleLogs

open Foundation SplitLines Unicode List

/-- The line ends in a line end. -/
def LineEnded (line : Text) : Prop :=
  ∃ c, line.getLast? = some c ∧ isLineEnd c = true

variable {line text pre : Text} {lines texts pending group : List Text}
    {groups : List (List Text)}

theorem lineEnded_of_closes {following : Option Char} (h : closes line following = true) :
    LineEnded line := by
  rw [SplitLines.closes] at h
  cases hlast : line.getLast? with
  | none =>
    rw [hlast] at h
    cases h
  | some c =>
    rw [hlast, Option.any_some, breaks, Bool.and_eq_true] at h
    exact ⟨c, hlast, h.1⟩

theorem lineEnded_of_endsWithNewline (h : endsWithNewline line = true) : LineEnded line :=
  lineEnded_of_closes (closes_of_endsWithNewline h none)

/-- A line that ends closes before any text that does not begin with a line feed. -/
theorem LineEnded.closes (h : LineEnded line) {following : Option Char}
    (hnext : following ≠ some '\n') : closes line following = true := by
  obtain ⟨c, hc, hend⟩ := h
  rw [SplitLines.closes, hc, Option.any_some, breaks, hend, Bool.true_and,
    beq_eq_false_iff_ne.mpr hnext, Bool.and_false, Bool.not_false]

/-- Lines before other lines have ended. -/
theorem lineEnded_of_separate (h : Separate lines) :
    ∀ line ∈ lines.dropLast, LineEnded line := by
  have hchain := h.chain
  clear h
  induction lines with
  | nil => exact fun _ hmem => absurd hmem not_mem_nil
  | cons first rest ih =>
    cases rest with
    | nil => exact fun _ hmem => absurd hmem not_mem_nil
    | cons second rest =>
      obtain ⟨hclose, hrest⟩ := isChain_cons_cons.mp hchain
      intro line hmem
      rcases mem_cons.mp hmem with rfl | hmem
      · exact lineEnded_of_closes hclose
      · exact ih hrest line hmem

/-! ## Groups of lines -/

/-- The complete groups and the pending one after some texts: together they are the lines of
the text, and a cut after a line end made one of them longer than one line. -/
structure Grouping (texts : List Text) (groups : List (List Text)) (pending : List Text) :
    Prop where
  lines : groups.flatten ++ pending = splitlines texts.flatten
  state : assembleTexts texts =
    (groups.map flatten, if pending = [] then none else some pending.flatten)
  nonempty : ∀ group ∈ groups, group ≠ []
  newline : endsWithNewline texts.flatten = true ∨ texts.flatten = [] ↔ pending = []
  long : ∀ before text after, texts = before ++ text :: after →
    endsLineOtherwise before.flatten text = true →
      ∃ group ∈ pending :: groups, 2 ≤ group.length

theorem endsWithNewline_append (xs : Text) {ys : Text} (h : ys ≠ []) :
    endsWithNewline (xs ++ ys) = endsWithNewline ys := by
  rw [endsWithNewline, endsWithNewline, getLast?_append_of_ne_nil xs h]

/-- The next text turns the pending group into the first of some new groups, the last of which
is pending unless it ends in a line feed. -/
theorem Grouping.extend (h : Grouping texts groups pending) (htext : text ≠ [])
    (new : List (List Text)) (last : List Text) (hnonempty : ∀ group ∈ new ++ [last], group ≠ [])
    (hlines : groups.flatten ++ (new ++ [last]).flatten = splitlines (texts.flatten ++ text))
    (hstate : assembleLines (if pending = [] then none else some pending.flatten) text =
      popIncomplete ((new ++ [last]).map flatten))
    (hlast : endsWithNewline last.flatten = endsWithNewline text)
    (hpending : 2 ≤ pending.length → ∃ group ∈ new ++ [last], 2 ≤ group.length)
    (hlong : endsLineOtherwise texts.flatten text = true →
      ∃ group ∈ new ++ [last], 2 ≤ group.length) :
    ∃ groups' pending', Grouping (texts ++ [text]) groups' pending' := by
  have hflat : (texts ++ [text]).flatten = texts.flatten ++ text := by simp
  have hmap : (new ++ [last]).map flatten = new.map flatten ++ [last.flatten] := by simp
  have hnew : ∀ before t after, texts ++ [text] = before ++ t :: after →
      endsLineOtherwise before.flatten t = true →
        ∃ group ∈ groups ++ (new ++ [last]), 2 ≤ group.length := by
    intro before t after heq hcut
    rcases eq_nil_or_concat' after with rfl | ⟨init, final, rfl⟩
    · obtain ⟨hbefore, ht⟩ := append_inj' heq rfl
      cases ht
      subst hbefore
      obtain ⟨group, hmem, htwo⟩ := hlong hcut
      exact ⟨group, mem_append_right _ hmem, htwo⟩
    · have hinit : texts ++ [text] = (before ++ t :: init) ++ [final] := by rw [heq]; simp
      obtain ⟨htexts, -⟩ := append_inj' hinit rfl
      obtain ⟨group, hmem, htwo⟩ := h.long before t init htexts hcut
      rcases mem_cons.mp hmem with rfl | hmem
      · obtain ⟨group', hmem', htwo'⟩ := hpending htwo
        exact ⟨group', mem_append_right _ hmem', htwo'⟩
      · exact ⟨group, mem_append_left _ hmem, htwo⟩
  have hassembled : assembleTexts (texts ++ [text]) =
      (groups.map flatten ++ (popIncomplete ((new ++ [last]).map flatten)).1,
        (popIncomplete ((new ++ [last]).map flatten)).2) := by
    rw [assembleTexts_concat, h.state, hstate]
  rw [hmap, popIncomplete_concat, hlast] at hassembled
  have hends : endsWithNewline (texts.flatten ++ text) = endsWithNewline text :=
    endsWithNewline_append _ htext
  cases hnewline : endsWithNewline text with
  | true =>
    rw [hnewline, if_pos rfl] at hassembled
    refine ⟨groups ++ (new ++ [last]), [], ?_⟩
    exact
      { lines := by
          rw [append_nil, flatten_append, hlines, hflat]
        state := by
          rw [hassembled, if_pos rfl, map_append, hmap]
        nonempty := fun group hgroup => (mem_append.mp hgroup).elim (h.nonempty group)
          (hnonempty group)
        newline := by
          rw [hflat, hends, hnewline]
          exact iff_of_true (.inl rfl) rfl
        long := fun before t after heq hcut => by
          obtain ⟨group, hmem, htwo⟩ := hnew before t after heq hcut
          exact ⟨group, mem_cons_of_mem _ hmem, htwo⟩ }
  | false =>
    have hlastne : last ≠ [] := hnonempty last (mem_append_right _ mem_cons_self)
    rw [hnewline, if_neg Bool.false_ne_true] at hassembled
    refine ⟨groups ++ new, last, ?_⟩
    exact
      { lines := by
          rw [hflat, ← hlines, flatten_append, flatten_append, flatten_singleton,
            append_assoc]
        state := by
          rw [hassembled, if_neg hlastne, map_append]
        nonempty := fun group hgroup => (mem_append.mp hgroup).elim (h.nonempty group)
          fun hmem => hnonempty group (mem_append_left _ hmem)
        newline := by
          rw [hflat, hends, hnewline]
          refine iff_of_false (fun hor => ?_) hlastne
          rcases hor with hfalse | hnil
          · cases hfalse
          · exact htext (append_eq_nil_iff.mp hnil).2
        long := fun before t after heq hcut => by
          obtain ⟨group, hmem, htwo⟩ := hnew before t after heq hcut
          refine ⟨group, ?_, htwo⟩
          rw [← append_assoc, mem_append, mem_singleton] at hmem
          exact mem_cons.mpr hmem.symm }

theorem flatten_map_singleton (lines : List Text) :
    (lines.map fun line => [line]).flatten = lines := by
  induction lines with
  | nil => rfl
  | cons line lines ih => rw [map_cons, flatten_cons, ih, singleton_append]

theorem map_flatten_map_singleton (lines : List Text) :
    (lines.map fun line => [line]).map flatten = lines := by
  rw [map_map]
  exact (map_congr_left fun line _ => append_nil line).trans (map_id _)

/-- With nothing pending every line of the next text is a group. -/
theorem Grouping.extend_closed (h : Grouping texts groups []) (htext : text ≠ []) :
    ∃ groups' pending', Grouping (texts ++ [text]) groups' pending' := by
  obtain ⟨init, last, hsplit⟩ :=
    (eq_nil_or_concat' _).resolve_left (splitlines_ne_nil htext)
  have hsingle : (init.map fun line => [line]) ++ [[last]] =
      (splitlines text).map fun line => [line] := by rw [hsplit]; simp
  have hclosed : texts.flatten = [] ∨ ∀ following, closes texts.flatten following = true :=
    (h.newline.mpr rfl).symm.imp_right closes_of_endsWithNewline
  have hjoin := flatten_splitlines text
  have hlastne : last ≠ [] := ne_nil_of_mem_splitlines text last (by rw [hsplit]; simp)
  refine h.extend htext (init.map fun line => [line]) [last] ?_ ?_ ?_ ?_ ?_ ?_
  · rw [hsingle]
    intro group hgroup
    obtain ⟨line, -, rfl⟩ := mem_map.mp hgroup
    exact cons_ne_nil line []
  · rw [hsingle, flatten_map_singleton]
    have hlines := h.lines
    rw [append_nil] at hlines
    rcases hclosed with hempty | hclosed
    · rw [hlines, hempty]
      rfl
    · by_cases hempty : texts.flatten = []
      · rw [hlines, hempty]
        rfl
      · rw [splitlines_append hempty, if_pos (hclosed _), hlines]
  · rw [if_pos rfl, hsingle, map_flatten_map_singleton, assembleLines_of_ne_nil _ htext]
  · rw [← hjoin, hsplit, flatten_append, flatten_singleton,
      endsWithNewline_append _ hlastne]
  · exact fun htwo => absurd htwo (by decide)
  · intro hcut
    rw [endsLineOtherwise, Bool.and_eq_true, Bool.not_eq_true'] at hcut
    rcases h.newline.mpr rfl with hnewline | hempty
    · rw [hnewline] at hcut
      cases hcut.2
    · rw [hempty] at hcut
      cases hcut.1

/-- A pending group goes on with the first line of the next text: as one line, or with a line
more if its last line has ended. -/
theorem Grouping.extend_pending {front : List Text} (h : Grouping texts groups (front ++ [line]))
    (htext : text ≠ []) : ∃ groups' pending', Grouping (texts ++ [text]) groups' pending' := by
  have hpending : front ++ [line] ≠ [] := by simp
  have hempty : texts.flatten ≠ [] := fun hnil => hpending (h.newline.mp (.inr hnil))
  obtain ⟨first, rest, hsplit⟩ := exists_cons_of_ne_nil (splitlines_ne_nil htext)
  -- The group that the pending one becomes.
  let grown := if closes texts.flatten text.head? then front ++ [line, first]
    else front ++ [line ++ first]
  have hgrown : grown ≠ [] := by
    dsimp only [grown]
    split <;> simp
  have hflatten : grown.flatten = (front ++ [line]).flatten ++ first := by
    dsimp only [grown]
    split <;> simp
  have hfirst : first ≠ [] :=
    ne_nil_of_mem_splitlines text first (hsplit ▸ mem_cons_self)
  obtain ⟨new, last, hnew⟩ := (eq_nil_or_concat' (grown :: rest.map fun l => [l])).resolve_left
    (cons_ne_nil _ _)
  have hall : (grown :: rest.map fun l => [l]).map flatten =
      joinFirst (front ++ [line]).flatten (splitlines text) := by
    rw [map_cons, map_flatten_map_singleton, hflatten, hsplit]
    rfl
  have hflat : (grown :: rest.map fun l => [l]).flatten = grown ++ rest := by
    rw [flatten_cons, flatten_map_singleton]
  have hnonempty : ∀ group ∈ new ++ [last], group ≠ [] := by
    rw [← hnew]
    intro group hgroup
    rcases mem_cons.mp hgroup with rfl | hgroup
    · exact hgrown
    · obtain ⟨l, -, rfl⟩ := mem_map.mp hgroup
      exact cons_ne_nil l []
  refine h.extend htext new last hnonempty ?_ ?_ ?_ ?_ ?_
  · have hassoc : groups.flatten ++ (front ++ [line]) = (groups.flatten ++ front) ++ [line] :=
      (append_assoc _ _ _).symm
    rw [← hnew, hflat, splitlines_append hempty, ← h.lines, hsplit, hassoc, glue_concat]
    dsimp only [grown]
    split <;> simp [joinFirst]
  · rw [if_neg hpending, ← hnew, hall, assembleLines_of_ne_nil _ htext]
  · have hjoin : ((new ++ [last]).map flatten).flatten =
        (front ++ [line]).flatten ++ text := by
      rw [← hnew, hall, flatten_joinFirst, flatten_splitlines]
    have hlast : last.flatten ≠ [] := by
      have hmem : last.flatten ∈ joinFirst (front ++ [line]).flatten (splitlines text) := by
        rw [← hall, hnew]
        simp
      rw [hsplit] at hmem
      rcases mem_cons.mp hmem with heq | hmem
      · rw [heq]
        exact append_ne_nil_of_right_ne_nil _ hfirst
      · exact ne_nil_of_mem_splitlines text _ (hsplit ▸ mem_cons_of_mem _ hmem)
    rw [map_append, flatten_append, map_singleton, flatten_singleton] at hjoin
    rw [← endsWithNewline_append ((new.map flatten).flatten) hlast, hjoin,
      endsWithNewline_append _ htext]
  · intro htwo
    refine ⟨grown, hnew ▸ mem_cons_self, ?_⟩
    dsimp only [grown]
    rw [length_append, length_singleton] at htwo
    split <;> simp only [length_append, length_cons, length_nil] <;> omega
  · intro hcut
    refine ⟨grown, hnew ▸ mem_cons_self, ?_⟩
    rw [endsLineOtherwise, Bool.and_eq_true] at hcut
    dsimp only [grown]
    rw [if_pos hcut.1]
    simp

/-- Every sequence of texts is assembled into groups of lines. -/
theorem exists_grouping (texts : List Text) (hne : ∀ text ∈ texts, text ≠ []) :
    ∃ groups pending, Grouping texts groups pending := by
  induction texts using reverseRecOn with
  | nil =>
    refine ⟨[], [], ?_⟩
    exact
      { lines := rfl
        state := rfl
        nonempty := fun _ hmem => absurd hmem not_mem_nil
        newline := iff_of_true (.inr rfl) rfl
        long := fun before text after heq => by simp at heq }
  | append_singleton texts text ih =>
    have htext : text ≠ [] := hne text (mem_append_right _ mem_cons_self)
    obtain ⟨groups, pending, h⟩ := ih fun t ht => hne t (mem_append_left _ ht)
    rcases eq_nil_or_concat' pending with rfl | ⟨front, line, rfl⟩
    · exact h.extend_closed htext
    · exact h.extend_pending htext

/-! ## Comparing what is queued -/

/-- What the comparison needs of a rank's prefix. -/
structure LinePrefix (pre : Text) : Prop where
  nonempty : pre ≠ []
  not_lineEnd : ∀ c ∈ pre, isLineEnd c = false
  not_replacement : Utf8.replacement ∉ pre
  kept : ∀ line, shouldFilterLine (pre ++ line) = false

/-- The lines that are queued for some lines. -/
def queuedLines (pre : Text) (lines : List Text) : List Text :=
  (lines.filter fun line => !shouldFilterLine line).map fun line => pre ++ line

/-- The lines that are queued for some groups, of which only the first has the prefix. -/
def queuedGroupLines (pre : Text) (groups : List (List Text)) : List Text :=
  (groups.filter fun group => !shouldFilterLine group.flatten).flatMap (joinFirst pre)

theorem flatten_queuedLines (pre : Text) (lines : List Text) :
    (queuedLines pre lines).flatten = lines.flatMap (renderLine pre) := by
  induction lines with
  | nil => rfl
  | cons line lines ih =>
    rw [flatMap_cons, ← ih, queuedLines, renderLine]
    cases hnoise : shouldFilterLine line with
    | true => simp [queuedLines, hnoise]
    | false => simp [queuedLines, hnoise]

theorem flatten_queuedGroupLines (pre : Text) (groups : List (List Text)) :
    (queuedGroupLines pre groups).flatten =
      (groups.map flatten).flatMap (renderLine pre) := by
  induction groups with
  | nil => rfl
  | cons group groups ih =>
    rw [map_cons, flatMap_cons, ← ih, queuedGroupLines, renderLine]
    cases hnoise : shouldFilterLine group.flatten with
    | true => simp [queuedGroupLines, hnoise]
    | false => simp [queuedGroupLines, hnoise, flatten_joinFirst]

theorem LinePrefix.head?_ne (h : LinePrefix pre) : pre.head? ≠ some '\n' := by
  intro hhead
  have hend := h.not_lineEnd '\n' (mem_of_head? hhead)
  exact absurd hend (by decide)

theorem LinePrefix.head?_append (h : LinePrefix pre) (line : Text) :
    (pre ++ line).head? ≠ some '\n' := by
  rw [head?_append_of_ne_nil pre h.nonempty]
  exact h.head?_ne

theorem lineEnded_append (pre : Text) (h : LineEnded line) : LineEnded (pre ++ line) := by
  obtain ⟨c, hc, hend⟩ := h
  refine ⟨c, ?_, hend⟩
  rw [getLast?_append, hc, Option.some_or]

theorem separate_queuedLines (h : LinePrefix pre)
    (hsingle : ∀ line ∈ lines, splitlines line = [line])
    (hended : ∀ line ∈ lines, LineEnded line) : Separate (queuedLines pre lines) := by
  have hmem : ∀ queued ∈ queuedLines pre lines, ∃ line ∈ lines, queued = pre ++ line := by
    intro queued hqueued
    obtain ⟨line, hline, rfl⟩ := mem_map.mp hqueued
    exact ⟨line, (mem_filter.mp hline).1, rfl⟩
  refine ⟨fun queued hqueued => ?_, (pairwise_of_forall_mem_list ?_).isChain⟩
  · obtain ⟨line, hline, rfl⟩ := hmem queued hqueued
    exact splitlines_append_of_plain h.not_lineEnd (hsingle line hline)
  · intro queued hqueued next hnext
    obtain ⟨line, hline, rfl⟩ := hmem queued hqueued
    obtain ⟨following, -, rfl⟩ := hmem next hnext
    exact (lineEnded_append pre (hended line hline)).closes (h.head?_append following)

theorem separate_joinFirst (h : LinePrefix pre) (hne : group ≠ []) (hgroup : Separate group) :
    Separate (joinFirst pre group) := by
  obtain ⟨line, rest, rfl⟩ := exists_cons_of_ne_nil hne
  have hself := hgroup.single line mem_cons_self
  have hline : line ≠ [] := fun hnil => by
    rw [hnil] at hself
    cases hself
  refine ⟨fun l hl => ?_, ?_⟩
  · rcases mem_cons.mp hl with rfl | hl
    · exact splitlines_append_of_plain h.not_lineEnd hself
    · exact hgroup.single l (mem_cons_of_mem line hl)
  · cases rest with
    | nil => exact .singleton _
    | cons second rest =>
      obtain ⟨hclose, hrest⟩ := isChain_cons_cons.mp hgroup.chain
      refine isChain_cons_cons.mpr ⟨?_, hrest⟩
      rw [closes, getLast?_append_of_ne_nil pre hline]
      exact hclose

theorem head?_flatMap_joinFirst (pre : Text) (hne : ∀ group ∈ groups, group ≠ []) :
    ∀ line ∈ (groups.flatMap (joinFirst pre)).head?, ∃ rest, line = pre ++ rest := by
  cases groups with
  | nil => exact fun _ hmem => by cases hmem
  | cons group groups =>
    obtain ⟨first, rest, rfl⟩ := exists_cons_of_ne_nil (hne group mem_cons_self)
    intro line hmem
    cases hmem
    exact ⟨first, rfl⟩

theorem separate_flatMap_joinFirst (h : LinePrefix pre) (groups : List (List Text))
    (hne : ∀ group ∈ groups, group ≠ []) (hseparate : ∀ group ∈ groups, Separate group)
    (hended : ∀ group ∈ groups, ∀ line ∈ group, LineEnded line) :
    Separate (groups.flatMap (joinFirst pre)) := by
  induction groups with
  | nil => exact ⟨fun _ hmem => absurd hmem not_mem_nil, .nil⟩
  | cons group groups ih =>
    have hgroup := separate_joinFirst h (hne group mem_cons_self)
      (hseparate group mem_cons_self)
    have hrest := ih (fun g hg => hne g (mem_cons_of_mem _ hg))
      (fun g hg => hseparate g (mem_cons_of_mem _ hg))
      fun g hg => hended g (mem_cons_of_mem _ hg)
    rw [flatMap_cons]
    refine ⟨fun line hline => (mem_append.mp hline).elim (hgroup.single line)
      (hrest.single line), List.isChain_append.mpr ⟨hgroup.chain, hrest.chain, ?_⟩⟩
    intro line hline next hnext
    obtain ⟨following, rfl⟩ := head?_flatMap_joinFirst pre
      (fun g hg => hne g (mem_cons_of_mem _ hg)) next hnext
    refine LineEnded.closes ?_ (h.head?_append following)
    obtain ⟨first, rest, rfl⟩ := exists_cons_of_ne_nil (hne group mem_cons_self)
    rcases mem_cons.mp (mem_of_getLast? hline) with rfl | hmem
    · exact lineEnded_append pre (hended _ mem_cons_self first mem_cons_self)
    · exact hended _ mem_cons_self line (mem_cons_of_mem first hmem)

/-! ## Counting -/

theorem sum_map_le {α : Type} {f g : α → Nat} {xs : List α} (hle : ∀ x ∈ xs, f x ≤ g x) :
    (xs.map f).sum ≤ (xs.map g).sum := by
  induction xs with
  | nil => exact Nat.le_refl _
  | cons y ys ih =>
    simp only [map_cons, sum_cons]
    exact Nat.add_le_add (hle y mem_cons_self)
      (ih fun x hx => hle x (mem_cons_of_mem y hx))

/-- Sums of numbers in order are equal only if the numbers are. -/
theorem eq_of_sum_eq {α : Type} {f g : α → Nat} {xs : List α} (hle : ∀ x ∈ xs, f x ≤ g x)
    (hsum : (xs.map f).sum = (xs.map g).sum) : ∀ x ∈ xs, f x = g x := by
  induction xs with
  | nil => exact fun _ hmem => absurd hmem not_mem_nil
  | cons y ys ih =>
    have hy := hle y mem_cons_self
    have hys : (ys.map f).sum ≤ (ys.map g).sum :=
      sum_map_le fun x hx => hle x (mem_cons_of_mem y hx)
    simp only [map_cons, sum_cons] at hsum
    intro x hmem
    rcases mem_cons.mp hmem with rfl | hmem
    · omega
    · exact ih (fun x hx => hle x (mem_cons_of_mem y hx)) (by omega) x hmem

/-- Words of lines that have ended are the words of the lines. -/
theorem words_flatten (hended : ∀ line ∈ lines, LineEnded line) :
    words lines.flatten = (lines.map words).sum := by
  induction lines with
  | nil => rfl
  | cons line lines ih =>
    obtain ⟨c, hlast, hend⟩ := hended line mem_cons_self
    rw [flatten_cons, words_append hlast (isSpace_of_isLineEnd hend), map_cons,
      sum_cons, ih fun l hl => hended l (mem_cons_of_mem line hl)]

/-- Noise taken for one line is kept, unless it is one line. -/
theorem length_of_all_noise (hended : ∀ line ∈ group, LineEnded line)
    (hlines : ∀ line ∈ group, shouldFilterLine line = true)
    (hgroup : shouldFilterLine group.flatten = true) : group.length = 1 := by
  have hsum : ∀ lines : List Text, (∀ line ∈ lines, shouldFilterLine line = true) →
      (lines.map words).sum = 2 * lines.length := by
    intro lines
    induction lines with
    | nil => exact fun _ => rfl
    | cons line lines ih =>
      intro hnoise
      rw [map_cons, sum_cons, ih fun l hl => hnoise l (mem_cons_of_mem _ hl),
        words_of_shouldFilterLine (hnoise line mem_cons_self), length_cons]
      omega
  have hwords := words_of_shouldFilterLine hgroup
  rw [words_flatten hended, hsum group hlines] at hwords
  omega

/-- The text that is queued for a group whose lines are kept has a prefix for each of them. -/
theorem length_flatMap_renderLine (hkept : ∀ line ∈ group, shouldFilterLine line = false) :
    (group.flatMap (renderLine pre)).length = pre.length * group.length + group.flatten.length := by
  induction group with
  | nil => rfl
  | cons line lines ih =>
    have hline := hkept line mem_cons_self
    rw [flatMap_cons, length_append, ih fun l hl => hkept l (mem_cons_of_mem _ hl),
      renderLine, hline, flatten_cons, length_append, length_cons]
    simp only [Bool.false_eq_true, if_false, length_append, Nat.mul_add, Nat.mul_one]
    omega

theorem length_queuedGroupLines (pre : Text) (hne : ∀ group ∈ groups, group ≠ []) :
    (queuedGroupLines pre groups).length =
      (groups.map fun group =>
        if shouldFilterLine group.flatten = true then 0 else group.length).sum := by
  induction groups with
  | nil => rfl
  | cons group groups ih =>
    obtain ⟨first, rest, rfl⟩ := exists_cons_of_ne_nil (hne group mem_cons_self)
    rw [map_cons, sum_cons, ← ih fun g hg => hne g (mem_cons_of_mem _ hg),
      queuedGroupLines, filter_cons]
    cases hnoise : shouldFilterLine (first :: rest).flatten with
    | true =>
      simp only [Bool.not_true, Bool.false_eq_true, if_false, if_true, Nat.zero_add]
      rfl
    | false =>
      simp only [Bool.not_false, Bool.false_eq_true, if_false, if_true, flatMap_cons,
        length_append]
      rfl

theorem length_flatMap_flatten (f : Text → Text) (groups : List (List Text)) :
    (groups.flatten.flatMap f).length =
      (groups.map fun group => (group.flatMap f).length).sum := by
  induction groups with
  | nil => rfl
  | cons group groups ih =>
    rw [flatten_cons, flatMap_append, length_append, ih, map_cons,
      sum_cons]

/-- Groups for which the same text is queued as for their lines are single lines. -/
theorem singleton_of_queued_eq (h : LinePrefix pre) (hne : ∀ group ∈ groups, group ≠ [])
    (hseparate : ∀ group ∈ groups, Separate group)
    (hended : ∀ group ∈ groups, ∀ line ∈ group, LineEnded line)
    (heq : (groups.map flatten).flatMap (renderLine pre) =
      groups.flatten.flatMap (renderLine pre)) :
    ∀ group ∈ groups, group.length = 1 := by
  have hsingle : ∀ line ∈ groups.flatten, splitlines line = [line] := by
    intro line hline
    obtain ⟨group, hgroup, hmem⟩ := mem_flatten.mp hline
    exact (hseparate group hgroup).single line hmem
  have hallEnded : ∀ line ∈ groups.flatten, LineEnded line := by
    intro line hline
    obtain ⟨group, hgroup, hmem⟩ := mem_flatten.mp hline
    exact hended group hgroup line hmem
  -- The text determines the queued lines.
  have hlines : queuedGroupLines pre groups = queuedLines pre groups.flatten := by
    have hkept : ∀ group ∈ groups.filter fun group => !shouldFilterLine group.flatten,
        group ∈ groups := fun group hgroup => (mem_filter.mp hgroup).1
    have hgroups : splitlines (queuedGroupLines pre groups).flatten =
        queuedGroupLines pre groups :=
      splitlines_flatten (separate_flatMap_joinFirst h _ (fun g hg => hne g (hkept g hg))
        (fun g hg => hseparate g (hkept g hg)) fun g hg => hended g (hkept g hg))
    have hwhole := splitlines_flatten (separate_queuedLines h hsingle hallEnded)
    rw [← hgroups, ← hwhole, flatten_queuedGroupLines, flatten_queuedLines, heq]
  -- A kept group holds kept lines.
  have hkept : ∀ group ∈ groups, shouldFilterLine group.flatten = false →
      ∀ line ∈ group, shouldFilterLine line = false := by
    intro group hgroup hkeptGroup
    have hqueued : ∀ queued ∈ joinFirst pre group, ∃ line, shouldFilterLine line = false ∧
        pre ++ line = queued := by
      intro queued hqueued
      have hmem : queued ∈ queuedLines pre groups.flatten := by
        rw [← hlines]
        refine mem_flatMap.mpr ⟨group, mem_filter.mpr ⟨hgroup, ?_⟩, hqueued⟩
        rw [hkeptGroup]
        rfl
      obtain ⟨line, hline, rfl⟩ := mem_map.mp hmem
      exact ⟨line, by simpa using (mem_filter.mp hline).2, rfl⟩
    obtain ⟨first, rest, rfl⟩ := exists_cons_of_ne_nil (hne group hgroup)
    intro line hline
    rcases mem_cons.mp hline with rfl | hline
    · obtain ⟨other, hother, hsame⟩ := hqueued (pre ++ line) mem_cons_self
      exact append_cancel_left hsame ▸ hother
    · obtain ⟨other, -, hsame⟩ := hqueued line (mem_cons_of_mem _ hline)
      exact hsame ▸ h.kept other
  -- By their number, all kept lines are in kept groups.
  have hnumber : ∀ group ∈ groups,
      (if shouldFilterLine group.flatten = true then 0 else group.length) =
        (group.filter fun line => !shouldFilterLine line).length := by
    refine eq_of_sum_eq (fun group hgroup => ?_) ?_
    · split
      · exact Nat.zero_le _
      · rename_i hkeptGroup
        have hall := hkept group hgroup (Bool.eq_false_iff.mpr hkeptGroup)
        rw [filter_eq_self.mpr fun line hline => by rw [hall line hline]; rfl]
    · have hcount := congrArg List.length hlines
      have hright : (queuedLines pre groups.flatten).length =
          (groups.map fun group =>
            (group.filter fun line => !shouldFilterLine line).length).sum := by
        rw [queuedLines, length_map, filter_flatten, length_flatten, map_map]
        rfl
      rw [← length_queuedGroupLines pre hne, hcount, hright]
  have hdropped : ∀ group ∈ groups, shouldFilterLine group.flatten = true →
      ∀ line ∈ group, shouldFilterLine line = true := by
    intro group hgroup hnoise line hline
    have hzero := hnumber group hgroup
    rw [if_pos hnoise] at hzero
    by_contra hkeptLine
    have hmem : line ∈ group.filter fun line => !shouldFilterLine line :=
      mem_filter.mpr ⟨hline, by simpa using hkeptLine⟩
    rw [length_eq_zero_iff.mp hzero.symm] at hmem
    exact absurd hmem not_mem_nil
  -- By the length of the text, a kept group has one prefix for each line.
  have hlength : ∀ group ∈ groups, (renderLine pre group.flatten).length =
      (group.flatMap (renderLine pre)).length := by
    refine eq_of_sum_eq (fun group hgroup => ?_) ?_
    · rw [renderLine]
      split
      · exact Nat.zero_le _
      · rename_i hkeptGroup
        have hpos : 1 ≤ group.length := length_pos_of_ne_nil (hne group hgroup)
        have hmul := Nat.mul_le_mul_left pre.length hpos
        rw [length_flatMap_renderLine (hkept group hgroup (Bool.eq_false_iff.mpr hkeptGroup)),
          length_append]
        omega
    · have htext := congrArg List.length heq
      rw [length_flatMap_flatten, length_flatMap, map_map] at htext
      exact htext
  intro group hgroup
  cases hnoise : shouldFilterLine group.flatten with
  | true =>
    exact length_of_all_noise (hended group hgroup) (hdropped group hgroup hnoise) hnoise
  | false =>
    have hsame := hlength group hgroup
    have hpre : 0 < pre.length := length_pos_of_ne_nil h.nonempty
    rw [length_flatMap_renderLine (hkept group hgroup hnoise), renderLine, hnoise,
      if_neg Bool.false_ne_true, length_append] at hsame
    have hmul : pre.length * group.length = pre.length * 1 := by omega
    exact Nat.eq_of_mul_eq_mul_left hpre hmul

/-! ## The cuts of a stream whose text is right -/

theorem Grouping.separate (h : Grouping texts groups pending) :
    ∀ group ∈ groups, Separate group := by
  intro group hgroup
  have hall := separate_splitlines texts.flatten
  rw [← h.lines] at hall
  have hpart : group <:+: groups.flatten ++ pending :=
    (infix_of_mem_flatten hgroup).trans (prefix_append _ _).isInfix
  exact ⟨fun line hline => hall.single line (hpart.subset hline),
    List.IsChain.infix hall.chain hpart⟩

/-- The lines of complete groups have ended. -/
theorem Grouping.lineEnded (h : Grouping texts groups pending) :
    ∀ group ∈ groups, ∀ line ∈ group, LineEnded line := by
  intro group hgroup line hline
  have hmem : line ∈ groups.flatten := mem_flatten.mpr ⟨group, hgroup, hline⟩
  have hbefore := lineEnded_of_separate (separate_splitlines texts.flatten)
  rw [← h.lines] at hbefore
  rcases eq_nil_or_concat' pending with rfl | ⟨front, final, rfl⟩
  · rw [append_nil] at hbefore
    obtain ⟨init, last, hsplit⟩ := (eq_nil_or_concat' groups.flatten).resolve_left
      (ne_nil_of_mem hmem)
    rw [hsplit, dropLast_concat] at hbefore
    rw [hsplit, mem_append, mem_singleton] at hmem
    rcases hmem with hmem | rfl
    · exact hbefore line hmem
    · have hlines := h.lines
      rw [append_nil, hsplit] at hlines
      have hlinene : line ≠ [] := ne_nil_of_mem_splitlines texts.flatten line (by
        rw [← hlines]
        simp)
      have htext : texts.flatten = init.flatten ++ line := by
        rw [← flatten_splitlines texts.flatten, ← hlines]
        simp
      rcases h.newline.mpr rfl with hnewline | hempty
      · rw [htext, endsWithNewline_append _ hlinene] at hnewline
        exact lineEnded_of_endsWithNewline hnewline
      · rw [htext] at hempty
        exact absurd (append_eq_nil_iff.mp hempty).2 hlinene
  · rw [← append_assoc, dropLast_concat] at hbefore
    exact hbefore line (mem_append_left _ hmem)

theorem renderIncomplete_of_ne_nil (pre : Text) (h : line ≠ []) :
    renderIncomplete pre line = pre ++ line ++ ['\n'] := by
  rw [renderIncomplete, isEmpty_eq_false_iff.mpr h, if_neg Bool.false_ne_true]

/-- With the text of a single read queued, no text ended a line otherwise. -/
theorem endsLineOtherwise_of_queued_eq (h : LinePrefix pre) (hne : ∀ text ∈ texts, text ≠ [])
    (heq : queuedText pre (assembleTexts texts) =
      queuedText pre (popIncomplete (splitlines texts.flatten))) :
    ∀ before text after, texts = before ++ text :: after →
      endsLineOtherwise before.flatten text = false := by
  obtain ⟨groups, pending, hgrouping⟩ := exists_grouping texts hne
  have hsingles := singleton_of_queued_eq h hgrouping.nonempty hgrouping.separate
    hgrouping.lineEnded
  rw [hgrouping.state, ← hgrouping.lines] at heq
  suffices hlengths : (∀ group ∈ groups, group.length = 1) ∧ pending.length ≤ 1 by
    intro before text after hsplit
    by_contra hcut
    obtain ⟨group, hmem, htwo⟩ :=
      hgrouping.long before text after hsplit (Bool.not_eq_false _ ▸ hcut)
    rcases mem_cons.mp hmem with rfl | hmem
    · exact absurd hlengths.2 (by omega)
    · exact absurd (hlengths.1 group hmem) (by omega)
  rcases eq_nil_or_concat' pending with rfl | ⟨front, line, rfl⟩
  · refine ⟨hsingles ?_, Nat.zero_le 1⟩
    have hpop : popIncomplete (groups.flatten ++ []) = (groups.flatten, none) := by
      rw [append_nil]
      rcases eq_nil_or_concat' groups.flatten with hnil | ⟨init, last, hsplit⟩
      · rw [hnil]
        rfl
      · have hlines := hgrouping.lines
        rw [append_nil, hsplit] at hlines
        have hlastne : last ≠ [] := ne_nil_of_mem_splitlines texts.flatten last (by
          rw [← hlines]
          simp)
        have htext : texts.flatten = init.flatten ++ last := by
          rw [← flatten_splitlines texts.flatten, ← hlines]
          simp
        have hnewline : endsWithNewline last = true := by
          rcases hgrouping.newline.mpr rfl with hnewline | hempty
          · rwa [htext, endsWithNewline_append _ hlastne] at hnewline
          · rw [htext] at hempty
            exact absurd (append_eq_nil_iff.mp hempty).2 hlastne
        rw [hsplit, popIncomplete_concat, hnewline, if_pos rfl]
    rw [hpop, if_pos rfl] at heq
    exact append_cancel_right heq
  · have hpending : front ++ [line] ≠ [] := by simp
    have hmemLine : line ∈ splitlines texts.flatten := by
      rw [← hgrouping.lines]
      simp
    have hline : line ≠ [] := ne_nil_of_mem_splitlines texts.flatten line hmemLine
    have htext : texts.flatten = (groups.flatten ++ front).flatten ++ line := by
      rw [← flatten_splitlines texts.flatten, ← hgrouping.lines]
      simp
    have hopen : endsWithNewline line = false := by
      by_contra hnewline
      refine hpending (hgrouping.newline.mp (.inl ?_))
      rw [htext, endsWithNewline_append _ hline]
      exact Bool.not_eq_false _ ▸ hnewline
    have hflat : (front ++ [line]).flatten = front.flatten ++ line := by simp
    have hwhole : (front ++ [line]).flatten ≠ [] := by
      rw [hflat]
      exact append_ne_nil_of_right_ne_nil _ hline
    rw [← append_assoc, popIncomplete_concat, hopen, if_neg Bool.false_ne_true,
      if_neg hpending, queuedText, queuedText] at heq
    simp only [Option.getD_some] at heq
    rw [renderIncomplete_of_ne_nil pre hwhole, renderIncomplete_of_ne_nil pre hline, hflat,
      flatMap_append] at heq
    have hfull : (groups.map flatten).flatMap (renderLine pre) ++ (pre ++ front.flatten) ++
          (line ++ ['\n']) =
        groups.flatten.flatMap (renderLine pre) ++ front.flatMap (renderLine pre) ++ pre ++
          (line ++ ['\n']) := by
      simpa only [append_assoc] using heq
    have hcancel := append_cancel_right hfull
    -- A line before the last one has ended, and a prefix does not end as a line does.
    have hfront : front = [] := by
      rcases eq_nil_or_concat' front with hnil | ⟨init, last, hsplit⟩
      · exact hnil
      · exfalso
        have hended : LineEnded last := by
          have hbefore := lineEnded_of_separate (separate_splitlines texts.flatten)
          rw [← hgrouping.lines, ← append_assoc, dropLast_concat] at hbefore
          exact hbefore last (by rw [hsplit]; simp)
        obtain ⟨c, hc, hend⟩ := hended
        have hlastText : ((groups.map flatten).flatMap (renderLine pre) ++
            (pre ++ front.flatten)).getLast? = some c := by
          rw [hsplit]
          simp [getLast?_append, hc]
        rw [hcancel, getLast?_append_of_ne_nil _ h.nonempty] at hlastText
        rw [h.not_lineEnd c (mem_of_getLast? hlastText)] at hend
        cases hend
    subst hfront
    refine ⟨hsingles ?_, Nat.le_refl 1⟩
    simp only [flatten_nil, append_nil, flatMap_nil] at hcancel
    exact append_cancel_right hcancel

/-- The text of a rank is that of a single read exactly when the stream is well cut. -/
theorem assemble_eq_iff (h : LinePrefix pre) {reads : List (List UInt8)}
    (hne : ∀ data ∈ reads, data ≠ []) :
    assemble pre reads = cycleText pre reads.flatten ↔ WellCut reads := by
  refine ⟨fun heq => ?_, assemble_of_wellCut pre hne⟩
  have hcharacters := cutsCharacter_of_assemble_eq h.not_replacement heq
  have hflatten := flatten_map_readText reads hcharacters
  have htexts : ∀ text ∈ reads.map readText, text ≠ [] := by
    intro text htext
    obtain ⟨data, hdata, rfl⟩ := mem_map.mp htext
    exact readText_ne_nil (hne data hdata)
  rw [assemble, cycleText_eq, ← hflatten] at heq
  have hlines := endsLineOtherwise_of_queued_eq h htexts heq
  intro before data after hsplit
  refine ⟨hcharacters before data after hsplit, ?_⟩
  have hbefore : (before.map readText).flatten = readText before.flatten :=
    flatten_map_readText before fun b d a hb =>
      hcharacters b d (a ++ data :: after) (by rw [hsplit, hb]; simp)
  rw [cutsAfterLineEnd, ← hbefore]
  exact hlines (before.map readText) (readText data) (after.map readText) (by rw [hsplit]; simp)

/-- A prefix is made of printable ASCII characters. -/
theorem printable_of_mem_rankPrefix {width rank : Nat} {c : Char}
    (h : c ∈ rankPrefix width rank) : 0x20 ≤ c.toNat ∧ c.toNat ≤ 0x7E := by
  rw [rankPrefix, mem_append, mem_append] at h
  rcases h with (hpad | hdigit) | hcolon
  · rw [eq_of_mem_replicate hpad]
    decide
  · have hvisible := visible_of_isDigit (Text.isDigit_of_mem_decimal hdigit)
    omega
  · have hboth : ": ".toList.all (fun d => decide (0x20 ≤ d.toNat ∧ d.toNat ≤ 0x7E)) = true := by
      decide
    exact of_decide_eq_true (all_eq_true.mp hboth c hcolon)

/-- The prefix of a rank is as the comparison needs it. -/
theorem linePrefix_rankPrefix (width rank : Nat) : LinePrefix (rankPrefix width rank) where
  nonempty := by
    unfold rankPrefix
    exact append_ne_nil_of_right_ne_nil _ (by decide)
  not_lineEnd c hc := by
    have hrange := printable_of_mem_rankPrefix hc
    unfold isLineEnd
    simp only [contains_eq_mem, decide_eq_false_iff_not, mem_cons, not_mem_nil,
      or_false, not_or]
    omega
  not_replacement hmem := by
    have hrange := printable_of_mem_rankPrefix hmem
    exact absurd hrange.2 (by decide)
  kept line := not_shouldFilterLine_rankPrefix width rank line

end ResiliencyExt.FaultTolerance.PerCycleLogs
