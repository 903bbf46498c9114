import ResiliencyExt.Attribution.RestartAgent.LinePatterns
import ResiliencyExt.Foundation.RegexRuns

set_option autoImplicit false

/-!
# Restart agent: the key of a failure text

`identity.py`: a failure text is normalised in two steps.  `normalize_token` drops what changes
from one run to the next (times, ranks, nodes, sizes) and joins what is left by underscores;
`normalized_pattern` also writes `n` for the numbers that stand by themselves.  The fingerprint
of a failure normalises the pattern once more, by `fingerprint_for`: what `normalize_token`
drops are words between word boundaries, and an underscore is no boundary, so that the second
step keeps a pattern as it is or drops all of it (`normalizeToken_normalizedPattern`).
-/

namespace ResiliencyExt.Attribution.RestartAgent

open Foundation List
open Foundation.Regex

namespace LinePattern

open Pattern RegistryPattern

/-- `(?:z|[+-]\d{2}:?\d{2})?` -/
def timeZone : Pattern :=
  opt (oneOf [lit "z", cat [anyOf (chars "+-"), digitTimes 2, opt (lit ":"), digitTimes 2]])

/-- `\bname[=:\s_-]*\d+\b` -/
def numberedField (name : String) : Pattern :=
  cat [edge, lit name, fieldSigns, digits, edge]

/-- `\b\d+(?:\.\d+)?\s*(?:first|second)\b`, a quantity in one of the units. -/
def quantity (units : List String) : Pattern :=
  cat [edge, digits, opt (cat [lit ".", digits]), spaces, oneOf (units.map lit), edge]

/-- `_VOLATILE_PATTERN_SOURCES` -/
def volatilePatternSources : List Pattern :=
  [ cat [edge, anyOf (chars "ewif"), times (.one .digit) 3 4,
      .notAhead (.notAhead (cat [someSpace, clockTime]))],
    cat [edge, digitTimes 4, lit "-", digitTimes 2, lit "-", digitTimes 2,
      anyOf [.char 't', .space], clockTime, timeZone, edge],
    cat [edge, clockTime, edge],
    cat [edge, lit "0x", plus (anyOf [.range '0' '9', .range 'a' 'f']), edge],
    cat [edge, lit "pid", many (anyOf [.char '=', .char ':', .space, .char '-']), digits, edge],
    numberedField "rank",
    numberedField "worker",
    numberedField "task",
    numberedField "replica",
    cat [edge, lit "cuda:", digits, edge],
    numberedField "gpu",
    numberedField "device",
    cat [edge, lit "node", many (anyOf (chars "-_." ++ [.range 'a' 'z', .range '0' '9'])), digits,
      edge],
    cat [edge, lit "node", someFieldSigns,
      plus (anyOf ([.range 'a' 'z', .range '0' '9'] ++ chars "_.-")), edge],
    numberedField "iteration",
    cat [edge, lit "bucket",
      many (anyOf [.char '=', .char ':', .space, .char '_', .char '#', .char '-']), digits, edge],
    quantity ["b", "kb", "kib", "mb", "mib", "gb", "gib", "tb", "tib"],
    quantity ["ms", "s", "sec", "secs", "seconds", "min", "minutes"],
    numberedField "retry",
    numberedField "attempt",
    cat [edge, lit "line", someSpace, digits, edge] ]

/-- `_VOLATILE_PATTERN` -/
def volatile : Pattern :=
  oneOf volatilePatternSources

/-- `[a-z0-9]` -/
def tokenClass : CharClass :=
  .set false [.range 'a' 'z', .range '0' '9']

/-- `_NON_ALNUM_RE` -/
def nonAlnum : Pattern :=
  plus (noneOf [.range 'a' 'z', .range '0' '9'])

/-- `_UNDERSCORE_RUN_RE` -/
def underscoreRun : Pattern :=
  plus (.one (.char '_'))

/-- `_STANDALONE_NUMBER_RE` -/
def standaloneNumber : Pattern :=
  standalone tokenClass .digit

/-- `_EXCEPTION_TYPE_RE` -/
def exceptionType : Pattern :=
  cat [edge, .group "1" (cat [dottedName,
    oneOf [lit "Error", lit "Exception", lit "Failure", lit "Fault"]]), spaces, lit ":"]

/-- `_PYTHON_FRAME_RE` -/
def pythonFrame : Pattern :=
  cat [lit "File \"", plus (noneOf [.char '"']), lit "\", line ", digits, lit ", in ",
    .group "1" (cat [anyOf nameStart, many (anyOf (nameStart ++ [.range '0' '9']))])]

end LinePattern

/-! ## Normalised texts -/

section Normalization

variable (data : CharData)

/-- `normalize_token` -/
def normalizeToken (text : List Char) : List Char :=
  let normalized := sub data true LinePattern.volatile [' '] (lower data text)
  let normalized := sub data false LinePattern.nonAlnum ['_'] normalized
  stripChar '_' (sub data false LinePattern.underscoreRun ['_'] normalized)

/-- `normalized_pattern` -/
def normalizedPattern (text : List Char) : List Char :=
  let normalized := normalizeToken data text
  let normalized := sub data false LinePattern.standaloneNumber ['n'] normalized
  stripChar '_' (sub data false LinePattern.underscoreRun ['_'] normalized)

/-- `fingerprint_for` -/
def fingerprintFor (failureClass : List Char) (components : List (List Char)) :
    Option (List Char) :=
  let tokens := normalizeToken data failureClass ::
    (components.map (normalizeToken data)).filter (· ≠ [])
  if tokens.length = 1 then none else some (Text.join ':' tokens)

/-! ## The fingerprint of a failure -/

/-- `text.rfind(fragment, start, stop)` -/
def rfind (fragment text : List Char) (start stop : Nat) : Option Nat :=
  (List.range stop).reverse.find? fun i =>
    start ≤ i ∧ i + fragment.length ≤ stop ∧ (text.drop i).take fragment.length = fragment

/-- `_observed_mechanism_text` -/
def observedMechanismText (text : List Char) : List Char :=
  match search data true LinePattern.conditionalCause text with
  | none => text
  | some found =>
    let exceptionEnd :=
      ((search data false LinePattern.exceptionType text).map fun m => m.2.before.length).getD 0
    let matchStart := found.1.before.length
    let sentenceStart := ([". ", "! ", "? "].filterMap fun mark =>
      rfind mark.toList text exceptionEnd matchStart).max?
    let cut := (sentenceStart.map (· + 1)).getD matchStart
    (text.take cut).rdropWhile fun c => " .,:;-".toList.contains c

/-- `exception_type` of `canonical_observed_fingerprint` -/
def observedExceptionType (terminalText : List Char) : List Char :=
  (searchGroup data false LinePattern.exceptionType "1"
    (stripRoutingPrefix data terminalText)).getD "observed_failure".toList

/-- `callsite` of `canonical_observed_fingerprint`: the last frame of the context. -/
def observedCallsite (contextBefore : List (List Char)) : Option (List Char) :=
  contextBefore.foldl (fun callsite text =>
    (searchGroup data false LinePattern.pythonFrame "1" text).or callsite) none

/-- `pattern` of `canonical_observed_fingerprint`: the pattern of the mechanism text. -/
def mechanismPattern (terminalText : List Char) : List Char :=
  normalizedPattern data (observedMechanismText data (stripRoutingPrefix data terminalText))

/-- `canonical_observed_fingerprint` -/
def canonicalObservedFingerprint (terminalText : List Char) (contextBefore : List (List Char)) :
    Option (List Char) :=
  let callsite := (observedCallsite data contextBefore).filter (· ≠ [])
  let pattern := mechanismPattern data terminalText
  let components := observedExceptionType data terminalText :: callsite.toList
  fingerprintFor data "observed".toList
    (if pattern ≠ [] then components ++ [pattern] else components)

end Normalization

/-! ## Words of a normalised text -/

variable {data : CharData}

/-- A character that `normalize_token` takes for a separator. -/
def isSeparator (c : Char) : Bool :=
  !LinePattern.tokenClass.admits false c

/-- The words of a normalised text. -/
def AreTokens (words : List (List Char)) : Prop :=
  AreWords isSeparator words

variable {words : List (List Char)} (text : List Char)

theorem isSeparator_underscore : isSeparator '_' = true := by
  decide

theorem sub_nonAlnum :
    sub data false LinePattern.nonAlnum ['_'] text = squash isSeparator '_' false text := by
  have hclass : (CharClass.set true [.range 'a' 'z', .range '0' '9']).admits false =
      isSeparator := by
    funext c
    simp [isSeparator, LinePattern.tokenClass, CharClass.admits]
  rw [← hclass]
  exact sub_plus _ '_' text

theorem sub_underscoreRun :
    sub data false LinePattern.underscoreRun ['_'] text = squash (· == '_') '_' false text := by
  have hclass : (CharClass.char '_').admits false = (· == '_') := by
    funext c
    by_cases hc : c = '_' <;> simp [CharClass.admits, hc, Ne.symm]
  rw [← hclass]
  exact sub_plus _ '_' text

theorem normalizeToken_eq (data : CharData) (text : List Char) :
    normalizeToken data text = stripChar '_' (squash isSeparator '_' false
      (sub data true LinePattern.volatile [' '] (lower data text))) := by
  unfold normalizeToken
  dsimp only
  rw [sub_nonAlnum, sub_underscoreRun, squash_squash isSeparator_underscore]

theorem exists_tokens_normalizeToken (data : CharData) (text : List Char) :
    ∃ words, AreTokens words ∧ normalizeToken data text = Text.join '_' words := by
  rw [normalizeToken_eq]
  exact exists_words_squash isSeparator_underscore _

/-- Behind a substitution of words nothing is left to strip. -/
theorem stripChar_sub_join (h : AreTokens words) :
    stripChar '_' (sub data false LinePattern.underscoreRun ['_'] (Text.join '_' words)) =
      Text.join '_' words := by
  have hmono : ∀ c : Char, (c == '_') = true → isSeparator c = true := by
    intro c hc
    rw [eq_of_beq hc, isSeparator_underscore]
  rw [sub_underscoreRun, squash_join (by decide) (h.mono hmono),
    stripChar_join isSeparator_underscore h]

/-- `n` for a number. -/
def numberless (word : List Char) : List Char :=
  if word.all (CharClass.digit.admits false) then ['n'] else word

theorem sub_standaloneNumber (h : AreTokens words) :
    sub data false LinePattern.standaloneNumber ['n'] (Text.join '_' words) =
      Text.join '_' (words.map numberless) :=
  sub_standalone (by decide) (by decide) ['n'] h

theorem areTokens_map_numberless (h : AreTokens words) : AreTokens (words.map numberless) := by
  intro word hword
  obtain ⟨original, hmem, rfl⟩ := mem_map.mp hword
  unfold numberless
  split
  · refine ⟨cons_ne_nil _ _, fun c hc => ?_⟩
    rw [mem_singleton.mp hc]
    rfl
  · exact h original hmem

theorem numberless_numberless (word : List Char) :
    numberless (numberless word) = numberless word := by
  by_cases hall : word.all (CharClass.digit.admits false) = true
  · have hn : numberless word = ['n'] := if_pos hall
    rw [hn]
    decide
  · have hword : numberless word = word := if_neg hall
    rw [hword, hword]

theorem exists_tokens_normalizedPattern (data : CharData) (text : List Char) :
    ∃ words, AreTokens words ∧ words.map numberless = words ∧
      normalizedPattern data text = Text.join '_' words := by
  obtain ⟨words, hwords, htext⟩ := exists_tokens_normalizeToken data text
  refine ⟨words.map numberless, areTokens_map_numberless hwords, ?_, ?_⟩
  · rw [map_map]
    exact map_congr_left fun word _ => numberless_numberless word
  · unfold normalizedPattern
    dsimp only
    rw [htext, sub_standaloneNumber hwords]
    exact stripChar_sub_join (areTokens_map_numberless hwords)

/-! ## The second normalisation -/

theorem tokenChar_spec (data : CharData) {c : Char} (hc : c = '_' ∨ isSeparator c = false) :
    isAscii c = true ∧ c.toLower = c ∧ isWord data c = true ∧ Unicode.isSpace c = false := by
  have hascii : isAscii c = true := by
    rcases hc with rfl | hc
    · rfl
    · have hle : c ≤ 'z' := by
        simp only [isSeparator, LinePattern.tokenClass, CharClass.admits, ClassItem.admits,
          any_cons, any_nil, Bool.false_eq_true, if_false, Bool.or_false,
          Bool.bne_false, Bool.not_eq_false', Bool.or_eq_true, Bool.and_eq_true,
          decide_eq_true_eq] at hc
        rcases hc with hc | hc
        · exact hc.2
        · exact Char.le_trans hc.2 (by decide)
      exact decide_eq_true (Nat.lt_of_le_of_lt (show c.toNat ≤ 'z'.toNat from hle) (by decide))
  have hall : (!(c = '_' || !isSeparator c) ||
      (c.toLower = c && (c = '_' || c.isAlphanum) && !Unicode.isSpace c)) = true :=
    forall_ascii (P := fun c => !(c = '_' || !isSeparator c) ||
      (c.toLower = c && (c = '_' || c.isAlphanum) && !Unicode.isSpace c)) (by decide +kernel)
      hascii
  have hmem : (decide (c = '_') || !isSeparator c) = true := by
    rcases hc with rfl | hc
    · rfl
    · rw [hc]
      exact Bool.or_true _
  rw [hmem, Bool.not_true, Bool.false_or, Bool.and_eq_true, Bool.and_eq_true] at hall
  obtain ⟨⟨hlower, hword⟩, hspace⟩ := hall
  refine ⟨hascii, of_decide_eq_true hlower, ?_, by simpa using hspace⟩
  rw [isWord, hascii, if_pos rfl]
  exact hword

theorem mem_join_tokens (h : AreTokens words) {c : Char} (hc : c ∈ Text.join '_' words) :
    c = '_' ∨ isSeparator c = false :=
  mem_join h hc

theorem lower_join (h : AreTokens words) :
    lower data (Text.join '_' words) = Text.join '_' words := by
  have hfrom : ∀ text : List Char, (∀ c ∈ text, isAscii c = true ∧ c.toLower = c) →
      ∀ before, lowerFrom data before text = text := by
    intro text
    induction text with
    | nil => exact fun _ _ => rfl
    | cons c text ih =>
      intro hall before
      obtain ⟨hascii, hlower⟩ := hall c mem_cons_self
      rw [lowerFrom, lowerAt, if_pos hascii, hlower,
        ih (fun d hd => hall d (mem_cons_of_mem c hd)), singleton_append]
  refine hfrom _ (fun c hc => ?_) []
  obtain ⟨hascii, hlower, -⟩ := tokenChar_spec data (mem_join_tokens h hc)
  exact ⟨hascii, hlower⟩

/-- What the second normalisation makes of a pattern: nothing, when it is as a whole a text
that the first one drops. -/
def mechanismKey (data : CharData) (pattern : List Char) : List Char :=
  if fullMatch data true LinePattern.volatile pattern then [] else pattern

theorem normalizeToken_join (h : AreTokens words) :
    normalizeToken data (Text.join '_' words) = mechanismKey data (Text.join '_' words) := by
  have hword : IsWordText data (Text.join '_' words) :=
    fun c hc => (tokenChar_spec data (mem_join_tokens h hc)).2.2
  rw [normalizeToken_eq, lower_join h, sub_oneWord (by decide +kernel) [' '] hword, mechanismKey]
  split
  · decide
  · rw [squash_join isSeparator_underscore h, stripChar_join isSeparator_underscore h]

theorem normalizedPattern_join (h : AreTokens words) (hnumberless : words.map numberless = words) :
    normalizedPattern data (Text.join '_' words) = mechanismKey data (Text.join '_' words) := by
  have hnil : AreTokens [] := areWords_nil
  unfold normalizedPattern
  dsimp only
  rw [normalizeToken_join h, mechanismKey]
  split
  · exact (congrArg _ (congrArg _ (sub_standaloneNumber hnil))).trans (stripChar_sub_join hnil)
  · rw [sub_standaloneNumber h, hnumberless, stripChar_sub_join h]

theorem normalizeToken_normalizedPattern (data : CharData) (text : List Char) :
    normalizeToken data (normalizedPattern data text) =
      mechanismKey data (normalizedPattern data text) := by
  obtain ⟨words, hwords, -, htext⟩ := exists_tokens_normalizedPattern data text
  rw [htext, normalizeToken_join hwords]

theorem normalizedPattern_normalizedPattern (data : CharData) (text : List Char) :
    normalizedPattern data (normalizedPattern data text) =
      mechanismKey data (normalizedPattern data text) := by
  obtain ⟨words, hwords, hnumberless, htext⟩ := exists_tokens_normalizedPattern data text
  rw [htext, normalizedPattern_join hwords hnumberless]

theorem normalizeToken_nil (data : CharData) : normalizeToken data [] = [] := by
  have hnil : AreTokens [] := areWords_nil
  have hkey : normalizeToken data (Text.join '_' []) = _ := normalizeToken_join hnil
  rw [join_nil, mechanismKey, ite_self] at hkey
  exact hkey

/-! ## Equal fingerprints -/

/-- The fingerprint of the tokens of the class, the exception and the call site, and of the
token of the pattern. -/
def fingerprintOf (heads : List (List Char)) (token : List Char) : Option (List Char) :=
  let tokens := heads ++ if token ≠ [] then [token] else []
  if tokens.length = 1 then none else some (Text.join ':' tokens)

theorem fingerprintOf_injective {heads : List (List Char)} (hne : heads ≠ [])
    {token token' : List Char} :
    fingerprintOf heads token = fingerprintOf heads token' ↔ token = token' := by
  have hsome : ∀ {token : List Char}, token ≠ [] → fingerprintOf heads token =
      some (Text.join ':' heads ++ ':' :: token) := by
    intro token htoken
    have hlength : ¬ (heads ++ [token]).length = 1 := by
      have := length_pos_of_ne_nil hne
      rw [length_append, length_singleton]
      omega
    rw [fingerprintOf, if_pos htoken, if_neg hlength, join_concat hne]
  have hnil : fingerprintOf heads [] = none ∨
      fingerprintOf heads [] = some (Text.join ':' heads) := by
    unfold fingerprintOf
    dsimp only
    rw [if_neg (not_not.mpr rfl), append_nil]
    split
    · exact .inl rfl
    · exact .inr rfl
  have hdiffer : ∀ {token : List Char}, token ≠ [] →
      fingerprintOf heads token ≠ fingerprintOf heads [] := by
    intro token htoken heq
    rw [hsome htoken] at heq
    rcases hnil with hnil | hnil
    · rw [hnil] at heq
      cases heq
    · rw [hnil] at heq
      have hlengths := congrArg List.length (Option.some.inj heq)
      rw [length_append, length_cons] at hlengths
      omega
  refine ⟨fun heq => ?_, fun heq => by rw [heq]⟩
  by_cases htoken : token = []
  · by_cases htoken' : token' = []
    · rw [htoken, htoken']
    · exact absurd (htoken ▸ heq).symm (hdiffer htoken')
  · by_cases htoken' : token' = []
    · exact absurd (htoken' ▸ heq) (hdiffer htoken)
    · rw [hsome htoken, hsome htoken'] at heq
      exact (List.cons.inj (append_cancel_left (Option.some.inj heq))).2

/-- The tokens of a fingerprint before that of the pattern. -/
def fingerprintHeads (data : CharData) (terminalText : List Char)
    (contextBefore : List (List Char)) : List (List Char) :=
  normalizeToken data "observed".toList ::
    ((observedExceptionType data terminalText ::
      ((observedCallsite data contextBefore).filter (· ≠ [])).toList).map
        (normalizeToken data)).filter (· ≠ [])

theorem fingerprintFor_concat (data : CharData) (failureClass pattern : List Char)
    (components : List (List Char)) :
    fingerprintFor data failureClass
        (if pattern ≠ [] then components ++ [pattern] else components) =
      fingerprintOf (normalizeToken data failureClass ::
        (components.map (normalizeToken data)).filter (· ≠ [])) (normalizeToken data pattern) := by
  unfold fingerprintFor fingerprintOf
  dsimp only
  by_cases hpattern : pattern = []
  · rw [if_neg (not_not.mpr hpattern), hpattern, normalizeToken_nil, if_neg (not_not.mpr rfl),
      append_nil]
  · rw [if_pos hpattern, map_append, filter_append, cons_append]
    by_cases htoken : normalizeToken data pattern = []
    · simp [htoken]
    · simp [htoken]

theorem canonicalObservedFingerprint_eq (data : CharData) (terminalText : List Char)
    (contextBefore : List (List Char)) :
    canonicalObservedFingerprint data terminalText contextBefore =
      fingerprintOf (fingerprintHeads data terminalText contextBefore)
        (mechanismKey data (mechanismPattern data terminalText)) := by
  have hkey : normalizeToken data (mechanismPattern data terminalText) =
      mechanismKey data (mechanismPattern data terminalText) :=
    normalizeToken_normalizedPattern data _
  rw [← hkey]
  unfold canonicalObservedFingerprint fingerprintHeads
  dsimp only
  rw [fingerprintFor_concat]

/-- A second normalisation keeps a pattern or drops all of it, and failures with one exception
type and one call site have the same fingerprint when what it leaves of their patterns is the
same. -/
theorem normalization_stable (data : CharData) :
    (∀ text, normalizeToken data (normalizedPattern data text) =
        mechanismKey data (normalizedPattern data text) ∧
      normalizedPattern data (normalizedPattern data text) =
        mechanismKey data (normalizedPattern data text)) ∧
    ∀ terminalText contextBefore terminalText' contextBefore',
      observedExceptionType data terminalText = observedExceptionType data terminalText' →
      observedCallsite data contextBefore = observedCallsite data contextBefore' →
      (canonicalObservedFingerprint data terminalText contextBefore =
          canonicalObservedFingerprint data terminalText' contextBefore' ↔
        mechanismKey data (mechanismPattern data terminalText) =
          mechanismKey data (mechanismPattern data terminalText')) := by
  refine ⟨fun text => ⟨normalizeToken_normalizedPattern data text,
    normalizedPattern_normalizedPattern data text⟩, ?_⟩
  intro terminalText contextBefore terminalText' contextBefore' hexception hcallsite
  have hheads : fingerprintHeads data terminalText contextBefore =
      fingerprintHeads data terminalText' contextBefore' := by
    unfold fingerprintHeads
    rw [hexception, hcallsite]
  rw [canonicalObservedFingerprint_eq, canonicalObservedFingerprint_eq, hheads]
  exact fingerprintOf_injective (cons_ne_nil _ _)

/-- Two texts that differ in a number only. -/
theorem normalization_stable_number :
    mechanismKey asciiData (mechanismPattern asciiData "lost 3 x".toList) =
        mechanismKey asciiData (mechanismPattern asciiData "lost 4 x".toList) ∧
      canonicalObservedFingerprint asciiData "lost 3 x".toList [] =
        canonicalObservedFingerprint asciiData "lost 4 x".toList [] := by
  have hkey : mechanismKey asciiData (mechanismPattern asciiData "lost 3 x".toList) =
      mechanismKey asciiData (mechanismPattern asciiData "lost 4 x".toList) := by
    decide +kernel
  exact ⟨hkey, ((normalization_stable asciiData).2 _ [] _ [] (by decide +kernel) rfl).mpr hkey⟩

/-- `node(a1`: the bracket becomes an underscore, and then `node_a1` is the name of a node. -/
theorem not_idempotent_nodeName :
    ¬ ∀ (data : CharData) (text : List Char),
      (normalizeToken data (normalizedPattern data text) = normalizedPattern data text ∧
        normalizedPattern data (normalizedPattern data text) = normalizedPattern data text) := by
  intro h
  have hdropped : ¬ normalizeToken asciiData (normalizedPattern asciiData "node(a1".toList) =
      normalizedPattern asciiData "node(a1".toList := (by decide +kernel)
  exact hdropped (h asciiData "node(a1".toList).1

end ResiliencyExt.Attribution.RestartAgent
