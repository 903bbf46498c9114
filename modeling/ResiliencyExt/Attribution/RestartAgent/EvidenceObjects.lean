import Mathlib.Data.List.Nodup
import ResiliencyExt.Foundation.CompactJson

set_option autoImplicit false

/-!
# Restart agent: evidence objects for the model

`LogTools.get_evidence_objects` of `l1/tools.py` answers with the evidence that a list of
references names.  The answer has a limit of characters: an object is cut until it fits in what
the answer without it leaves, less a reserve for what the answer still grows by
(`_bounded_json_payload`), and is left out when it does not fit after that.  The references that
come behind an object are put in the answer without a look at its length.
-/

namespace ResiliencyExt.Attribution.RestartAgent

open Foundation List
open Foundation.Json (chars chars_dict chars_list chars_list_concat entryChars)

/-! ## Cutting a value -/

mutual

/-- `_bounded_json_payload`: what is kept of a value, and whether it is cut. -/
def boundedJsonPayload : Json → Nat → Json × Bool
  | .str text, maxChars =>
    if chars (.str text) ≤ maxChars then (.str text, false)
    else (.str (text.take (maxChars - 32)), true)
  | .list items, maxChars =>
    if chars (.list items) ≤ maxChars then (.list items, false)
    else
      let bounded := boundedItems items maxChars [] false
      (.list bounded.1, bounded.2 || bounded.1.length < items.length)
  | .dict entries, maxChars =>
    if chars (.dict entries) ≤ maxChars then (.dict entries, false)
    else
      let bounded := boundedEntries entries maxChars [] false
      (.dict bounded.1, bounded.2 || bounded.1.length < entries.length)
  | value, maxChars => (value, !(chars value ≤ maxChars))

def boundedItems : List Json → Nat → List Json → Bool → List Json × Bool
  | [], _, result, truncated => (result, truncated)
  | item :: items, maxChars, result, truncated =>
    let remaining := maxChars - chars (.list result) - 2
    if remaining = 0 then (result, true)
    else
      let bounded := boundedJsonPayload item remaining
      if maxChars < chars (.list (result ++ [bounded.1])) then (result, true)
      else boundedItems items maxChars (result ++ [bounded.1]) (truncated || bounded.2)

def boundedEntries : List (List Char × Json) → Nat → List (List Char × Json) → Bool →
    List (List Char × Json) × Bool
  | [], _, result, truncated => (result, truncated)
  | (key, item) :: entries, maxChars, result, truncated =>
    let remaining := maxChars - chars (.dict result) - key.length - 8
    if remaining = 0 then (result, true)
    else
      let bounded := boundedJsonPayload item remaining
      if maxChars < chars (.dict (result ++ [(key, bounded.1)])) then (result, true)
      else
        boundedEntries entries maxChars (result ++ [(key, bounded.1)]) (truncated || bounded.2)

end

mutual

/-- A value that is not marked as cut is the whole value. -/
theorem boundedJsonPayload_whole : ∀ (value : Json) (maxChars : Nat),
    (boundedJsonPayload value maxChars).2 = false → (boundedJsonPayload value maxChars).1 = value
  | .null, _, _ => rfl
  | .bool _, _, _ => rfl
  | .number _, _, _ => rfl
  | .str text, maxChars, h => by
    unfold boundedJsonPayload at h ⊢
    split at h
    · next hfits => rw [if_pos hfits]
    · cases h
  | .list items, maxChars, h => by
    unfold boundedJsonPayload at h ⊢
    split at h
    · next hfits => rw [if_pos hfits]
    · next hlong =>
      rw [if_neg hlong]
      have hitems := boundedItems_whole items maxChars [] false (Bool.or_eq_false_iff.mp h).1
      exact congrArg Json.list hitems.2
  | .dict entries, maxChars, h => by
    unfold boundedJsonPayload at h ⊢
    split at h
    · next hfits => rw [if_pos hfits]
    · next hlong =>
      rw [if_neg hlong]
      have hentries := boundedEntries_whole entries maxChars [] false
        (Bool.or_eq_false_iff.mp h).1
      exact congrArg Json.dict hentries.2

theorem boundedItems_whole : ∀ (items : List Json) (maxChars : Nat) (result : List Json)
    (truncated : Bool), (boundedItems items maxChars result truncated).2 = false →
      truncated = false ∧ (boundedItems items maxChars result truncated).1 = result ++ items
  | [], _, result, _, h => ⟨h, (append_nil result).symm⟩
  | item :: items, maxChars, result, truncated, h => by
    unfold boundedItems at h ⊢
    dsimp only at h ⊢
    split at h
    · cases h
    · next hroom =>
      rw [if_neg hroom]
      split at h
      · cases h
      · next hfits =>
        obtain ⟨hflags, hresult⟩ := boundedItems_whole items maxChars _ _ h
        obtain ⟨htruncated, hitem⟩ := Bool.or_eq_false_iff.mp hflags
        refine ⟨htruncated, ?_⟩
        rw [if_neg hfits, hresult, boundedJsonPayload_whole item _ hitem, append_assoc,
          singleton_append]

theorem boundedEntries_whole : ∀ (entries : List (List Char × Json)) (maxChars : Nat)
    (result : List (List Char × Json)) (truncated : Bool),
    (boundedEntries entries maxChars result truncated).2 = false →
      truncated = false ∧
        (boundedEntries entries maxChars result truncated).1 = result ++ entries
  | [], _, result, _, h => ⟨h, (append_nil result).symm⟩
  | (key, item) :: entries, maxChars, result, truncated, h => by
    unfold boundedEntries at h ⊢
    dsimp only at h ⊢
    split at h
    · cases h
    · next hroom =>
      rw [if_neg hroom]
      split at h
      · cases h
      · next hfits =>
        obtain ⟨hflags, hresult⟩ := boundedEntries_whole entries maxChars _ _ h
        obtain ⟨htruncated, hitem⟩ := Bool.or_eq_false_iff.mp hflags
        refine ⟨htruncated, ?_⟩
        rw [if_neg hfits, hresult, boundedJsonPayload_whole item _ hitem, append_assoc,
          singleton_append]

end

variable {maxChars : Nat} (entries : List (List Char × Json)) (refs : List (List Char))

/-- A dictionary never grows past its limit, entry by entry. -/
theorem chars_boundedEntries {result : List (List Char × Json)} (truncated : Bool)
    (h : chars (.dict result) ≤ maxChars) :
    chars (.dict (boundedEntries entries maxChars result truncated).1) ≤ maxChars := by
  induction entries generalizing result truncated with
  | nil => exact h
  | cons entry entries ih =>
    unfold boundedEntries
    dsimp only
    split
    · exact h
    · split
      · exact h
      · next hfits => exact ih _ (Nat.le_of_not_lt hfits)

theorem chars_boundedJsonPayload (h : 2 ≤ maxChars) :
    chars (boundedJsonPayload (.dict entries) maxChars).1 ≤ maxChars := by
  unfold boundedJsonPayload
  split
  · next hfits => exact hfits
  · have hempty : chars (.dict []) = 2 := by rw [chars_dict]; rfl
    exact chars_boundedEntries entries false (hempty ▸ h)

/-- What is kept of a dictionary is not longer than the dictionary. -/
theorem chars_boundedJsonPayload_le (h : 2 ≤ maxChars) :
    chars (boundedJsonPayload (.dict entries) maxChars).1 ≤ chars (.dict entries) := by
  by_cases hfits : chars (.dict entries) ≤ maxChars
  · unfold boundedJsonPayload
    rw [if_pos hfits]
  · exact Nat.le_trans (chars_boundedJsonPayload entries h) (Nat.le_of_not_le hfits)

/-! ## Evidence by reference -/

/-- A piece of evidence: its reference and `_json_compatible(asdict(value))`. -/
structure EvidenceValue where
  ref : List Char
  payload : List (List Char × Json)

/-- What the tools read of an `L0Bundle`. -/
structure EvidenceBundle where
  occurrenceGroups : List EvidenceValue
  contextWindows : List EvidenceValue
  candidateAnchors : List EvidenceValue
  failureEpisodes : List EvidenceValue
  distributedFailureIncidents : List EvidenceValue
  progressMarkers : List EvidenceValue
  checkpointMarkers : List EvidenceValue
  setupMarkers : List EvidenceValue
  lineCount : Nat
  byteSize : Nat
  /-- `len(bundle.registry_matches)` -/
  registryMatches : Nat

/-- The values of a collection under their references. -/
def indexed (objectType : String) (values : List EvidenceValue) :
    List (List Char × List Char × List (List Char × Json)) :=
  values.map fun value => (value.ref, objectType.toList, value.payload)

/-- `_evidence_object_index`; of two values with one reference the first is found. -/
def evidenceObjectIndex (bundle : EvidenceBundle) :
    List (List Char × List Char × List (List Char × Json)) :=
  indexed "occurrence_group" bundle.occurrenceGroups ++
    (indexed "context_window" bundle.contextWindows ++
    (indexed "candidate_anchor" bundle.candidateAnchors ++
    (indexed "failure_episode" bundle.failureEpisodes ++
    (indexed "distributed_incident" bundle.distributedFailureIncidents ++
    (indexed "progress_marker" bundle.progressMarkers ++
    (indexed "checkpoint_marker" bundle.checkpointMarkers ++
    indexed "setup_marker" bundle.setupMarkers))))))

def evidenceObjectsMaxRefs : Nat := 8
def evidenceObjectsMaxChars : Nat := 50000
def evidenceObjectRefMaxChars : Nat := 128
def evidenceObjectsMetadataReserveChars : Nat := 2048

/-- The references of a request. -/
structure RequestedRefs where
  requested : List (List Char)
  invalid : List (List Char)
  truncated : Bool

def RequestedRefs.add (r : RequestedRefs) (ref : List Char) : RequestedRefs :=
  if evidenceObjectRefMaxChars < ref.length then
    { r with
      invalid := r.invalid ++ [ref.take evidenceObjectRefMaxChars]
      truncated := true }
  else if r.requested.any fun other => decide (other = ref) then r
  else { r with requested := r.requested ++ [ref] }

/-- The first references of the list, each of them once. -/
def requestRefs (refs : List (List Char)) : RequestedRefs :=
  (refs.take evidenceObjectsMaxRefs).foldl RequestedRefs.add
    ⟨[], [], evidenceObjectsMaxRefs < refs.length⟩

structure EvidenceObject where
  ref : List Char
  objectType : List Char
  payload : Json
  truncated : Bool

def EvidenceObject.toJson (object : EvidenceObject) : Json :=
  .dict [("ref".toList, .str object.ref), ("object_type".toList, .str object.objectType),
    ("payload".toList, object.payload), ("truncated".toList, .bool object.truncated)]

/-- The lists that the references are put in. -/
structure ResolvedRefs where
  objects : List EvidenceObject
  missing : List (List Char)
  omitted : List (List Char)
  objectTruncated : Bool

def refList (refs : List (List Char)) : Json :=
  .list (refs.map .str)

/-- `response_without_object`, and the entries before `limits` of the answer. -/
def responseEntries (request : RequestedRefs) (resolved : ResolvedRefs) :
    List (List Char × Json) :=
  [("schema_version".toList, .str "restart_agent_evidence_objects.v1".toList),
    ("requested_refs".toList, refList request.requested),
    ("objects".toList, .list (resolved.objects.map EvidenceObject.toJson)),
    ("missing_refs".toList, refList resolved.missing),
    ("invalid_refs".toList, refList request.invalid),
    ("omitted_refs".toList, refList resolved.omitted)]

def responseWithoutObject (request : RequestedRefs) (resolved : ResolvedRefs) : Json :=
  .dict (responseEntries request resolved ++ [("truncated".toList, .bool true)])

def ResolvedRefs.omit (resolved : ResolvedRefs) (ref : List Char) : ResolvedRefs :=
  { resolved with omitted := resolved.omitted ++ [ref], objectTruncated := true }

def ResolvedRefs.accept (resolved : ResolvedRefs) (object : EvidenceObject) : ResolvedRefs :=
  { resolved with
    objects := resolved.objects ++ [object]
    objectTruncated := resolved.objectTruncated || object.truncated }

/-- What an object may take. -/
def remainingChars (request : RequestedRefs) (resolved : ResolvedRefs) : Nat :=
  evidenceObjectsMaxChars - chars (responseWithoutObject request resolved) -
    evidenceObjectsMetadataReserveChars

/-- One turn of the loop over the references. -/
def resolveRef (bundle : EvidenceBundle) (request : RequestedRefs) (resolved : ResolvedRefs)
    (ref : List Char) : ResolvedRefs :=
  match (evidenceObjectIndex bundle).lookup ref with
  | none => { resolved with missing := resolved.missing ++ [ref] }
  | some (objectType, value) =>
    let remaining := remainingChars request resolved
    if remaining ≤ 256 then resolved.omit ref
    else
      let bounded := boundedJsonPayload (.dict value) remaining
      let candidate : EvidenceObject := ⟨ref, objectType, bounded.1, bounded.2⟩
      if evidenceObjectsMaxChars <
          chars (responseWithoutObject request (resolved.accept candidate)) then
        resolved.omit ref
      else resolved.accept candidate

def resolveRefs (bundle : EvidenceBundle) (request : RequestedRefs) : ResolvedRefs :=
  request.requested.foldl (resolveRef bundle request) ⟨[], [], [], false⟩

/-- The answer of `get_evidence_objects`. -/
def evidenceAnswer (bundle : EvidenceBundle) (refs : List (List Char)) : Json :=
  let request := requestRefs refs
  let resolved := resolveRefs bundle request
  .dict (responseEntries request resolved ++
    [("limits".toList, .dict [("max_refs".toList, .number "8".toList),
        ("max_chars".toList, .number "50000".toList)]),
      ("truncated".toList, .bool (request.truncated || resolved.objectTruncated ||
        !resolved.omitted.isEmpty))])

/-! ## The length of the answer -/

/-- What a response takes without the lists that the loop fills. -/
def responseBase (request : RequestedRefs) : Nat :=
  148 + chars (refList request.requested) + chars (refList request.invalid)

theorem chars_responseWithoutObject (request : RequestedRefs) (resolved : ResolvedRefs) :
    chars (responseWithoutObject request resolved) = responseBase request +
      chars (.list (resolved.objects.map EvidenceObject.toJson)) +
      chars (refList resolved.missing) + chars (refList resolved.omitted) := by
  rw [responseWithoutObject, chars_dict]
  simp only [responseEntries, cons_append, nil_append, map_cons, map_nil,
    sum_cons, sum_nil, length_cons, length_nil, entryChars, responseBase]
  have hkeys : (Json.writeStr "schema_version".toList).length = 16 ∧
      (Json.writeStr "requested_refs".toList).length = 16 ∧
      (Json.writeStr "objects".toList).length = 9 ∧
      (Json.writeStr "missing_refs".toList).length = 14 ∧
      (Json.writeStr "invalid_refs".toList).length = 14 ∧
      (Json.writeStr "omitted_refs".toList).length = 14 ∧
      (Json.writeStr "truncated".toList).length = 11 ∧
      chars (.str "restart_agent_evidence_objects.v1".toList) = 35 ∧
      chars (.bool true) = 4 := by
    decide
  omega

/-- What the limits and the mark of the answer add. -/
theorem chars_evidenceAnswer (bundle : EvidenceBundle) (refs : List (List Char)) :
    chars (evidenceAnswer bundle refs) ≤ 43 + chars (responseWithoutObject (requestRefs refs)
      (resolveRefs bundle (requestRefs refs))) := by
  have hmark : ∀ value, entryChars ("truncated".toList, .bool value) ≤ 17 := by
    decide
  have hlimits : entryChars ("limits".toList, .dict [("max_refs".toList, .number "8".toList),
      ("max_chars".toList, .number "50000".toList)]) = 41 := by
    rw [entryChars, chars_dict]
    decide
  have htrue : entryChars ("truncated".toList, .bool true) = 16 := by
    decide
  rw [evidenceAnswer, responseWithoutObject, chars_dict, chars_dict]
  simp only [map_append, sum_append, length_append, map_cons, map_nil,
    sum_cons, sum_nil, length_cons, length_nil, hlimits, htrue]
  have := hmark ((requestRefs refs).truncated ||
    (resolveRefs bundle (requestRefs refs)).objectTruncated ||
    !(resolveRefs bundle (requestRefs refs)).omitted.isEmpty)
  omega

/-- What references take, each with a comma. -/
def refsChars (refs : List (List Char)) : Nat :=
  (refs.map fun ref => chars (.str ref) + 1).sum

theorem refsChars_cons (ref : List Char) (refs : List (List Char)) :
    refsChars (ref :: refs) = chars (.str ref) + 1 + refsChars refs := by
  rw [refsChars, map_cons, sum_cons, refsChars]

theorem chars_refList_concat (ref : List Char) :
    chars (refList (refs ++ [ref])) ≤ chars (refList refs) + (chars (.str ref) + 1) := by
  rw [refList, map_append, map_singleton, chars_list_concat, refList]
  split <;> omega

theorem chars_refList_le : chars (refList refs) ≤ 2 + refsChars refs := by
  induction refs using reverseRecOn with
  | nil => exact Nat.le_of_eq (by rw [refList, map_nil, chars_list]; rfl)
  | append_singleton refs ref ih =>
    have hconcat := chars_refList_concat refs ref
    have hsum : refsChars (refs ++ [ref]) = refsChars refs + (chars (.str ref) + 1) := by
      rw [refsChars, map_append, sum_append, map_singleton, sum_singleton,
        refsChars]
    omega

theorem chars_object_toJson (object : EvidenceObject) :
    chars object.toJson ≤ 52 + chars (.str object.ref) + chars (.str object.objectType) +
      chars object.payload := by
  have hmark : ∀ value, chars (.bool value) ≤ 5 := by
    decide
  have hmark := hmark object.truncated
  have hkeys : (Json.writeStr "ref".toList).length = 5 ∧
      (Json.writeStr "object_type".toList).length = 13 ∧
      (Json.writeStr "payload".toList).length = 9 ∧
      (Json.writeStr "truncated".toList).length = 11 := by
    decide
  rw [EvidenceObject.toJson, chars_dict]
  simp only [map_cons, map_nil, sum_cons, sum_nil, length_cons,
    length_nil, entryChars]
  omega

theorem chars_objectType {bundle : EvidenceBundle} {ref objectType : List Char}
    {value : List (List Char × Json)}
    (h : (evidenceObjectIndex bundle).lookup ref = some (objectType, value)) :
    chars (.str objectType) ≤ 22 := by
  have hmem : (ref, objectType, value) ∈ evidenceObjectIndex bundle :=
    lookup_eq_some_iff.mp h |> fun ⟨_, _, hsplit, _⟩ => by
      rw [hsplit]
      exact mem_append_right _ mem_cons_self
  simp only [evidenceObjectIndex, indexed, mem_append, mem_map, Prod.mk.injEq] at hmem
  rcases hmem with h | h | h | h | h | h | h | h <;> obtain ⟨_, _, _, rfl, _⟩ := h <;> decide

/-! ## The loop over the references -/

section Loop

variable {bundle : EvidenceBundle} {request : RequestedRefs} {resolved : ResolvedRefs}

variable {ref : List Char} (refs : List (List Char))

/-- What becomes of a reference: its evidence is missing, is left out, or is put in the answer
cut to what the answer leaves. -/
theorem resolveRef_cases (bundle : EvidenceBundle) (request : RequestedRefs)
    (resolved : ResolvedRefs) (ref : List Char) :
    (resolveRef bundle request resolved ref =
      { resolved with missing := resolved.missing ++ [ref] }) ∨
    resolveRef bundle request resolved ref = resolved.omit ref ∨
    ∃ objectType value, (evidenceObjectIndex bundle).lookup ref = some (objectType, value) ∧
      256 < remainingChars request resolved ∧
      resolveRef bundle request resolved ref = resolved.accept ⟨ref, objectType,
        (boundedJsonPayload (.dict value) (remainingChars request resolved)).1,
        (boundedJsonPayload (.dict value) (remainingChars request resolved)).2⟩ := by
  unfold resolveRef
  split
  · exact .inl rfl
  · next objectType value hlookup =>
    refine .inr ?_
    dsimp only
    split
    · exact .inl rfl
    · next hroom =>
      split
      · exact .inl rfl
      · exact .inr ⟨objectType, value, hlookup, Nat.lt_of_not_le hroom, rfl⟩

/-- The references that are reported. -/
def ResolvedRefs.reported (resolved : ResolvedRefs) : List (List Char) :=
  resolved.objects.map EvidenceObject.ref ++ (resolved.missing ++ resolved.omitted)

theorem reported_resolveRef (ref : List Char) :
    ((resolveRef bundle request resolved ref).reported).Perm (ref :: resolved.reported) := by
  rcases resolveRef_cases bundle request resolved ref with h | h | ⟨_, _, _, _, h⟩
  · rw [h, ResolvedRefs.reported, ResolvedRefs.reported, append_assoc, singleton_append,
      ← append_assoc, ← append_assoc]
    exact perm_middle
  · rw [h, ResolvedRefs.omit, ResolvedRefs.reported, ResolvedRefs.reported]
    dsimp only
    rw [← append_assoc, ← append_assoc, ← append_assoc]
    exact perm_append_singleton _ _
  · rw [h, ResolvedRefs.accept, ResolvedRefs.reported, ResolvedRefs.reported]
    dsimp only
    rw [map_append, map_singleton, append_assoc, singleton_append]
    exact perm_middle

theorem reported_foldl :
    ((refs.foldl (resolveRef bundle request) resolved).reported).Perm
      (refs ++ resolved.reported) := by
  induction refs generalizing resolved with
  | nil => exact List.Perm.refl _
  | cons ref refs ih =>
    have htail : ((refs.foldl (resolveRef bundle request)
        (resolveRef bundle request resolved ref)).reported).Perm
          (refs ++ (resolveRef bundle request resolved ref).reported) := ih
    exact htail.trans (((reported_resolveRef ref).append_left refs).trans perm_middle)

/-- Every object of the answer is evidence of the bundle, whole or marked as cut. -/
def IsEvidence (bundle : EvidenceBundle) (object : EvidenceObject) : Prop :=
  ∃ value, (evidenceObjectIndex bundle).lookup object.ref = some (object.objectType, value) ∧
    (object.truncated = false → object.payload = .dict value)

theorem isEvidence_of_bounded {objectType : List Char} {value : List (List Char × Json)}
    {bounded : Json × Bool}
    (hlookup : (evidenceObjectIndex bundle).lookup ref = some (objectType, value))
    (hwhole : bounded.2 = false → bounded.1 = .dict value) :
    IsEvidence bundle ⟨ref, objectType, bounded.1, bounded.2⟩ :=
  ⟨value, hlookup, hwhole⟩

theorem isEvidence_resolveRef (h : ∀ object ∈ resolved.objects, IsEvidence bundle object) :
    ∀ object ∈ (resolveRef bundle request resolved ref).objects, IsEvidence bundle object := by
  rcases resolveRef_cases bundle request resolved ref with heq | heq | ⟨_, value, hlookup, _, heq⟩
  · rw [heq]
    exact h
  · rw [heq]
    exact h
  · rw [heq]
    intro object hobject
    rcases mem_append.mp hobject with hobject | hobject
    · exact h object hobject
    · rw [mem_singleton.mp hobject]
      exact isEvidence_of_bounded hlookup (boundedJsonPayload_whole (.dict value) _)

theorem isEvidence_foldl (h : ∀ object ∈ resolved.objects, IsEvidence bundle object) :
    ∀ object ∈ (refs.foldl (resolveRef bundle request) resolved).objects,
      IsEvidence bundle object := by
  induction refs generalizing resolved with
  | nil => exact h
  | cons ref refs ih => exact ih (isEvidence_resolveRef h)

/-- The answer has room for the references that are still to come, as soon as it has an
object. -/
def Reserves (request : RequestedRefs) (resolved : ResolvedRefs) (refs : List (List Char)) :
    Prop :=
  resolved.objects = [] ∨
    chars (responseWithoutObject request resolved) + 43 + refsChars refs ≤ evidenceObjectsMaxChars

theorem Reserves.grow {resolved' : ResolvedRefs} {refs : List (List Char)}
    (h : Reserves request resolved (ref :: refs))
    (hobjects : resolved'.objects = resolved.objects)
    (hgrow : chars (responseWithoutObject request resolved') ≤ chars (responseWithoutObject request resolved) + (chars (.str ref) + 1)) :
    Reserves request resolved' refs := by
  refine h.imp (fun hnil => hobjects.trans hnil) fun hroom => ?_
  rw [refsChars_cons] at hroom
  omega

theorem reserves_resolveRef {refs : List (List Char)}
    (hfits : refsChars (ref :: refs) + 117 ≤ evidenceObjectsMetadataReserveChars)
    (h : Reserves request resolved (ref :: refs)) :
    Reserves request (resolveRef bundle request resolved ref) refs := by
  rcases resolveRef_cases bundle request resolved ref with
    heq | heq | ⟨objectType, value, hlookup, hremaining, heq⟩
  · rw [heq]
    refine h.grow rfl ?_
    rw [chars_responseWithoutObject, chars_responseWithoutObject]
    have := chars_refList_concat resolved.missing ref
    dsimp only
    omega
  · rw [heq]
    refine h.grow rfl ?_
    rw [chars_responseWithoutObject, chars_responseWithoutObject]
    have := chars_refList_concat resolved.omitted ref
    dsimp only [ResolvedRefs.omit]
    omega
  · rw [heq]
    refine .inr ?_
    rw [refsChars_cons] at hfits
    have htwo : 2 ≤ remainingChars request resolved := by omega
    have hpayload := chars_boundedJsonPayload value htwo
    have htype := chars_objectType hlookup
    have hobject := chars_object_toJson ⟨ref, objectType,
      (boundedJsonPayload (.dict value) (remainingChars request resolved)).1,
      (boundedJsonPayload (.dict value) (remainingChars request resolved)).2⟩
    have hresponse := chars_responseWithoutObject request resolved
    rw [chars_responseWithoutObject, ResolvedRefs.accept]
    dsimp only at hobject ⊢
    rw [map_append, map_singleton, chars_list_concat]
    have hcomma : (if resolved.objects.map EvidenceObject.toJson = [] then 0 else 1) ≤ 1 := by
      split <;> omega
    unfold remainingChars at hpayload hobject hremaining ⊢
    unfold evidenceObjectsMaxChars evidenceObjectsMetadataReserveChars at *
    omega

theorem reserves_foldl (hfits : refsChars refs + 117 ≤ evidenceObjectsMetadataReserveChars)
    (h : Reserves request resolved refs) :
    Reserves request (refs.foldl (resolveRef bundle request) resolved) [] := by
  induction refs generalizing resolved with
  | nil => exact h
  | cons ref refs ih =>
    refine ih ?_ (reserves_resolveRef hfits h)
    rw [refsChars_cons] at hfits
    omega

/-- The most that a reference adds to the answer: itself, and its evidence as a whole. -/
def refCost (bundle : EvidenceBundle) (ref : List Char) : Nat :=
  match (evidenceObjectIndex bundle).lookup ref with
  | none => chars (.str ref) + 1
  | some (_, value) => 75 + chars (.str ref) + chars (.dict value)

theorem chars_resolveRef_le (ref : List Char) :
    chars (responseWithoutObject request (resolveRef bundle request resolved ref)) ≤
      chars (responseWithoutObject request resolved) + refCost bundle ref := by
  have hcost : chars (.str ref) + 1 ≤ refCost bundle ref := by
    unfold refCost
    split <;> omega
  rw [chars_responseWithoutObject, chars_responseWithoutObject]
  rcases resolveRef_cases bundle request resolved ref with
    heq | heq | ⟨objectType, value, hlookup, hremaining, heq⟩
  · rw [heq]
    have := chars_refList_concat resolved.missing ref
    dsimp only
    omega
  · rw [heq]
    have := chars_refList_concat resolved.omitted ref
    dsimp only [ResolvedRefs.omit]
    omega
  · rw [heq, ResolvedRefs.accept]
    have htwo : 2 ≤ remainingChars request resolved := by omega
    have hpayload := chars_boundedJsonPayload_le value htwo
    have htype := chars_objectType hlookup
    have hobject := chars_object_toJson ⟨ref, objectType,
      (boundedJsonPayload (.dict value) (remainingChars request resolved)).1,
      (boundedJsonPayload (.dict value) (remainingChars request resolved)).2⟩
    have hcost : refCost bundle ref = 75 + chars (.str ref) + chars (.dict value) := by
      rw [refCost, hlookup]
    have hcomma : (if resolved.objects.map EvidenceObject.toJson = [] then 0 else 1) ≤ 1 := by
      split <;> omega
    dsimp only at hobject ⊢
    rw [map_append, map_singleton, chars_list_concat]
    omega

theorem chars_foldl_le :
    chars (responseWithoutObject request (refs.foldl (resolveRef bundle request) resolved)) ≤
      chars (responseWithoutObject request resolved) + (refs.map (refCost bundle)).sum := by
  induction refs generalizing resolved with
  | nil => exact Nat.le_refl _
  | cons ref refs ih =>
    have hstep := @chars_resolveRef_le bundle request resolved ref
    have htail : chars (responseWithoutObject request (refs.foldl (resolveRef bundle request)
      (resolveRef bundle request resolved ref))) ≤ _ := ih
    rw [foldl_cons, map_cons, sum_cons]
    omega

end Loop

/-! ## The references of a request -/

variable {refs : List (List Char)} {ref : List Char}

theorem any_eq_iff_mem : (refs.any fun other => decide (other = ref)) = true ↔ ref ∈ refs := by
  rw [any_eq_true]
  constructor
  · rintro ⟨other, hother, heq⟩
    exact of_decide_eq_true heq ▸ hother
  · exact fun hmem => ⟨ref, hmem, decide_eq_true rfl⟩

theorem mem_requested_foldl (refs : List (List Char)) {request : RequestedRefs} :
    ref ∈ (refs.foldl RequestedRefs.add request).requested ↔
      ref ∈ request.requested ∨ ref ∈ refs ∧ ref.length ≤ evidenceObjectRefMaxChars := by
  induction refs generalizing request with
  | nil => simp
  | cons other refs ih =>
    have hadd : ref ∈ (request.add other).requested ↔ ref ∈ request.requested ∨
        ref = other ∧ ref.length ≤ evidenceObjectRefMaxChars := by
      unfold RequestedRefs.add
      split
      · next hlong =>
        refine ⟨.inl, fun h => h.elim id ?_⟩
        rintro ⟨rfl, hshort⟩
        exact absurd hlong (Nat.not_lt.mpr hshort)
      · next hshort =>
        split
        · next hmem =>
          refine ⟨.inl, fun h => h.elim id ?_⟩
          rintro ⟨rfl, -⟩
          exact any_eq_iff_mem.mp hmem
        · rw [mem_append, mem_singleton]
          refine or_congr_right ⟨fun heq => ⟨heq, ?_⟩, And.left⟩
          exact heq ▸ Nat.le_of_not_lt hshort
    rw [foldl_cons, ih, hadd, mem_cons]
    tauto

theorem nodup_requested_foldl (refs : List (List Char)) {request : RequestedRefs}
    (h : request.requested.Nodup) : (refs.foldl RequestedRefs.add request).requested.Nodup := by
  induction refs generalizing request with
  | nil => exact h
  | cons other refs ih =>
    refine ih ?_
    unfold RequestedRefs.add
    split
    · exact h
    · split
      · exact h
      · next hnew => exact nodup_append.mpr ⟨h, pairwise_singleton _ other, by
          rintro ref href _ hother rfl
          rw [mem_singleton.mp hother] at href
          exact hnew (any_eq_iff_mem.mpr href)⟩

/-- A character takes at most six in a string. -/
theorem chars_str_le (text : List Char) : chars (.str text) ≤ 2 + 6 * text.length := by
  have hchar : ∀ c, (Json.escapeControl c).length ≤ 6 := by
    intro c
    unfold Json.escapeControl Json.hex4
    split_ifs <;> simp
  have hflat : (text.flatMap Json.escapeControl).length ≤ 6 * text.length := by
    induction text with
    | nil => exact Nat.le_refl 0
    | cons c text ih =>
      have := hchar c
      rw [flatMap_cons, length_append, length_cons]
      omega
  rw [Json.chars_str, Json.writeStr, length_cons, length_append, length_singleton]
  omega

theorem refsChars_invalid_foldl (refs : List (List Char)) {request : RequestedRefs} :
    refsChars (refs.foldl RequestedRefs.add request).invalid ≤
      refsChars request.invalid + 771 * refs.length := by
  induction refs generalizing request with
  | nil => exact Nat.le_refl _
  | cons ref refs ih =>
    have hadd : refsChars (request.add ref).invalid ≤ refsChars request.invalid + 771 := by
      unfold RequestedRefs.add
      split
      · have hstr := chars_str_le (ref.take evidenceObjectRefMaxChars)
        have htake : (ref.take evidenceObjectRefMaxChars).length ≤ 128 :=
          length_take_le _ _
        dsimp only
        rw [refsChars, map_append, sum_append, map_singleton,
          sum_singleton, ← refsChars]
        omega
      · split <;> exact Nat.le_add_right _ _
    have htail : refsChars (refs.foldl RequestedRefs.add (request.add ref)).invalid ≤ _ := ih
    rw [foldl_cons, length_cons]
    omega

/-! ## Answers -/

/-- The distinct references, written as JSON, take no more than the reserve leaves them. -/
def FitsReserve (refs : List (List Char)) : Prop :=
  refsChars (requestRefs refs).requested + 117 ≤ evidenceObjectsMetadataReserveChars

instance (refs : List (List Char)) : Decidable (FitsReserve refs) :=
  inferInstanceAs (Decidable (_ ≤ _))

/-- The answer fits even with all the evidence that is asked for. -/
def FitsEvidence (bundle : EvidenceBundle) (refs : List (List Char)) : Prop :=
  chars (responseWithoutObject (requestRefs refs) ⟨[], [], [], false⟩) + 43 +
    ((requestRefs refs).requested.map (refCost bundle)).sum ≤ evidenceObjectsMaxChars

theorem refsChars_perm {refs' : List (List Char)} (h : refs.Perm refs') :
    refsChars refs = refsChars refs' :=
  List.Perm.sum_nat (h.map _)

theorem reported_resolveRefs (bundle : EvidenceBundle) (request : RequestedRefs) :
    ((resolveRefs bundle request).reported).Perm request.requested := by
  have hperm := @reported_foldl bundle request ⟨[], [], [], false⟩ request.requested
  rwa [show ResolvedRefs.reported ⟨[], [], [], false⟩ = [] from rfl, append_nil] at hperm

theorem chars_evidenceAnswer_of_fitsEvidence {bundle : EvidenceBundle}
    (h : FitsEvidence bundle refs) :
    chars (evidenceAnswer bundle refs) ≤ evidenceObjectsMaxChars := by
  have hanswer := chars_evidenceAnswer bundle refs
  have hgrow : chars (responseWithoutObject (requestRefs refs)
    (resolveRefs bundle (requestRefs refs))) ≤ _ :=
    chars_foldl_le (requestRefs refs).requested
  unfold FitsEvidence at h
  omega

theorem chars_evidenceAnswer_of_fitsReserve (bundle : EvidenceBundle) (h : FitsReserve refs) :
    chars (evidenceAnswer bundle refs) ≤ evidenceObjectsMaxChars := by
  have hanswer := chars_evidenceAnswer bundle refs
  rcases @reserves_foldl bundle _ ⟨[], [], [], false⟩ _ h (.inl rfl) with hnil | hroom
  · -- without an object the answer has the references only
    have hresponse := chars_responseWithoutObject (requestRefs refs)
      (resolveRefs bundle (requestRefs refs))
    have hperm := refsChars_perm (reported_resolveRefs bundle (requestRefs refs))
    rw [ResolvedRefs.reported, show (resolveRefs bundle (requestRefs refs)).objects = [] from hnil,
      map_nil, nil_append, refsChars, map_append, sum_append, ← refsChars,
      ← refsChars] at hperm
    rw [show (resolveRefs bundle (requestRefs refs)).objects = [] from hnil, map_nil,
      responseBase] at hresponse
    have hempty : chars (.list []) = 2 := by rw [chars_list]; rfl
    have hrequested := chars_refList_le (requestRefs refs).requested
    have hmissing := chars_refList_le (resolveRefs bundle (requestRefs refs)).missing
    have homitted := chars_refList_le (resolveRefs bundle (requestRefs refs)).omitted
    have hinvalid := chars_refList_le (requestRefs refs).invalid
    have hlengths := @refsChars_invalid_foldl (refs.take evidenceObjectsMaxRefs)
      ⟨[], [], evidenceObjectsMaxRefs < refs.length⟩
    have htake : (refs.take evidenceObjectsMaxRefs).length ≤ 8 := length_take_le _ _
    have hnone : refsChars [] = 0 := rfl
    unfold FitsReserve at h
    unfold requestRefs at *
    unfold evidenceObjectsMaxChars evidenceObjectsMetadataReserveChars at *
    dsimp only at *
    omega
  · exact Nat.le_trans hanswer (by
      have hnone : refsChars [] = 0 := rfl
      have hroom : chars (responseWithoutObject (requestRefs refs)
        (resolveRefs bundle (requestRefs refs))) + 43 + refsChars [] ≤ _ := hroom
      omega)

/-- Every distinct acceptable reference is reported exactly once. -/
theorem count_reported (bundle : EvidenceBundle) (hmem : ref ∈ refs.take evidenceObjectsMaxRefs)
    (hshort : ref.length ≤ evidenceObjectRefMaxChars) :
    (resolveRefs bundle (requestRefs refs)).reported.count ref = 1 := by
  rw [(reported_resolveRefs bundle (requestRefs refs)).count_eq]
  have hnodup : (requestRefs refs).requested.Nodup :=
    nodup_requested_foldl (refs.take evidenceObjectsMaxRefs) nodup_nil
  exact count_eq_one_of_mem hnodup
    ((mem_requested_foldl (refs.take evidenceObjectsMaxRefs)).mpr (.inr ⟨hmem, hshort⟩))

theorem isEvidence_of_mem_objects (bundle : EvidenceBundle) (request : RequestedRefs) :
    ∀ object ∈ (resolveRefs bundle request).objects, IsEvidence bundle object :=
  isEvidence_foldl request.requested fun _ h => absurd h not_mem_nil

end ResiliencyExt.Attribution.RestartAgent
