import ResiliencyExt.Attribution.RestartAgent.InvocationOrder
import ResiliencyExt.Attribution.RestartAgent.ModelRouteRuns

set_option autoImplicit false

/-!
# Restart agent: what a call leaves in the store

In every run of the runtime with its gates, only a call that is open and is the last of its key to
have begun writes.  Its record is its initial one with the last facts that were delivered to it
for each route, and the store has no other record of its key until a later call writes.
-/

namespace ResiliencyExt.Attribution.RestartAgent

open Foundation List
open Option (some)

/-! ## Records -/

variable {record : AttemptRecord} {call : RuntimeCall}

/-- A record that the store takes. -/
theorem validateStorableRecord_eq_ok :
    validateStorableRecord record = .ok () ↔ record.jobId ≠ "" ∧
      truthy record.deterministic.rootFingerprint = true ∧
      truthy record.deterministic.rootFingerprintSource = true ∧
      record.deterministic.faultOutcome ≠ none ∧
      ∀ entry ∈ record.enriched, entry.facts.faultOutcome ≠ none := by
  unfold validateStorableRecord
  split
  · next h => exact iff_of_false (by intro h; cases h) fun hall => hall.1 h
  · next hjob =>
    split
    · next h =>
      refine iff_of_false (by intro h; cases h) fun hall => ?_
      rw [hall.2.1] at h
      cases h
    · next hroot =>
      split
      · next h =>
        refine iff_of_false (by intro h; cases h) fun hall => ?_
        rw [hall.2.2.1] at h
        cases h
      · next hsource =>
        split
        · next h => exact iff_of_false (by intro h; cases h) fun hall => hall.2.2.2.1 h
        · next houtcome =>
          split
          · next entry hfind =>
            refine iff_of_false (by intro h; cases h) fun hall => ?_
            have hnone := find?_some hfind
            exact hall.2.2.2.2 entry (mem_of_find?_eq_some hfind)
              (of_decide_eq_true hnone)
          · next hfind =>
            refine iff_of_true rfl ⟨hjob, by simpa using hroot, by simpa using hsource,
              houtcome, fun entry hentry hnone => ?_⟩
            exact find?_eq_none.mp hfind entry hentry (decide_eq_true hnone)

theorem mem_enriched_withEnriched {routeId : String} {facts : AttemptFailureFacts}
    {entry : EnrichedAttemptFacts} :
    entry ∈ (record.withEnriched routeId facts).enriched ↔
      (entry ∈ record.enriched ∧ entry.routeId ≠ routeId) ∨ entry = ⟨routeId, facts⟩ := by
  unfold AttemptRecord.withEnriched
  dsimp only
  rw [(perm_insertionSort _ _).mem_iff, mem_append, mem_filter,
    mem_singleton, decide_eq_true_iff]

/-- One route has one entry. -/
theorem nodup_withEnriched (h : (record.enriched.map EnrichedAttemptFacts.routeId).Nodup)
    (routeId : String) (facts : AttemptFailureFacts) :
    ((record.withEnriched routeId facts).enriched.map EnrichedAttemptFacts.routeId).Nodup := by
  unfold AttemptRecord.withEnriched
  dsimp only
  rw [((perm_insertionSort _ _).map _).nodup_iff, map_append, map_singleton]
  refine nodup_append.mpr ⟨h.sublist (filter_sublist.map _), nodup_singleton _,
    fun id hid other hother heq => ?_⟩
  obtain ⟨entry, hentry, rfl⟩ := mem_map.mp hid
  rw [mem_singleton.mp hother] at heq
  exact of_decide_eq_true (mem_filter.mp hentry).2 heq

/-- The facts that were delivered last for a route. -/
def lastDelivered (delivered : List (String × AttemptFailureFacts)) (routeId : String) :
    Option AttemptFailureFacts :=
  (delivered.reverse.find? fun delivery => delivery.1 = routeId).map Prod.snd

theorem lastDelivered_append (delivered : List (String × AttemptFailureFacts))
    (routeId other : String) (facts : AttemptFailureFacts) :
    lastDelivered (delivered ++ [(routeId, facts)]) other =
      if routeId = other then some facts else lastDelivered delivered other := by
  unfold lastDelivered
  rw [reverse_append, reverse_singleton, singleton_append, find?_cons]
  split
  · next h => rw [if_pos (of_decide_eq_true h)]; rfl
  · next h => rw [if_neg (of_decide_eq_false h)]

/-- The initial record with the last facts of each route. -/
structure Built (initial : AttemptRecord) (delivered : List (String × AttemptFailureFacts))
    (current : AttemptRecord) : Prop where
  key : current.key = initial.key
  progress : current.progress = initial.progress
  deterministic : current.deterministic = initial.deterministic
  entries : ∀ entry, entry ∈ current.enriched ↔
    lastDelivered delivered entry.routeId = some entry.facts
  nodup : (current.enriched.map EnrichedAttemptFacts.routeId).Nodup
  storable : validateStorableRecord current = .ok ()

theorem Built.start {initial : AttemptRecord} (hnone : initial.enriched = [])
    (hstorable : validateStorableRecord initial = .ok ()) : Built initial [] initial where
  key := rfl
  progress := rfl
  deterministic := rfl
  entries entry := by
    rw [hnone]
    exact iff_of_false not_mem_nil (by intro h; cases h)
  nodup := by
    rw [hnone]
    exact nodup_nil
  storable := hstorable

theorem validate_withEnriched (h : validateStorableRecord record = .ok ()) (routeId : String)
    (facts : AttemptFailureFacts) :
    validateStorableRecord (record.withEnriched routeId facts) = .ok () ↔
      facts.faultOutcome.isSome = true := by
  obtain ⟨hjob, hroot, hsource, houtcome, hall⟩ := validateStorableRecord_eq_ok.mp h
  constructor
  · intro hstorable
    have hentries := (validateStorableRecord_eq_ok.mp hstorable).2.2.2.2
    exact Option.isSome_iff_ne_none.mpr
      (hentries ⟨routeId, facts⟩ (mem_enriched_withEnriched.mpr (.inr rfl)))
  · intro hfacts
    refine validateStorableRecord_eq_ok.mpr ⟨hjob, hroot, hsource, houtcome, fun entry hentry => ?_⟩
    rcases mem_enriched_withEnriched.mp hentry with ⟨hold, -⟩ | rfl
    · exact hall entry hold
    · exact Option.isSome_iff_ne_none.mp hfacts

theorem validate_of_upsertAttempt {store stored : AttemptRecordStore}
    (h : store.upsertAttempt record = .ok stored) : validateStorableRecord record = .ok () := by
  unfold AttemptRecordStore.upsertAttempt at h
  split at h
  · cases h
  · assumption

theorem Built.withEnriched {initial current : AttemptRecord}
    {delivered : List (String × AttemptFailureFacts)} (h : Built initial delivered current)
    (routeId : String) {facts : AttemptFailureFacts} (hfacts : facts.faultOutcome.isSome = true) :
    Built initial (delivered ++ [(routeId, facts)]) (current.withEnriched routeId facts) where
  key := h.key
  progress := h.progress
  deterministic := h.deterministic
  entries entry := by
    rw [mem_enriched_withEnriched, lastDelivered_append]
    by_cases heq : routeId = entry.routeId
    · rw [if_pos heq]
      constructor
      · rintro (⟨-, hne⟩ | rfl)
        · exact absurd heq.symm hne
        · rfl
      · intro hsome
        cases entry
        cases heq
        cases hsome
        exact .inr rfl
    · rw [if_neg heq, ← h.entries]
      constructor
      · rintro (⟨hold, -⟩ | rfl)
        · exact hold
        · exact absurd rfl heq
      · exact fun hold => .inl ⟨hold, Ne.symm heq⟩
  nodup := nodup_withEnriched h.nodup routeId facts
  storable := (validate_withEnriched h.storable routeId facts).mpr hfacts

/-! ## The record of a call -/

/-- The call has written its initial record, and has the record built from it since. -/
def RuntimeCall.HasRecord (call : RuntimeCall) (delivered : List (String × AttemptFailureFacts))
    (current : AttemptRecord) : Prop :=
  call.initialUpserted = true ∧ call.record = some current ∧
    ∃ initial, call.initial = some initial ∧ initial.key = call.key ∧
      Built initial delivered current

/-- A call that has not written, or has the record of what was delivered. -/
def RuntimeCall.Recorded (call : RuntimeCall) : Prop :=
  (call.initialUpserted = false ∧ call.delivered = []) ∨
    ∃ current, call.HasRecord call.delivered current

/-- What a call remembers and keeps between its steps. -/
def RuntimeCall.Sound (call : RuntimeCall) : Prop :=
  match call.phase with
  | .entered | .locked =>
    call.record = none ∧ call.initialUpserted = false ∧ call.delivered = []
  | .writing (.initial record) =>
    (call.initialUpserted = false ∧ call.delivered = []) ∧ call.initial = some record ∧
      record.enriched = [] ∧ record.key = call.key
  | .writing (.enriched routeId record) =>
    ∃ current facts delivered, call.HasRecord delivered current ∧
      record = current.withEnriched routeId facts ∧
      call.delivered = delivered ++ if facts.faultOutcome.isSome then [(routeId, facts)] else []
  | .running | .closed | .released | .left => call.Recorded

theorem RuntimeCall.sound_of_recorded (hsettled : call.settled = true) (h : call.Recorded) :
    call.Sound := by
  unfold RuntimeCall.settled at hsettled
  unfold RuntimeCall.Sound
  split at hsettled
  · cases hsettled
  · cases hsettled
  · cases hsettled
  all_goals
    next hphase =>
      rw [hphase]
      exact h

theorem RuntimeCall.Sound.recorded (h : call.Sound) (hsettled : call.settled = true) :
    call.Recorded := by
  unfold RuntimeCall.settled at hsettled
  unfold RuntimeCall.Sound at h
  split at hsettled
  · cases hsettled
  · cases hsettled
  · cases hsettled
  all_goals
    next hphase =>
      rw [hphase] at h
      exact h

theorem RuntimeCall.Sound.before (h : call.Sound) (hbefore : call.phase.before = true) :
    call.record = none ∧ call.initialUpserted = false ∧ call.delivered = [] := by
  unfold CallPhase.before at hbefore
  unfold RuntimeCall.Sound at h
  split at hbefore
  · next hphase =>
    rw [hphase] at h
    exact h
  · next hphase =>
    rw [hphase] at h
    exact h
  all_goals cases hbefore

/-- A call without a record has not written. -/
theorem RuntimeCall.Recorded.of_none (h : call.Recorded) (hnone : call.record = none) :
    call.initialUpserted = false ∧ call.delivered = [] := by
  rcases h with hfresh | ⟨current, -, hrecord, -⟩
  · exact hfresh
  · rw [hnone] at hrecord
    cases hrecord

namespace GateState

/-- Every call is sound, and the store has the record of the last call that wrote or none. -/
structure RecordsKept (s : GateState) : Prop where
  sound : ∀ call ∈ s.calls, call.Sound
  stored : ∀ call ∈ s.calls, call.initialUpserted = true →
    (∀ other ∈ s.calls, other.key = call.key → other.initialUpserted = true →
      other.began ≤ call.began) →
    ∀ record, s.store.records.get? call.key = some record → call.record = some record

variable {s t : GateState} {index : Nat} {call next : RuntimeCall} (enabled : Bool)

theorem recordsKept_start (store : AttemptRecordStore) :
    ({ store := store } : GateState).RecordsKept :=
  ⟨fun _ h => absurd h not_mem_nil, fun _ h => absurd h not_mem_nil⟩

/-- A step that writes nothing. -/
theorem RecordsKept.set (h : s.RecordsKept) (hcall : s.calls[index]? = some call)
    (hcalls : t.calls = s.calls.set index next) (hstore : t.store = s.store)
    (hsound : next.Sound) (hkey : next.key = call.key)
    (hupserted : next.initialUpserted = call.initialUpserted)
    (hsame : call.initialUpserted = true → next.began = call.began ∧ next.record = call.record) :
    t.RecordsKept := by
  have hmem := mem_of_getElem? hcall
  have hnext : next ∈ t.calls := by
    rw [hcalls]
    exact mem_set (List.getElem?_eq_some_iff.mp hcall).1 next
  have hold : ∀ other ∈ s.calls, other = call ∨ other ∈ t.calls := by
    intro other hother
    obtain ⟨i, hi⟩ := mem_iff_getElem?.mp hother
    by_cases hindex : i = index
    · subst hindex
      exact .inl (some.inj (hi.symm.trans hcall))
    · refine .inr (mem_iff_getElem?.mpr ⟨i, ?_⟩)
      rw [hcalls, getElem?_set_ne (Ne.symm hindex)]
      exact hi
  refine ⟨fun other hother => ?_, fun other hother hwritten hlast record hget => ?_⟩
  · rw [hcalls] at hother
    rcases mem_or_eq_of_mem_set hother with hin | rfl
    · exact h.sound other hin
    · exact hsound
  · have hlast' : ∀ later ∈ s.calls, later.key = other.key → later.initialUpserted = true →
        later.began ≤ other.began := by
      intro later hlater hlaterKey hlaterWritten
      rcases hold later hlater with rfl | hin
      · rw [← (hsame hlaterWritten).1]
        exact hlast next hnext (hkey.trans hlaterKey) (hupserted.trans hlaterWritten)
      · exact hlast later hin hlaterKey hlaterWritten
    rw [hstore] at hget
    rw [hcalls] at hother
    rcases mem_or_eq_of_mem_set hother with hin | rfl
    · exact h.stored other hin hwritten hlast' record hget
    · rw [hupserted] at hwritten
      obtain ⟨hbegan, hrecord⟩ := hsame hwritten
      rw [hkey, hbegan] at hlast'
      rw [hrecord]
      exact h.stored call hmem hwritten hlast' record (hkey ▸ hget)

theorem RecordsKept.push (h : s.RecordsKept) (hcalls : t.calls = s.calls ++ [call])
    (hstore : t.store = s.store) (hsound : call.Sound) (hupserted : call.initialUpserted = false) :
    t.RecordsKept := by
  have hcases : ∀ other ∈ t.calls, other ∈ s.calls ∨ other = call := by
    intro other hother
    rw [hcalls] at hother
    exact (mem_append.mp hother).imp_right mem_singleton.mp
  refine ⟨fun other hother => ?_, fun other hother hwritten hlast record hget => ?_⟩
  · rcases hcases other hother with hold | rfl
    · exact h.sound other hold
    · exact hsound
  · rw [hstore] at hget
    rcases hcases other hother with hold | rfl
    · refine h.stored other hold hwritten (fun later hlater => hlast later ?_) record hget
      rw [hcalls]
      exact mem_append_left _ hlater
    · rw [hupserted] at hwritten
      cases hwritten

/-- The write of a call that is not superseded. -/
theorem RecordsKept.write (h : s.RecordsKept) (hgenerations : s.GenerationsKept)
    {record : AttemptRecord} (hcall : s.calls[index]? = some call)
    (hcalls : t.calls = s.calls.set index next) (hlast : s.superseded call = false)
    (hupsert : s.store.upsertAttempt record = .ok t.store) (hsound : next.Sound)
    (hkey : next.key = call.key) (hbegan : next.began = call.began)
    (hwritten : next.initialUpserted = true) (hrecord : next.record = some record)
    (hrecordKey : record.key = call.key) : t.RecordsKept := by
  have hmem := mem_of_getElem? hcall
  have hnext : next ∈ t.calls := by
    rw [hcalls]
    exact mem_set (List.getElem?_eq_some_iff.mp hcall).1 next
  refine ⟨fun other hother => ?_, fun other hother hother' hlast' record' hget => ?_⟩
  · rw [hcalls] at hother
    rcases mem_or_eq_of_mem_set hother with hin | rfl
    · exact h.sound other hin
    · exact hsound
  · have hinserted := (AttemptRecordStore.trimmed_upsertAttempt hupsert).record _ _ hget
    rw [AttemptRecordStore.get?_insert, hrecordKey] at hinserted
    rw [hcalls] at hother
    obtain ⟨i, hi⟩ := mem_iff_getElem?.mp hother
    rcases getElem?_set_eq_some hi with ⟨-, rfl⟩ | ⟨hne, hold⟩
    · rw [if_pos hkey] at hinserted
      exact hrecord.trans hinserted
    · have hin := mem_of_getElem? hold
      by_cases hsame : other.key = call.key
      · -- the last call that wrote would be the one that has begun as late as this one
        exfalso
        have hle := hlast' next hnext (hkey.trans hsame.symm) hwritten
        have hge := superseded_eq_false.mp hlast other hin hsame
        rw [hbegan] at hle
        have hpos : 0 < other.began := by
          refine Nat.pos_of_ne_zero fun hzero => ?_
          have hbefore := (h.sound other hin).before ((hgenerations.before other hin).mpr hzero)
          rw [hbefore.2.1] at hother'
          cases hother'
        exact hne (hgenerations.distinct i index other call hold hcall (by omega) hpos)
      · rw [if_neg hsame] at hinserted
        refine h.stored other hin hother' (fun later hlater hlaterKey hlaterWritten => ?_) record'
          hinserted
        obtain ⟨j, hj⟩ := mem_iff_getElem?.mp hlater
        have hplace : j ≠ index := by
          rintro rfl
          obtain rfl : call = later := some.inj (hcall.symm.trans hj)
          exact hsame hlaterKey.symm
        refine hlast' later (mem_iff_getElem?.mpr ⟨j, ?_⟩) hlaterKey hlaterWritten
        rw [hcalls, getElem?_set_ne (Ne.symm hplace)]
        exact hj

/-! ## Steps of one call -/

/-- The call is on its thread, at its gate and of its generation. -/
structure SameCall (call next : RuntimeCall) : Prop where
  thread : next.thread = call.thread
  key : next.key = call.key
  gate : next.gate = call.gate
  began : next.began = call.began
  generation : next.generation = call.generation

theorem goes_setCall (hcall : s.calls[index]? = some call) (store : AttemptRecordStore)
    (hsame : SameCall call next) (hactive : next.active = call.active)
    (hbefore : next.phase.before = call.phase.before)
    (hholding : next.holding = true →
      call.holding = true ∨ (call.phase = .entered ∧ s.lockFree call = true))
    (htop : s.isTop index call = true ∨ next.phase = call.phase)
    (hopen : call.isOpen = call.phase.inside → next.isOpen = next.phase.inside)
    (hwriting : ∀ write, next.phase = .writing write → s.acceptsUpdate call = true) :
    s.Goes { s.setCall index next with store := store } index call next :=
  ⟨hcall, rfl, rfl, rfl, rfl, rfl, rfl, hsame.thread, hsame.key, hsame.gate, hsame.began,
    hsame.generation, hactive, hbefore, hholding, htop, hopen, hwriting⟩

/-- A delivery that comes to no write. -/
theorem goes_settled (hcall : s.calls[index]? = some call) (hsettled : call.settled = true)
    (hsame : SameCall call next) (hphase : next.phase = call.phase)
    (hopen : next.isOpen = call.isOpen) : s.Goes (s.setCall index next) index call next := by
  refine goes_setCall hcall s.store hsame ?_ (by rw [hphase]) (fun hheld => .inl ?_) (.inr hphase)
    (fun h => by rw [hopen, hphase, h]) fun write hwriting => ?_
  · unfold RuntimeCall.active
    rw [hphase]
  · unfold RuntimeCall.holding at hheld ⊢
    rwa [hphase] at hheld
  · unfold RuntimeCall.settled at hsettled
    rw [← hphase, hwriting] at hsettled
    cases hsettled

/-- A step from one phase to another. -/
theorem goes_phase {phase : CallPhase} (hcall : s.calls[index]? = some call)
    (store : AttemptRecordStore) (htop : s.isTop index call = true) (hsame : SameCall call next)
    (hphase : call.phase = phase) (hactive : next.phase ≠ .left ∧ phase ≠ .left)
    (hbefore : next.phase.before = phase.before)
    (hholding : next.holding = true →
      call.holding = true ∨ (call.phase = .entered ∧ s.lockFree call = true))
    (hopen : call.isOpen = phase.inside → next.isOpen = next.phase.inside)
    (hwriting : ∀ write, next.phase = .writing write → s.acceptsUpdate call = true) :
    s.Goes { s.setCall index next with store := store } index call next := by
  subst hphase
  refine goes_setCall hcall store hsame ?_ hbefore hholding (.inl htop) hopen hwriting
  unfold RuntimeCall.active
  rw [decide_eq_true hactive.1, decide_eq_true hactive.2]

/-- What every step of a run keeps. -/
structure Kept (s : GateState) : Prop where
  gates : s.GatesKept
  generations : s.GenerationsKept
  records : s.RecordsKept

theorem kept_start (store : AttemptRecordStore) : ({ store := store } : GateState).Kept :=
  ⟨gatesKept_start store, generationsKept_start store, recordsKept_start store⟩

/-- A step that goes on with a call and writes nothing. -/
theorem Kept.goes (h : s.Kept) (hgoes : s.Goes t index call next) (hstore : t.store = s.store)
    (hsound : next.Sound) (hupserted : next.initialUpserted = call.initialUpserted)
    (hrecord : call.initialUpserted = true → next.record = call.record) : t.Kept where
  gates := hgoes.gatesKept h.gates
  generations := hgoes.generationsKept h.generations
  records := h.records.set hgoes.present hgoes.calls hstore hsound hgoes.key hupserted
    fun hwritten => ⟨hgoes.began, hrecord hwritten⟩

theorem Kept.enter (h : s.Kept) {thread : Nat} (hthread : s.canEnter thread = true)
    (key : RecordKey) : (s.enter thread key).Kept := by
  have hgates := h.gates.enter hthread key
  obtain ⟨gate, hcalls, hgenerations, hbegins, hstore⟩ : ∃ gate, (s.enter thread key).calls =
      s.calls ++ [{ thread := thread, key := key, gate := gate }] ∧
      (s.enter thread key).generations = s.generations ∧
      (s.enter thread key).begins = s.begins ∧ (s.enter thread key).store = s.store := by
    unfold GateState.enter
    split
    · exact ⟨_, rfl, rfl, rfl, rfl⟩
    · exact ⟨_, rfl, rfl, rfl, rfl⟩
  exact ⟨hgates, h.generations.push hcalls hgenerations hbegins rfl rfl rfl,
    h.records.push hcalls hstore ⟨rfl, rfl, rfl⟩ rfl⟩

theorem Kept.acquire (h : s.Kept) (hcall : s.calls[index]? = some call)
    (htop : s.isTop index call = true) (hphase : call.phase = .entered)
    (hfree : s.lockFree call = true) :
    (s.setCall index { call with phase := .locked }).Kept := by
  have hbefore := (h.records.sound call (mem_of_getElem? hcall)).before (by rw [hphase]; rfl)
  refine h.goes (goes_phase hcall s.store htop ⟨rfl, rfl, rfl, rfl, rfl⟩ hphase ⟨?_, ?_⟩ rfl
    (fun _ => .inr ⟨hphase, hfree⟩) id fun _ hwriting => ?_) rfl hbefore rfl fun _ => rfl
  · exact fun hleft => by cases hleft
  · exact fun hleft => by cases hleft
  · cases hwriting

theorem Kept.begin (h : s.Kept) (enabled : Bool) (hcall : s.calls[index]? = some call)
    (htop : s.isTop index call = true) (hphase : call.phase = .locked) :
    (s.begin enabled index call).Kept := by
  obtain ⟨-, hupserted, hdelivered⟩ :=
    (h.records.sound call (mem_of_getElem? hcall)).before (by rw [hphase]; rfl)
  refine ⟨?_, h.generations.begin h.gates enabled hcall hphase, ?_⟩
  · refine h.gates.set hcall rfl rfl rfl rfl rfl rfl rfl ?_ (fun _ => .inl ?_) (.inl htop)
    · unfold RuntimeCall.active
      rw [hphase]
      rfl
    · unfold RuntimeCall.holding
      rw [hphase]
  · refine h.records.set hcall rfl rfl (.inl ⟨hupserted, hdelivered⟩) rfl rfl fun hwritten => ?_
    rw [hupserted] at hwritten
    cases hwritten

theorem Kept.close (h : s.Kept) (hcall : s.calls[index]? = some call)
    (htop : s.isTop index call = true) (hphase : call.phase = .running) :
    (s.setCall index { call with phase := .closed, isOpen := false }).Kept := by
  have hrecorded := (h.records.sound call (mem_of_getElem? hcall)).recorded (by
    unfold RuntimeCall.settled
    rw [hphase])
  refine h.goes (goes_phase hcall s.store htop ⟨rfl, rfl, rfl, rfl, rfl⟩ hphase ⟨?_, ?_⟩ rfl
    (fun _ => .inl ?_) (fun _ => rfl) fun _ hwriting => ?_) rfl hrecorded rfl fun _ => rfl
  · exact fun hleft => by cases hleft
  · exact fun hleft => by cases hleft
  · unfold RuntimeCall.holding
    rw [hphase]
  · cases hwriting

theorem Kept.release (h : s.Kept) (hcall : s.calls[index]? = some call)
    (htop : s.isTop index call = true) (hphase : call.phase = .closed) :
    (s.setCall index { call with phase := .released }).Kept := by
  have hrecorded := (h.records.sound call (mem_of_getElem? hcall)).recorded (by
    unfold RuntimeCall.settled
    rw [hphase])
  refine h.goes (goes_phase hcall s.store htop ⟨rfl, rfl, rfl, rfl, rfl⟩ hphase ⟨?_, ?_⟩ rfl
    (fun hheld => ?_) id fun _ hwriting => ?_) rfl hrecorded rfl fun _ => rfl
  · exact fun hleft => by cases hleft
  · exact fun hleft => by cases hleft
  · cases hheld
  · cases hwriting

theorem Kept.leave (h : s.Kept) (hcall : s.calls[index]? = some call)
    (hphase : call.phase = .released) : (s.leave index call).Kept := by
  obtain ⟨hcalls, -, -, -, hstore⟩ := leave_eq s index call
  have hrecorded := (h.records.sound call (mem_of_getElem? hcall)).recorded (by
    unfold RuntimeCall.settled
    rw [hphase])
  exact ⟨h.gates.leave hcall hphase, h.generations.leave h.gates hcall hphase,
    h.records.set hcall hcalls hstore hrecorded rfl rfl fun _ => ⟨rfl, rfl⟩⟩

/-! ## Deliveries -/

theorem running_of_acceptsUpdate (h : s.Kept) (hcall : call ∈ s.calls)
    (hsettled : call.settled = true) (haccepts : s.acceptsUpdate call = true) :
    call.phase = .running := by
  have hopen : call.isOpen = true := (Bool.and_eq_true _ _ ▸ haccepts).1
  rw [h.generations.isOpen call hcall] at hopen
  unfold CallPhase.inside at hopen
  split at hopen
  · next hphase => exact hphase
  · next hphase =>
    unfold RuntimeCall.settled at hsettled
    rw [hphase] at hsettled
    cases hsettled
  all_goals cases hopen

/-- The start of a write that was accepted. -/
theorem goes_writing (h : s.Kept) {write : AcceptedWrite} (hcall : s.calls[index]? = some call)
    (hsettled : call.settled = true) (htop : call.phase = .running → s.isTop index call = true)
    (haccepts : s.acceptsUpdate call = true) (hsame : SameCall call next)
    (hphase : next.phase = .writing write) (hopen : next.isOpen = call.isOpen) :
    s.Goes (s.setCall index next) index call next := by
  have hrunning := running_of_acceptsUpdate h (mem_of_getElem? hcall) hsettled haccepts
  refine goes_phase hcall s.store (htop hrunning) hsame hrunning ⟨?_, ?_⟩ ?_ (fun _ => .inl ?_)
    (fun h => ?_) fun _ _ => haccepts
  · rw [hphase]
    exact fun hleft => by cases hleft
  · exact fun hleft => by cases hleft
  · rw [hphase]
    rfl
  · unfold RuntimeCall.holding
    rw [hrunning]
  · rw [hopen, hphase, h]
    rfl

theorem Kept.publishInitial (h : s.Kept) (enabled : Bool) {attempt : Attempt}
    (hcall : s.calls[index]? = some call) (hsettled : call.settled = true)
    (htop : call.phase = .running → s.isTop index call = true) (hkey : attempt.key = call.key)
    (hnone : call.record = none) : (s.publishInitial enabled index call attempt).Kept := by
  have hmem := mem_of_getElem? hcall
  obtain ⟨hfresh, hdelivered⟩ := ((h.records.sound call hmem).recorded hsettled).of_none hnone
  have hwritten : ∀ next : RuntimeCall, call.initialUpserted = true →
      next.record = call.record := fun next hwritten => by
    rw [hfresh] at hwritten
    cases hwritten
  -- a delivery that only changes the record and the counters
  have hkeeps : ∀ next : RuntimeCall, SameCall call next → next.phase = call.phase →
      next.isOpen = call.isOpen → next.initialUpserted = call.initialUpserted →
      next.delivered = call.delivered → (s.setCall index next).Kept := by
    intro next hsame hphase hopen hupserted hsameDelivered
    have hnextSettled : next.settled = true := by
      unfold RuntimeCall.settled at hsettled ⊢
      rw [hphase]
      exact hsettled
    refine h.goes (goes_settled hcall hsettled hsame hphase hopen) rfl ?_ hupserted (hwritten next)
    exact RuntimeCall.sound_of_recorded hnextSettled
      (.inl ⟨hupserted.trans hfresh, hsameDelivered.trans hdelivered⟩)
  unfold GateState.publishInitial
  dsimp only
  split
  · exact hkeeps _ ⟨rfl, rfl, rfl, rfl, rfl⟩ rfl rfl rfl rfl
  · split
    · exact hkeeps _ ⟨rfl, rfl, rfl, rfl, rfl⟩ rfl rfl rfl rfl
    · split
      · exact hkeeps _ ⟨rfl, rfl, rfl, rfl, rfl⟩ rfl rfl rfl rfl
      · next haccepts =>
        have haccepts : s.acceptsUpdate call = true := by
          rw [Bool.not_eq_true', Bool.not_eq_false] at haccepts
          exact haccepts
        refine h.goes (goes_writing h hcall hsettled htop haccepts ⟨rfl, rfl, rfl, rfl, rfl⟩ rfl
          rfl) rfl ?_ rfl (hwritten _)
        exact ⟨⟨hfresh, hdelivered⟩, rfl, rfl, hkey⟩

/-- A delivery remembers the facts, if they are storable and the call is the last of its key. -/
theorem deliver_eq (s : GateState) (call : RuntimeCall) (routeId : String)
    (facts : AttemptFailureFacts) :
    ∃ delivered, s.deliver call routeId facts = { call with delivered := delivered } ∧
      delivered = call.delivered ++
        if call.isOpen && !s.superseded call && call.initialUpserted && routeId ≠ "" &&
          facts.faultOutcome.isSome then [(routeId, facts)] else [] := by
  unfold deliver
  split
  · exact ⟨_, rfl, rfl⟩
  · exact ⟨call.delivered, rfl, (append_nil _).symm⟩

theorem Kept.publishEnriched (h : s.Kept) (hcall : s.calls[index]? = some call)
    (hsettled : call.settled = true) (htop : call.phase = .running → s.isTop index call = true)
    (routeId : String) (routeRecord : AttemptRecord) :
    (s.publishEnriched index call routeId routeRecord).Kept := by
  have hmem := mem_of_getElem? hcall
  have hrecorded := (h.records.sound call hmem).recorded hsettled
  have haccepts := h.generations.acceptsUpdate_eq hmem
  unfold GateState.publishEnriched
  split
  · exact h
  · next entry hentry =>
    obtain ⟨delivered, hdeliver, hdelivered⟩ := deliver_eq s call routeId entry.facts
    dsimp only
    rw [hdeliver]
    -- a delivery that is not remembered only changes a counter
    have hkeeps : ∀ next : RuntimeCall, SameCall call next → next.phase = call.phase →
        next.isOpen = call.isOpen → next.initialUpserted = call.initialUpserted →
        next.record = call.record → next.initial = call.initial → next.delivered = delivered →
        delivered = call.delivered → (s.setCall index next).Kept := by
      intro next hsame hphase hopen hupserted hrecord hinitial hnext hsameDelivered
      have hnextSettled : next.settled = true := by
        unfold RuntimeCall.settled at hsettled ⊢
        rw [hphase]
        exact hsettled
      refine h.goes (goes_settled hcall hsettled hsame hphase hopen) rfl ?_ hupserted
        fun _ => hrecord
      refine RuntimeCall.sound_of_recorded hnextSettled ?_
      unfold RuntimeCall.Recorded RuntimeCall.HasRecord
      rw [hupserted, hrecord, hinitial, hsame.key, hnext, hsameDelivered]
      exact hrecorded
    split
    · next hnone =>
      refine hkeeps _ ⟨rfl, rfl, rfl, rfl, rfl⟩ rfl rfl rfl rfl rfl rfl ?_
      rw [hdelivered, (hrecorded.of_none hnone).1]
      simp
    · next record hrecord =>
      split
      · next hfresh =>
        refine hkeeps _ ⟨rfl, rfl, rfl, rfl, rfl⟩ rfl rfl rfl rfl rfl rfl ?_
        rw [Bool.not_eq_true'] at hfresh
        rw [hdelivered, hfresh]
        simp
      · next hwritten =>
        split
        · next hrefused =>
          refine hkeeps _ ⟨rfl, rfl, rfl, rfl, rfl⟩ rfl rfl rfl rfl rfl rfl ?_
          rw [Bool.not_eq_true'] at hrefused
          rw [hdelivered, ← haccepts, hrefused]
          simp
        · next haccepted =>
          split
          · next hroute =>
            refine hkeeps _ ⟨rfl, rfl, rfl, rfl, rfl⟩ rfl rfl rfl rfl rfl rfl ?_
            rw [hdelivered, hroute]
            simp
          · next hroute =>
            have haccepted : s.acceptsUpdate call = true := by
              rw [Bool.not_eq_true', Bool.not_eq_false] at haccepted
              exact haccepted
            have hwritten : call.initialUpserted = true := by
              rw [Bool.not_eq_true', Bool.not_eq_false] at hwritten
              exact hwritten
            refine h.goes (goes_writing h hcall hsettled htop haccepted
              ⟨rfl, rfl, rfl, rfl, rfl⟩ rfl rfl) rfl ?_ rfl fun _ => rfl
            rcases hrecorded with ⟨hfresh, -⟩ | ⟨current, hcurrent⟩
            · rw [hwritten] at hfresh
              cases hfresh
            · obtain rfl : current = record :=
                some.inj (hcurrent.2.1.symm.trans hrecord)
              refine ⟨current, entry.facts, call.delivered, hcurrent, rfl, ?_⟩
              change delivered = _
              rw [hdelivered, ← haccepts, haccepted, hwritten, decide_eq_true hroute]
              rfl

theorem Kept.upsert (h : s.Kept) {write : AcceptedWrite} (hcall : s.calls[index]? = some call)
    (htop : s.isTop index call = true) (hphase : call.phase = .writing write) :
    (s.upsert index call write).Kept := by
  have hmem := mem_of_getElem? hcall
  have hsound := h.records.sound call hmem
  have hlast := h.generations.writing call hmem write hphase
  have hgoes : ∀ (next : RuntimeCall) (store : AttemptRecordStore), SameCall call next →
      next.phase = .running → next.isOpen = call.isOpen →
      s.Goes { s.setCall index next with store := store } index call next := by
    intro next store hsame hnext hopen
    refine goes_phase hcall store htop hsame hphase ⟨?_, ?_⟩ (by rw [hnext]; rfl)
      (fun _ => .inl ?_) (fun hinside => ?_) fun _ hwriting => ?_
    · rw [hnext]
      exact fun hleft => by cases hleft
    · exact fun hleft => by cases hleft
    · unfold RuntimeCall.holding
      rw [hphase]
    · rw [hopen, hnext, hinside]
      rfl
    · rw [hnext] at hwriting
      cases hwriting
  -- the record is written, and the call has it
  have hwrites : ∀ (next : RuntimeCall) (store : AttemptRecordStore) (record : AttemptRecord),
      s.store.upsertAttempt record = .ok store → SameCall call next → next.phase = .running →
      next.isOpen = call.isOpen → record.key = call.key → next.delivered = call.delivered →
      next.HasRecord call.delivered record → Kept { s.setCall index next with store := store } := by
    intro next store record hupsert hsame hnext hopen hkey hdelivered hrecord
    have hgo := hgoes next store hsame hnext hopen
    have hnextSound : next.Sound := by
      refine RuntimeCall.sound_of_recorded ?_ (.inr ⟨record, hdelivered ▸ hrecord⟩)
      unfold RuntimeCall.settled
      rw [hnext]
    exact ⟨hgo.gatesKept h.gates, hgo.generationsKept h.generations,
      h.records.write h.generations hcall rfl hlast hupsert hnextSound hsame.key hsame.began
        hrecord.1 hrecord.2.1 hkey⟩
  cases write with
  | initial record =>
    unfold RuntimeCall.Sound at hsound
    rw [hphase] at hsound
    obtain ⟨⟨hfresh, hdelivered⟩, hinitial, henriched, hkey⟩ := hsound
    unfold GateState.upsert
    dsimp only
    split
    · refine h.goes (hgoes _ s.store ⟨rfl, rfl, rfl, rfl, rfl⟩ rfl rfl) rfl
        (.inl ⟨hfresh, hdelivered⟩) rfl fun _ => rfl
    · next store hupsert =>
      refine hwrites _ store record hupsert ⟨rfl, rfl, rfl, rfl, rfl⟩ rfl rfl hkey rfl
        ⟨rfl, rfl, record, hinitial, hkey, ?_⟩
      rw [hdelivered]
      exact .start henriched (validate_of_upsertAttempt hupsert)
  | enriched routeId record =>
    unfold RuntimeCall.Sound at hsound
    rw [hphase] at hsound
    obtain ⟨current, facts, delivered, hrecord, rfl, hdelivered⟩ := hsound
    obtain ⟨hwritten, hcurrent, initial, hinitial, hkey, hbuilt⟩ := hrecord
    unfold GateState.upsert
    dsimp only
    split
    · next error herror =>
      have hfacts : ¬ facts.faultOutcome.isSome = true := fun hfacts => by
        have hstorable := (validate_withEnriched hbuilt.storable routeId facts).mpr hfacts
        rw [AttemptRecordStore.upsertAttempt, hstorable] at herror
        cases herror
      rw [if_neg hfacts, append_nil] at hdelivered
      refine h.goes (hgoes _ s.store ⟨rfl, rfl, rfl, rfl, rfl⟩ rfl rfl) rfl
        (.inr ⟨current, hwritten, hcurrent, initial, hinitial, hkey, ?_⟩) rfl fun _ => rfl
      exact hdelivered ▸ hbuilt
    · next store hupsert =>
      have hfacts := (validate_withEnriched hbuilt.storable routeId facts).mp
        (validate_of_upsertAttempt hupsert)
      rw [if_pos hfacts] at hdelivered
      refine hwrites _ store _ hupsert ⟨rfl, rfl, rfl, rfl, rfl⟩ rfl rfl
        (hbuilt.key.trans hkey) rfl ⟨hwritten, rfl, initial, hinitial, hkey, ?_⟩
      rw [hdelivered]
      exact hbuilt.withEnriched routeId hfacts

/-! ## Runs -/

theorem kept_step {action : GateAction} (h : s.Kept)
    (hstep : (gates enabled).step s action = some t) : t.Kept := by
  cases action with
  | enter thread key =>
    simp only [gates] at hstep
    split at hstep
    · next hthread => exact some.inj hstep ▸ h.enter hthread key
    · cases hstep
  | acquire index =>
    obtain ⟨call, hcall, htop, hnext⟩ := onTop_eq_some hstep
    split at hnext
    · next hready => exact some.inj hnext ▸ h.acquire hcall htop hready.1 hready.2
    · cases hnext
  | begin index =>
    obtain ⟨call, hcall, htop, hnext⟩ := onTop_eq_some hstep
    split at hnext
    · next hphase => exact some.inj hnext ▸ h.begin enabled hcall htop hphase
    · cases hnext
  | publishInitial index attempt =>
    obtain ⟨call, hcall, hsettled, htop, hnext⟩ := onDelivery_eq_some hstep
    split at hnext
    · next hready =>
      exact some.inj hnext ▸
        h.publishInitial enabled hcall hsettled htop hready.1 hready.2
    · cases hnext
  | publishEnriched index routeId routeRecord =>
    obtain ⟨call, hcall, hsettled, htop, hnext⟩ := onDelivery_eq_some hstep
    exact some.inj hnext ▸ h.publishEnriched hcall hsettled htop routeId routeRecord
  | upsert index =>
    obtain ⟨call, hcall, htop, hnext⟩ := onTop_eq_some hstep
    split at hnext
    · next write hphase => exact some.inj hnext ▸ h.upsert hcall htop hphase
    · cases hnext
  | close index =>
    obtain ⟨call, hcall, htop, hnext⟩ := onTop_eq_some hstep
    split at hnext
    · next hphase => exact some.inj hnext ▸ h.close hcall htop hphase
    · cases hnext
  | release index =>
    obtain ⟨call, hcall, htop, hnext⟩ := onTop_eq_some hstep
    split at hnext
    · next hphase => exact some.inj hnext ▸ h.release hcall htop hphase
    · cases hnext
  | leave index =>
    obtain ⟨call, hcall, -, hnext⟩ := onTop_eq_some hstep
    split at hnext
    · next hphase => exact some.inj hnext ▸ h.leave hcall hphase
    · cases hnext

theorem kept_of_reachable (hs : (gates enabled).Reachable (fun _ _ => True) s) : s.Kept := by
  refine hs.invariant (fun s hinit => ?_) fun s action t h _ hstep => kept_step enabled h hstep
  rw [show s = { store := s.store } from hinit]
  exact kept_start s.store

/-- Only the write of a call that is open and not superseded changes the store. -/
theorem store_step {action : GateAction} (h : s.Kept)
    (hstep : (gates enabled).step s action = some t) : t.store = s.store ∨
      ∃ index call record, action = .upsert index ∧ s.calls[index]? = some call ∧
        call.isOpen = true ∧ s.superseded call = false ∧ record.key = call.key ∧
        s.store.upsertAttempt record = .ok t.store := by
  cases action with
  | enter thread key =>
    simp only [gates] at hstep
    split at hstep
    · refine .inl (some.inj hstep ▸ ?_)
      unfold GateState.enter
      split <;> rfl
    · cases hstep
  | acquire index | begin index =>
    obtain ⟨call, -, -, hnext⟩ := onTop_eq_some hstep
    split at hnext
    · exact .inl (some.inj hnext ▸ rfl)
    · cases hnext
  | publishInitial index attempt =>
    obtain ⟨call, -, -, -, hnext⟩ := onDelivery_eq_some hstep
    split at hnext
    · refine .inl (some.inj hnext ▸ ?_)
      unfold GateState.publishInitial
      dsimp only
      split
      · rfl
      · split
        · rfl
        · split <;> rfl
    · cases hnext
  | publishEnriched index routeId routeRecord =>
    obtain ⟨call, -, -, -, hnext⟩ := onDelivery_eq_some hstep
    refine .inl (some.inj hnext ▸ ?_)
    unfold GateState.publishEnriched
    split
    · rfl
    · dsimp only
      split
      · rfl
      · split
        · rfl
        · split
          · rfl
          · split <;> rfl
  | upsert index =>
    obtain ⟨call, hcall, -, hnext⟩ := onTop_eq_some hstep
    split at hnext
    · next write hphase =>
      have hmem := mem_of_getElem? hcall
      have hopen : call.isOpen = true := by
        rw [h.generations.isOpen call hmem, hphase]
        rfl
      have hlast := h.generations.writing call hmem write hphase
      have hsound := h.records.sound call hmem
      unfold RuntimeCall.Sound at hsound
      rw [hphase] at hsound
      rw [← some.inj hnext]
      unfold GateState.upsert
      cases write with
      | initial record =>
        dsimp only
        split
        · exact .inl rfl
        · next store hupsert =>
          exact .inr ⟨index, call, record, rfl, hcall, hopen, hlast, hsound.2.2.2, hupsert⟩
      | enriched routeId record =>
        dsimp only
        split
        · exact .inl rfl
        · next store hupsert =>
          obtain ⟨current, facts, delivered, hrecord, hwith, -⟩ := hsound
          obtain ⟨-, -, initial, -, hkey, hbuilt⟩ := hrecord
          refine .inr ⟨index, call, record, rfl, hcall, hopen, hlast, ?_, hupsert⟩
          rw [hwith]
          exact hbuilt.key.trans hkey
    · cases hnext
  | close index | release index =>
    obtain ⟨call, -, -, hnext⟩ := onTop_eq_some hstep
    split at hnext
    · exact .inl (some.inj hnext ▸ rfl)
    · cases hnext
  | leave index =>
    obtain ⟨call, -, -, hnext⟩ := onTop_eq_some hstep
    split at hnext
    · exact .inl (some.inj hnext ▸ (leave_eq s index call).2.2.2.2)
    · cases hnext

/-- What the calls of a run leave in the store. -/
structure CallsRecorded (enabled : Bool) (s : GateState) : Prop where
  recorded : ∀ call ∈ s.calls, call.settled = true → call.initialUpserted = true →
    ∃ initial current, call.initial = some initial ∧ initial.key = call.key ∧
      call.record = some current ∧ Built initial call.delivered current
  stored : ∀ call ∈ s.calls, call.initialUpserted = true →
    (∀ other ∈ s.calls, other.key = call.key → other.initialUpserted = true →
      other.began ≤ call.began) →
    s.store.records.get? call.key = none ∨ s.store.records.get? call.key = call.record
  written : ∀ action t, (gates enabled).step s action = some t → t.store = s.store ∨
    ∃ index call record, action = .upsert index ∧ s.calls[index]? = some call ∧
      call.isOpen = true ∧ s.superseded call = false ∧ record.key = call.key ∧
      s.store.upsertAttempt record = .ok t.store

theorem callsRecorded_of_reachable (hs : (gates enabled).Reachable (fun _ _ => True) s) :
    CallsRecorded enabled s := by
  have h := kept_of_reachable enabled hs
  refine ⟨fun call hcall hsettled hwritten => ?_, fun call hcall hwritten hlast => ?_,
    fun _ _ hstep => store_step enabled h hstep⟩
  · rcases (h.records.sound call hcall).recorded hsettled with ⟨hfresh, -⟩ | ⟨current, hrecord⟩
    · rw [hwritten] at hfresh
      cases hfresh
    · obtain ⟨-, hcurrent, initial, hinitial, hkey, hbuilt⟩ := hrecord
      exact ⟨initial, current, hinitial, hkey, hcurrent, hbuilt⟩
  · cases hget : s.store.records.get? call.key with
    | none => exact .inl rfl
    | some record => exact .inr (h.records.stored call hcall hwritten hlast record hget).symm

end GateState

/-- Every route is settled once, whatever the futures, the waiter and the callbacks do; and in every
run of the runtime the record a call leaves is its own. -/
theorem modelRoutes_accounted {Result Trace : Type} (env : RouteEnv Result Trace)
    {routes : List ModelRoute} (hids : (routes.map ModelRoute.routeId).Nodup) (enabled : Bool)
    {s : GateState} (hs : (gates enabled).Reachable (fun _ _ => True) s) :
    RouteEnv.EachOnce env routes (env.executeModelRoutes routes) ∧
      GateState.CallsRecorded enabled s :=
  ⟨RouteEnv.executeModelRoutes_eachOnce env hids, GateState.callsRecorded_of_reachable enabled hs⟩

/-! ### A run -/

def oneFact : AttemptFailureFacts := ⟨some "root", some "l0", some .terminal, none, none⟩

def oneAttempt : Attempt where
  jobId := "job"
  cycleId := 0
  primary := some { failureClass := "cuda", faultOutcome := some .terminal }
  rootFingerprint := some "root"
  rootFingerprintSource := some "l0"

/-- A waiter that finds every future done. -/
def allDone : FutureWaiter where
  wait := fun _ _ pending => (pending, [])
  perm := fun _ _ pending => by rw [append_nil]

def twoRoutes : List ModelRoute := [{ routeId := "a" }, { routeId := "b" }]

/-- Every runner raises. -/
def allRaise : RouteEnv Unit Unit where
  clock := fun _ => 0
  deadline := 1
  deterministicResult := ()
  outcome := fun _ => some (.runError "error")
  waiter := allDone
  setOrder := ⟨id, fun _ => .refl _⟩
  onRouteComplete := some fun _ => none
  onAttemptRecordReady := none
  retainDetailedArtifacts := true

/-- A call with the facts of one route; in its callback another call of the key comes and goes, and
what comes after it is ignored. -/
def nestedCalls : List GateAction :=
  [.enter 0 ("job", 0), .acquire 0, .begin 0, .publishInitial 0 oneAttempt, .upsert 0,
    .publishEnriched 0 "a" { oneAttempt.initialRecord with enriched := [⟨"a", oneFact⟩] },
    .upsert 0, .enter 0 ("job", 0), .acquire 1, .begin 1, .close 1, .release 1, .leave 1,
    .publishEnriched 0 "b" { oneAttempt.initialRecord with enriched := [⟨"b", oneFact⟩] },
    .close 0, .release 0, .leave 0]

theorem modelRoutes_accounted_nested :
    ∃ s, (s.store.records.get? ("job", 0) =
          some { oneAttempt.initialRecord with enriched := [⟨"a", oneFact⟩] } ∧
        s.keyGates.get? ("job", 0) = none) ∧
      RouteEnv.EachOnce allRaise twoRoutes (allRaise.executeModelRoutes twoRoutes) ∧
      GateState.CallsRecorded true s := by
  let start : GateState := { store := { maxAttemptsPerJob := 10, maxTotalRecords := 3000 } }
  have hstart : (gates true).init start := rfl
  have hrun : ((gates true).execute (fun _ _ => True) start nestedCalls).any (fun s =>
      decide (s.store.records.get? ("job", 0) =
          some { oneAttempt.initialRecord with enriched := [⟨"a", oneFact⟩] } ∧
        s.keyGates.get? ("job", 0) = none)) = true := by
    decide +kernel
  obtain ⟨s, hs, htest⟩ := System.exists_reachable_of_execute hstart hrun
  exact ⟨s, of_decide_eq_true htest, modelRoutes_accounted allRaise (by decide) true hs⟩

end ResiliencyExt.Attribution.RestartAgent
