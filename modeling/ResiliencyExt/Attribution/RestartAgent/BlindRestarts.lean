import ResiliencyExt.Attribution.RestartAgent.AgentRuntime

set_option autoImplicit false

/-!
# Restart agent: the bound on blind restarts

A job whose attempts fail one after another at the same root and get no further
(`SameFailure`) is restarted at most as often as the general budget allows, as long
as the store keeps the job's last records (`KeepsHistory`): the streak that the
general ceiling counts is the number of the job's records in view.
-/

namespace ResiliencyExt.Attribution.RestartAgent

open Foundation List

variable (config : RestartAgentConfig) (jobId root : String)

/-- The attempts of the job come one after another with increasing cycle ids, each fails at the
same root for good, and none gets further than an earlier one. -/
def SameFailure (s : RuntimeState) : RuntimeAction → Prop
  | .begin attempt => attempt.jobId = jobId →
      (∀ invocation ∈ s.begun, invocation.1.jobId ≠ jobId) ∧
        attempt.rootFingerprint = some root ∧
        qualifyingOutcome attempt.facts.faultOutcome = true ∧
        ∀ answer ∈ s.jobAnswers jobId, answer.attempt.cycleId < attempt.cycleId ∧
          noAdvance (compareProgress attempt.initialRecord attempt.facts
            answer.attempt.initialRecord).relation = true
  | _ => True

/-- When an attempt of the job begins, each of its last attempts, as many as the general budget,
is among the last `max_total_records` insertions. -/
def KeepsHistory (s : RuntimeState) : RuntimeAction → Prop
  | .begin attempt => attempt.jobId = jobId →
      ∀ i answer, (s.jobAnswers jobId)[i]? = some answer →
        (s.jobAnswers jobId).length ≤ i + config.retryPolicy.generalRetryAllowedRetries →
          s.store.nextSequence ≤ answer.number + config.history.maxTotalRecords
  | _ => True

instance (s : RuntimeState) (action : RuntimeAction) :
    Decidable (SameFailure jobId root s action) :=
  match action with
  | .begin _ => inferInstanceAs (Decidable (_ → _ ∧ _ ∧ _ ∧ ∀ answer ∈ s.jobAnswers jobId, _))
  | .publish _ => isTrue trivial
  | .enrich _ _ _ => isTrue trivial

theorem keepsHistory_begin_iff {s : RuntimeState} {attempt : Attempt} :
    KeepsHistory config jobId s (.begin attempt) ↔ (attempt.jobId = jobId →
      ∀ i : Fin (s.jobAnswers jobId).length,
        (s.jobAnswers jobId).length ≤ i + config.retryPolicy.generalRetryAllowedRetries →
          s.store.nextSequence ≤
            (s.jobAnswers jobId)[i].number + config.history.maxTotalRecords) := by
  refine forall_congr' fun _ => ⟨fun h i => h i _ (getElem?_eq_getElem i.2), ?_⟩
  intro h i answer hget
  obtain ⟨hi, rfl⟩ := List.getElem?_eq_some_iff.mp hget
  exact h ⟨i, hi⟩

instance (s : RuntimeState) (action : RuntimeAction) :
    Decidable (KeepsHistory config jobId s action) :=
  match action with
  | .begin _ => decidable_of_iff _ (keepsHistory_begin_iff config jobId).symm
  | .publish _ => isTrue trivial
  | .enrich _ _ _ => isTrue trivial

/-- The answers are restarts up to the general budget and stops from then on. -/
def Bounded (decisions : List Decision) : Prop :=
  ∃ restarts ≤ config.retryPolicy.generalRetryAllowedRetries, ∃ stops,
    decisions = replicate restarts .restart ++ replicate stops .stop

/-- In every run in which a job keeps failing at the same root, the answers to it are bounded. -/
def BlindRestartsBounded : Prop :=
  ∀ jobId root s, root ≠ "" → (runtime config).Reachable (SameFailure jobId root) s →
    Bounded config (s.decisions jobId)

/-! ## What the store keeps of a job -/

/-- A record is one of the answered attempts of the job. -/
def OfAnswers (answers : List Answer) (key : RecordKey) (record : AttemptRecord) : Prop :=
  ∃ answer ∈ answers, key.2 = answer.attempt.cycleId ∧
    record.progress = answer.attempt.progress ∧ record.deterministic = answer.attempt.facts

/-- The view that an attempt of the job was begun with. -/
structure GoodView (answers : List Answer) (attempt : Attempt) (view : PriorAttemptView) :
    Prop where
  root_eq : attempt.rootFingerprint = some root
  outcome : qualifyingOutcome attempt.facts.faultOutcome = true
  later : ∀ answer ∈ answers, answer.attempt.cycleId < attempt.cycleId
  available : view.available = true
  recurs : ∀ prior ∈ view.records, Recurs attempt.initialRecord prior
  length_le : view.records.length ≤ answers.length
  le_length : config.retryPolicy.generalRetryAllowedRetries ≤ answers.length →
    config.retryPolicy.generalRetryAllowedRetries ≤ view.records.length

/-- The answer to the attempt after `earlier` attempts of the job. -/
def Settled (earlier : Nat) (answer : Answer) : Prop :=
  (config.retryPolicy.generalRetryAllowedRetries ≤ earlier →
      answer.evaluation.decision = .stop) ∧
    (earlier < config.retryPolicy.generalRetryAllowedRetries →
      answer.evaluation.decision = .restart ∨
        answer.evaluation.exhaustedBy = [.selectedRuleBudget])

/-- The store holds no other records of the job than those of its answered attempts, and the
last ones of them unless they are older than the total limit reaches. -/
structure StoreHistory (store : AttemptRecordStore) (answers : List Answer) : Prop where
  consistent : store.Consistent
  maxAttemptsPerJob : store.maxAttemptsPerJob = config.history.maxAttemptsPerJob
  maxTotalRecords : store.maxTotalRecords = config.history.maxTotalRecords
  job : ∀ answer ∈ answers, answer.attempt.jobId = jobId
  ordered : answers.Pairwise fun a b => a.attempt.cycleId < b.attempt.cycleId
  stored : ∀ key record, store.records.get? key = some record → key.1 = jobId →
    OfAnswers answers key record
  kept : ∀ i answer, answers[i]? = some answer →
    answers.length ≤ i + config.history.maxAttemptsPerJob →
      store.nextSequence ≤ answer.number + config.history.maxTotalRecords →
        ∃ number, answer.number ≤ number ∧ store.Holds answer.attempt.key number

structure JobHistory (s : RuntimeState) : Prop where
  storage : StoreHistory config jobId s.store (s.jobAnswers jobId)
  sameRoot : ∀ answer ∈ s.jobAnswers jobId, answer.attempt.rootFingerprint = some root ∧
    qualifyingOutcome answer.attempt.facts.faultOutcome = true
  tracked : ∀ key record, s.records.get? key = some record → record.key = key ∧
    (key.1 = jobId → OfAnswers (s.jobAnswers jobId) key record)
  alone : ∀ invocation ∈ s.begun, ∀ other ∈ s.begun, invocation.1.jobId = jobId →
    other.1.jobId = jobId → invocation = other
  views : ∀ invocation ∈ s.begun, invocation.1.jobId = jobId →
    GoodView config root (s.jobAnswers jobId) invocation.1 invocation.2
  settled : ∀ i answer, (s.jobAnswers jobId)[i]? = some answer → Settled config i answer

variable {config} {jobId root}

variable {answers : List Answer} {record : AttemptRecord} {stored : AttemptRecordStore}
    {s : RuntimeState} {attempt : Attempt} {view : PriorAttemptView}

theorem OfAnswers.append {key : RecordKey} (h : OfAnswers answers key record)
    (more : List Answer) : OfAnswers (answers ++ more) key record := by
  obtain ⟨answer, hmem, hrest⟩ := h
  exact ⟨answer, mem_append_left more hmem, hrest⟩

/-- In increasing order, what is not before an attempt stands from it on. -/
theorem mem_drop_of_le {i : Nat} {answer other : Answer}
    (hordered : answers.Pairwise fun a b => a.attempt.cycleId < b.attempt.cycleId)
    (hget : answers[i]? = some answer) (hmem : other ∈ answers)
    (hle : answer.attempt.cycleId ≤ other.attempt.cycleId) : other ∈ answers.drop i := by
  obtain ⟨j, hj, rfl⟩ := mem_iff_getElem.mp hmem
  obtain ⟨hi, rfl⟩ := List.getElem?_eq_some_iff.mp hget
  by_cases hij : i ≤ j
  · refine mem_drop_iff_getElem.mpr ⟨j - i, by omega, ?_⟩
    simp only [Nat.add_sub_cancel' hij]
  · have := pairwise_iff_getElem.mp hordered j i hj hi (by omega)
    omega

/-- Keys of one job, different as they are, have different cycle ids. -/
theorem nodup_cycles {keys : List RecordKey} (hnodup : keys.Nodup)
    (hjob : ∀ key ∈ keys, key.1 = jobId) : (keys.map Prod.snd).Nodup := by
  refine List.Nodup.map_on (fun key hkey key' hkey' heq => ?_) hnodup
  exact Prod.ext ((hjob key hkey).trans (hjob key' hkey').symm) heq

/-- A write of any job keeps the history, and a write of the job itself adds to it the attempt
that was answered with it. -/
theorem StoreHistory.upsertAttempt {store : AttemptRecordStore} {more : List Answer}
    (h : StoreHistory config jobId store answers)
    (hupsert : store.upsertAttempt record = .ok stored)
    (hordered : (answers ++ more).Pairwise fun a b => a.attempt.cycleId < b.attempt.cycleId)
    (hrecord : record.jobId = jobId → OfAnswers (answers ++ more) record.key record)
    (hmore : ∀ answer ∈ more, answer.attempt.jobId = jobId ∧ answer.attempt.key = record.key ∧
      answer.number = store.nextSequence) :
    StoreHistory config jobId stored (answers ++ more) := by
  have htrimmed := AttemptRecordStore.trimmed_upsertAttempt hupsert
  obtain ⟨hlimit, htotal⟩ := AttemptRecordStore.insert_limits store record
  have hjob : ∀ answer ∈ answers ++ more, answer.attempt.jobId = jobId := fun answer hmem =>
    (mem_append.mp hmem).elim (h.job answer) fun hnew => (hmore answer hnew).1
  have hinsert : ∀ key record', (store.insert record).records.get? key = some record' →
      key.1 = jobId → OfAnswers (answers ++ more) key record' := by
    intro key record' hget hkey
    rw [AttemptRecordStore.get?_insert] at hget
    split at hget
    · rename_i heq
      obtain rfl := Option.some.inj hget
      exact heq ▸ hrecord ((congrArg Prod.fst heq).symm.trans hkey)
    · exact (h.stored key record' hget hkey).append more
  refine ⟨h.consistent.upsertAttempt hupsert, ?_, ?_, hjob, hordered, fun key record' hget =>
    hinsert key record' (htrimmed.record key record' hget), fun i answer hget hlast hrecent => ?_⟩
  · rw [htrimmed.maxAttemptsPerJob, hlimit, h.maxAttemptsPerJob]
  · rw [htrimmed.maxTotalRecords, htotal, h.maxTotalRecords]
  have hnext : store.nextSequence ≤ stored.nextSequence := by
    rw [htrimmed.nextSequence]
    exact AttemptRecordStore.nextSequence_le_insert store record
  have hmem : answer ∈ answers ++ more := mem_of_getElem? hget
  -- the write itself holds the record
  have hholds : ∃ number, answer.number ≤ number ∧
      (store.insert record).Holds answer.attempt.key number := by
    rw [length_append] at hlast
    by_cases hold : i < answers.length
    · rw [getElem?_append_left hold] at hget
      obtain ⟨number, hle, hholds⟩ := h.kept i answer hget (by omega) (by omega)
      exact ⟨number, hle, hholds.insert⟩
    · rw [getElem?_append_right (by omega)] at hget
      have hnew := mem_of_getElem? hget
      obtain ⟨hnewjob, hkey, hnumber⟩ := hmore answer hnew
      obtain ⟨number, hholds, hor⟩ := h.consistent.insert_holds_key record
      rw [hkey, hnumber]
      refine ⟨number, Nat.le_of_eq ?_, hholds⟩
      rcases hor with rfl | hbefore
      · rfl
      · obtain ⟨record', hget'⟩ := Dict.exists_get?_of_mem hbefore.1
        obtain ⟨earlier, hearlier, hcycle, -⟩ := h.stored record.key record' hget'
          (by rw [← hkey]; exact hnewjob)
        have hless := (pairwise_append.mp hordered).2.2 earlier hearlier answer hnew
        have heq : record.key.2 = answer.attempt.cycleId := congrArg Prod.snd hkey.symm
        omega
  obtain ⟨number, hle, hholds⟩ := hholds
  refine ⟨number, hle, h.consistent.holds_upsertAttempt hupsert hholds (fun hsame => ?_) (by
    rw [h.maxTotalRecords]
    omega)⟩
  -- the job's keys from this cycle id on are those of the attempts from this one on
  have hrecordJob : record.jobId = jobId := hsame.symm.trans (hjob answer hmem)
  rw [h.maxAttemptsPerJob]
  have hcycles : (((store.insert record).records.keys.filter fun k =>
      k.1 = record.jobId ∧ answer.attempt.key.2 ≤ k.2).map Prod.snd).Nodup :=
    nodup_cycles ((store.insert record).records.nodup_keys.filter _)
      fun k hk => (of_decide_eq_true (mem_filter.mp hk).2).1.trans hrecordJob
  have hsubset : (((store.insert record).records.keys.filter fun k =>
      k.1 = record.jobId ∧ answer.attempt.key.2 ≤ k.2).map Prod.snd) ⊆
        ((answers ++ more).drop i).map fun answer => answer.attempt.cycleId := by
    intro cycle hcycle
    obtain ⟨k, hk, rfl⟩ := mem_map.mp hcycle
    obtain ⟨hkmem, hkprop⟩ := mem_filter.mp hk
    obtain ⟨hkjob, hkle⟩ := of_decide_eq_true hkprop
    obtain ⟨record', hget'⟩ := Dict.exists_get?_of_mem hkmem
    obtain ⟨other, hother, heq, -⟩ := hinsert k record' hget' (hkjob.trans hrecordJob)
    refine mem_map.mpr ⟨other, mem_drop_of_le hordered hget hother ?_, heq.symm⟩
    rw [← heq]
    exact hkle
  have hlength := (subperm_of_subset hcycles hsubset).length_le
  rw [length_map, length_map, length_drop] at hlength
  omega

/-! ## The view of an attempt -/

/-- When an attempt begins, every record in its view recurs, and the view has the general budget
of records as soon as the job has had as many attempts. -/
theorem StoreHistory.goodView (h : StoreHistory config jobId s.store (s.jobAnswers jobId))
    (hsame : ∀ answer ∈ s.jobAnswers jobId, answer.attempt.rootFingerprint = some root ∧
      qualifyingOutcome answer.attempt.facts.faultOutcome = true)
    (henabled : config.history.enabled = true)
    (hbudget : config.retryPolicy.generalRetryAllowedRetries ≤ config.history.maxAttemptsPerJob)
    (hjob : attempt.jobId = jobId) (hfails : SameFailure jobId root s (.begin attempt))
    (hkeeps : KeepsHistory config jobId s (.begin attempt)) :
    GoodView config root (s.jobAnswers jobId) attempt
      (priorAttempts config s.store attempt) := by
  obtain ⟨-, hroot, houtcome, hearlier⟩ := hfails hjob
  rw [priorAttempts, if_pos henabled, hjob]
  have hlength := AttemptRecordStore.length_getPriorAttempts s.store jobId attempt.cycleId
  rw [h.maxAttemptsPerJob] at hlength
  have hkeysJob : ∀ key ∈ s.store.priorKeys jobId attempt.cycleId, key.1 = jobId := fun key hkey =>
    (of_decide_eq_true (mem_filter.mp hkey).2).1
  refine ⟨hroot, houtcome, fun answer hmem => (hearlier answer hmem).1, rfl, fun prior hprior => ?_,
    ?_, fun hbudgetLe => ?_⟩
  · obtain ⟨key, hget, hkey⟩ := AttemptRecordStore.mem_getPriorAttempts hprior
    obtain ⟨answer, hmem, -, hprogress, hfacts⟩ := h.stored key prior hget hkey
    have hrecurs : Recurs attempt.initialRecord answer.attempt.initialRecord :=
      ⟨(hsame answer hmem).1.trans hroot.symm, (hsame answer hmem).2, (hearlier answer hmem).2⟩
    exact hrecurs.congr rfl rfl hprogress hfacts
  · have hsubset : (s.store.priorKeys jobId attempt.cycleId).map Prod.snd ⊆
        (s.jobAnswers jobId).map fun answer => answer.attempt.cycleId := by
      intro cycle hcycle
      obtain ⟨key, hkey, rfl⟩ := mem_map.mp hcycle
      obtain ⟨record, hget⟩ := Dict.exists_get?_of_mem (mem_filter.mp hkey).1
      obtain ⟨answer, hmem, heq, -⟩ := h.stored key record hget (hkeysJob key hkey)
      exact mem_map.mpr ⟨answer, hmem, heq.symm⟩
    have hnodup : ((s.store.priorKeys jobId attempt.cycleId).map Prod.snd).Nodup :=
      nodup_cycles (s.store.records.nodup_keys.filter _) hkeysJob
    have hle := (subperm_of_subset hnodup hsubset).length_le
    rw [length_map, length_map] at hle
    omega
  · let last := (s.jobAnswers jobId).drop
      ((s.jobAnswers jobId).length - config.retryPolicy.generalRetryAllowedRetries)
    have hnodup : (last.map fun answer => answer.attempt.key).Nodup := by
      rw [nodup_iff_pairwise_ne, pairwise_map]
      refine (h.ordered.sublist (drop_sublist _ _)).imp fun hless heq => ?_
      have := congrArg Prod.snd heq
      exact absurd hless (by simp only [Attempt.key] at this; omega)
    have hsubset : (last.map fun answer => answer.attempt.key) ⊆
        s.store.priorKeys jobId attempt.cycleId := by
      intro key hkey
      obtain ⟨answer, hanswer, rfl⟩ := mem_map.mp hkey
      obtain ⟨j, hj, hget⟩ := mem_iff_getElem.mp hanswer
      rw [getElem_drop] at hget
      rw [length_drop] at hj
      have hget' := List.getElem?_eq_some_iff.mpr ⟨_, hget⟩
      have hmem := mem_of_getElem? hget'
      obtain ⟨number, -, hholds⟩ := h.kept _ answer hget' (by omega)
        (hkeeps hjob _ answer hget' (by omega))
      exact mem_filter.mpr ⟨hholds.1, decide_eq_true
        ⟨h.job answer hmem, (hearlier answer hmem).1⟩⟩
    have hle := (subperm_of_subset hnodup hsubset).length_le
    rw [length_map, length_drop] at hle
    omega

/-- An attempt with a good view is stopped exactly from the general budget on, or by its narrower
budget. -/
theorem GoodView.settled (h : GoodView config root answers attempt view) (hroot : root ≠ "")
    (number : Nat) :
    Settled config answers.length ⟨attempt, number, deterministicOutcome config attempt view⟩ := by
  have htruthy : truthy attempt.initialRecord.deterministic.rootFingerprint = true := by
    change truthy attempt.rootFingerprint = true
    rw [h.root_eq]
    exact decide_eq_true hroot
  obtain ⟨primary, hprimary⟩ : ∃ primary, attempt.primary = some primary := by
    cases hprimary : attempt.primary with
    | none =>
      have houtcome := h.outcome
      simp [Attempt.facts, hprimary, qualifyingOutcome] at houtcome
    | some primary => exact ⟨primary, rfl⟩
  obtain ⟨havailable, hstreak, hadvance, -⟩ :=
    evaluateHistory_of_recurs htruthy h.available h.recurs
  have hexhausted : (deterministicOutcome config attempt view).generalRootCeiling.exhausted =
      decide (config.retryPolicy.generalRetryAllowedRetries ≤ view.records.length) := by
    rw [← hstreak]
    exact generalRootCeiling_exhausted hprimary rfl havailable hadvance
  refine ⟨fun hbudget => evaluatePolicy_stop hprimary (hexhausted.trans ?_), fun hbudget =>
    evaluatePolicy_restart_or rfl (hexhausted.trans ?_)⟩
  · exact decide_eq_true (h.le_length hbudget)
  · have := h.length_le
    exact decide_eq_false (by omega)

/-! ## Steps -/

theorem jobAnswers_append (answer : Answer) :
    (s.answered ++ [answer]).filter (fun answer => answer.attempt.jobId = jobId) =
      s.jobAnswers jobId ++ if answer.attempt.jobId = jobId then [answer] else [] := by
  rw [filter_append, RuntimeState.jobAnswers, filter_cons, filter_nil]
  simp only [decide_eq_true_eq]

theorem init_jobHistory (h : (runtime config).init s) : JobHistory config jobId root s := by
  cases h
  have hnone : ∀ {α : Type} (key : RecordKey), (Dict.empty : Dict RecordKey α).get? key = none :=
    fun _ => rfl
  refine ⟨⟨⟨?_, ?_, ?_⟩, rfl, rfl, ?_, ?_, ?_, ?_⟩, ?_, ?_, ?_, ?_, ?_⟩
  all_goals simp [RuntimeState.jobAnswers, hnone]

/-- Taking an invocation out leaves the others as they were. -/
theorem JobHistory.dropInvocation (h : JobHistory config jobId root s) (key : RecordKey) :
    JobHistory config jobId root
      { s with begun := s.begun.filter fun invocation => invocation.1.key ≠ key } where
  storage := h.storage
  sameRoot := h.sameRoot
  tracked := h.tracked
  alone := fun invocation hmem other hother =>
    h.alone invocation (mem_filter.mp hmem).1 other (mem_filter.mp hother).1
  views := fun invocation hmem => h.views invocation (mem_filter.mp hmem).1
  settled := h.settled

theorem JobHistory.begin (h : JobHistory config jobId root s)
    (henabled : config.history.enabled = true)
    (hbudget : config.retryPolicy.generalRetryAllowedRetries ≤ config.history.maxAttemptsPerJob)
    (hfails : SameFailure jobId root s (.begin attempt))
    (hkeeps : KeepsHistory config jobId s (.begin attempt)) :
    JobHistory config jobId root
      { s with begun := s.begun ++ [(attempt, priorAttempts config s.store attempt)] } where
  storage := h.storage
  sameRoot := h.sameRoot
  tracked := h.tracked
  alone := by
    intro invocation hmem other hother hjob hjob'
    rcases mem_append.mp hmem with hold | hnew
    · rcases mem_append.mp hother with hold' | hnew'
      · exact h.alone invocation hold other hold' hjob hjob'
      · obtain rfl := mem_singleton.mp hnew'
        exact absurd hjob ((hfails hjob').1 invocation hold)
    · obtain rfl := mem_singleton.mp hnew
      rcases mem_append.mp hother with hold' | hnew'
      · exact absurd hjob' ((hfails hjob).1 other hold')
      · exact (mem_singleton.mp hnew').symm
  views := by
    intro invocation hmem hjob
    rcases mem_append.mp hmem with hold | hnew
    · exact h.views invocation hold hjob
    · obtain rfl := mem_singleton.mp hnew
      exact h.storage.goodView h.sameRoot henabled hbudget hjob hfails hkeeps
  settled := h.settled

/-- An invocation of another job leaves the answers of the job as they are. -/
theorem JobHistory.answerOther (h : JobHistory config jobId root s)
    (hother : attempt.jobId ≠ jobId) :
    JobHistory config jobId root (s.answer config attempt view) := by
  have hanswers : (s.answer config attempt view).jobAnswers jobId = s.jobAnswers jobId := by
    refine (jobAnswers_append _).trans ?_
    rw [if_neg hother, append_nil]
  have hdrop := h.dropInvocation attempt.key
  refine ⟨?_, ?_, ?_, hdrop.alone, ?_, ?_⟩
  all_goals rw [hanswers]
  · exact hdrop.storage
  · exact hdrop.sameRoot
  · exact hdrop.tracked
  · exact hdrop.views
  · exact hdrop.settled

/-- An attempt of the job that is stored and answered. -/
theorem JobHistory.answerJob (h : JobHistory config jobId root s) (hroot : root ≠ "")
    (hmem : (attempt, view) ∈ s.begun) (hjob : attempt.jobId = jobId)
    (hupsert : s.store.upsertAttempt attempt.initialRecord = .ok stored) :
    JobHistory config jobId root
      { s.answer config attempt view with
        store := stored
        records := s.records.set attempt.key attempt.initialRecord } := by
  have hview := h.views _ hmem hjob
  let answer : Answer :=
    ⟨attempt, s.store.nextSequence, deterministicOutcome config attempt view⟩
  have hanswers : (s.answer config attempt view).jobAnswers jobId =
      s.jobAnswers jobId ++ [answer] := by
    refine (jobAnswers_append _).trans ?_
    rw [if_pos hjob]
  have hown : OfAnswers (s.jobAnswers jobId ++ [answer]) attempt.key attempt.initialRecord :=
    ⟨answer, mem_append_right _ mem_cons_self, rfl, rfl, rfl⟩
  constructor
  case storage =>
    change StoreHistory config jobId stored ((s.answer config attempt view).jobAnswers jobId)
    rw [hanswers]
    refine h.storage.upsertAttempt hupsert ?_ (fun _ => hown) fun other hother => ?_
    · refine pairwise_append.mpr ⟨h.storage.ordered, pairwise_singleton _ _, ?_⟩
      intro earlier hearlier other hother
      obtain rfl := mem_singleton.mp hother
      exact hview.later earlier hearlier
    · obtain rfl := mem_singleton.mp hother
      exact ⟨hjob, rfl, rfl⟩
  case sameRoot =>
    change ∀ other ∈ (s.answer config attempt view).jobAnswers jobId, _
    rw [hanswers]
    intro other hother
    rcases mem_append.mp hother with hold | hnew
    · exact h.sameRoot other hold
    · obtain rfl := mem_singleton.mp hnew
      exact ⟨hview.root_eq, hview.outcome⟩
  case tracked =>
    change ∀ key record, (s.records.set attempt.key attempt.initialRecord).get? key = some record →
      record.key = key ∧ (key.1 = jobId →
        OfAnswers ((s.answer config attempt view).jobAnswers jobId) key record)
    rw [hanswers]
    intro key record hget
    rw [Dict.get?_set] at hget
    split at hget
    · rename_i heq
      obtain rfl := Option.some.inj hget
      exact ⟨heq.symm, fun _ => heq ▸ hown⟩
    · obtain ⟨hkey, hof⟩ := h.tracked key record hget
      exact ⟨hkey, fun hkeyJob => (hof hkeyJob).append _⟩
  case alone => exact (h.dropInvocation attempt.key).alone
  case views =>
    -- no other invocation of the job is open
    intro invocation hopen hopenJob
    obtain ⟨hbegun, hne⟩ := mem_filter.mp hopen
    have heq := h.alone invocation hbegun _ hmem hopenJob hjob
    rw [heq] at hne
    exact absurd rfl (of_decide_eq_true hne)
  case settled =>
    change ∀ i other, ((s.answer config attempt view).jobAnswers jobId)[i]? = some other → _
    rw [hanswers]
    intro i other hget
    by_cases hold : i < (s.jobAnswers jobId).length
    · rw [getElem?_append_left hold] at hget
      exact h.settled i other hget
    · rw [getElem?_append_right (by omega)] at hget
      obtain ⟨hindex, rfl⟩ := List.getElem?_eq_some_iff.mp hget
      rw [length_singleton] at hindex
      have hi : i = (s.jobAnswers jobId).length := by omega
      subst hi
      simpa using hview.settled hroot s.store.nextSequence

/-- A write that answers nothing: a record of another job, or one of the job's answered attempts
again. -/
theorem JobHistory.write (h : JobHistory config jobId root s)
    (hupsert : s.store.upsertAttempt record = .ok stored)
    (hrecord : record.jobId = jobId → OfAnswers (s.jobAnswers jobId) record.key record) :
    JobHistory config jobId root
      { s with store := stored, records := s.records.set record.key record } where
  storage := by
    have hstorage : StoreHistory config jobId stored (s.jobAnswers jobId ++ []) :=
      h.storage.upsertAttempt hupsert (by rw [append_nil]; exact h.storage.ordered)
        (by rw [append_nil]; exact hrecord) fun _ hmem => absurd hmem not_mem_nil
    rwa [append_nil] at hstorage
  sameRoot := h.sameRoot
  tracked := by
    intro key record' hget
    change (s.records.set record.key record).get? key = some record' at hget
    rw [Dict.get?_set] at hget
    split at hget
    · rename_i heq
      obtain rfl := Option.some.inj hget
      exact ⟨heq.symm, fun hjob => heq ▸ hrecord ((congrArg Prod.fst heq).symm.trans hjob)⟩
    · exact h.tracked key record' hget
  alone := h.alone
  views := h.views
  settled := h.settled

theorem JobHistory.publish (h : JobHistory config jobId root s) (hroot : root ≠ "")
    (henabled : config.history.enabled = true) (hmem : (attempt, view) ∈ s.begun) :
    JobHistory config jobId root (s.publish config attempt view) := by
  unfold RuntimeState.publish
  split
  · rename_i hunstored
    refine h.answerOther fun hjob => ?_
    -- an attempt of the job has a root, so that it is stored
    rw [henabled, (h.views _ hmem hjob).root_eq] at hunstored
    simp [truthy, hroot] at hunstored
  · split
    · exact h.dropInvocation attempt.key
    · rename_i hupsert
      by_cases hjob : attempt.jobId = jobId
      · exact h.answerJob hroot hmem hjob hupsert
      · exact (h.answerOther hjob).write hupsert
          fun hsame => absurd hsame hjob

theorem JobHistory.enrich {key : RecordKey} (h : JobHistory config jobId root s)
    (hget : s.records.get? key = some record) (routeId : String) (facts : AttemptFailureFacts) :
    JobHistory config jobId root (s.enrich record routeId facts) := by
  unfold RuntimeState.enrich
  split
  · exact h
  · rename_i hupsert
    obtain ⟨rfl, hof⟩ := h.tracked key record hget
    refine h.write hupsert fun hjob => ?_
    obtain ⟨answer, hmem, hcycle, hprogress, hfacts⟩ := hof hjob
    exact ⟨answer, hmem, hcycle, hprogress, hfacts⟩

theorem JobHistory.step {t : RuntimeState} {action : RuntimeAction}
    (h : JobHistory config jobId root s) (hroot : root ≠ "")
    (henabled : config.history.enabled = true)
    (hbudget : config.retryPolicy.generalRetryAllowedRetries ≤ config.history.maxAttemptsPerJob)
    (hfails : SameFailure jobId root s action) (hkeeps : KeepsHistory config jobId s action)
    (hstep : (runtime config).step s action = some t) : JobHistory config jobId root t := by
  cases action with
  | begin attempt =>
    simp only [runtime] at hstep
    split at hstep
    · cases hstep
    · cases hstep
      exact h.begin henabled hbudget hfails hkeeps
  | publish key =>
    obtain ⟨invocation, hfind, rfl⟩ := Option.map_eq_some_iff.mp hstep
    exact h.publish hroot henabled (mem_of_find?_eq_some hfind)
  | enrich key routeId facts =>
    obtain ⟨record, hget, rfl⟩ := Option.map_eq_some_iff.mp hstep
    exact h.enrich hget routeId facts

/-- **Blind restarts are bounded by the general budget.**  Where the per-job limit is not below
the general budget, and the total limit has not dropped the last attempts of the job, every
attempt of a job that keeps failing at the same root is answered by STOP once the job has had as
many attempts before as the general budget allows retries; until then only the narrower budget of
the selected rule stops it. -/
theorem settled_of_keepsHistory (henabled : config.history.enabled = true)
    (hbudget : config.retryPolicy.generalRetryAllowedRetries ≤ config.history.maxAttemptsPerJob)
    (hroot : root ≠ "") {s : RuntimeState}
    (hs : (runtime config).Reachable
      (fun s action => SameFailure jobId root s action ∧ KeepsHistory config jobId s action) s)
    {earlier : Nat} {answer : Answer} (hanswer : (s.jobAnswers jobId)[earlier]? = some answer) :
    (config.retryPolicy.generalRetryAllowedRetries ≤ earlier →
        answer.evaluation.decision = .stop) ∧
      (earlier < config.retryPolicy.generalRetryAllowedRetries →
        answer.evaluation.decision = .restart ∨
          answer.evaluation.exhaustedBy = [.selectedRuleBudget]) := by
  have hhistory : JobHistory config jobId root s :=
    System.Reachable.invariant (fun _ => init_jobHistory)
      (fun _ _ _ h hcond hstep => h.step hroot henabled hbudget hcond.1 hcond.2 hstep) hs
  exact hhistory.settled earlier answer hanswer

/-! ## Runs of one job -/

theorem Bounded.count_le {decisions : List Decision} (h : Bounded config decisions) :
    decisions.count .restart ≤ config.retryPolicy.generalRetryAllowedRetries := by
  obtain ⟨restarts, hle, stops, rfl⟩ := h
  rw [count_append, count_replicate, count_replicate]
  simpa using hle

theorem Bounded.final {decisions : List Decision} (h : Bounded config decisions) :
    decisions.Pairwise fun earlier later => earlier = .stop → later = .stop := by
  obtain ⟨restarts, -, stops, rfl⟩ := h
  refine pairwise_append.mpr ⟨pairwise_replicate.mpr (.inr fun h => h),
    pairwise_replicate.mpr (.inr fun h => h), fun earlier _ later hlater _ => ?_⟩
  exact (mem_replicate.mp hlater).2

/-- An attempt that fails in iteration 5, at an entity if there is one. -/
def failedAttempt (jobId : String) (cycleId : Int) (entity : Option AffectedEntity) : Attempt where
  jobId := jobId
  cycleId := cycleId
  primary := some
    { failureClass := "cuda_error"
      faultOutcome := some .terminal
      failureIteration := some 5
      affectedEntity := entity }
  rootFingerprint := some "cuda"
  rootFingerprintSource := some "l0_registry"

/-- One invocation from its begin to its answer. -/
def invocation (attempt : Attempt) : List RuntimeAction :=
  [.begin attempt, .publish attempt.key]

/-- The runtime before its first invocation. -/
def started (config : RestartAgentConfig) : RuntimeState where
  store :=
    { maxAttemptsPerJob := config.history.maxAttemptsPerJob
      maxTotalRecords := config.history.maxTotalRecords }

theorem init_started : (runtime config).init (started config) :=
  rfl

/-- The configuration with all defaults but the two limits. -/
def limited (maxAttemptsPerJob maxTotalRecords : Nat) (hattempts : 1 ≤ maxAttemptsPerJob)
    (htotal : 1 ≤ maxTotalRecords) : RestartAgentConfig where
  history := ⟨true, maxAttemptsPerJob, maxTotalRecords, hattempts, htotal⟩
  retryPolicy := ⟨1, 1, 3, by decide, by decide⟩
  declaredRecoveryCapabilities := []
  budgets := by simp

def defaultConfig : RestartAgentConfig :=
  limited 10 3000 (Nat.le_add_left 1 9) (Nat.le_add_left 1 2999)

def oneRecordEach : RestartAgentConfig :=
  limited 1 3000 (Nat.le_refl 1) (Nat.le_add_left 1 2999)

def oneRecord : RestartAgentConfig :=
  limited 10 1 (Nat.le_add_left 1 9) (Nat.le_refl 1)

/-- The payload that sets one limit. -/
def limitPayload (field : String) (limit : Int) : ConfigPayload where
  history := ⟨[(field, .int limit)], nodup_singleton _⟩

def nearEntity : AffectedEntity := ⟨.dataPosition, "near"⟩

def farEntity : AffectedEntity := ⟨.dataPosition, "far"⟩

/-- Five attempts without an entity. -/
def fiveAttempts : List RuntimeAction :=
  [1, 2, 3, 4, 5].flatMap fun cycleId => invocation (failedAttempt "job" cycleId none)

/-- With the default limits the fourth attempt and the fifth are stopped. -/
theorem settled_fiveAttempts : ∃ s, (runtime defaultConfig).Reachable
      (fun s action => SameFailure "job" "cuda" s action ∧
        KeepsHistory defaultConfig "job" s action) s ∧
    (s.decisions "job" = [.restart, .restart, .restart, .stop, .stop] ∧
      ∃ answer, (s.jobAnswers "job")[4]? = some answer) ∧
    ∀ answer, (s.jobAnswers "job")[4]? = some answer → answer.evaluation.decision = .stop := by
  have hrun : ((runtime defaultConfig).execute
      (fun s action => SameFailure "job" "cuda" s action ∧
        KeepsHistory defaultConfig "job" s action)
      (started defaultConfig) fiveAttempts).any (fun s =>
        decide (s.decisions "job" = [.restart, .restart, .restart, .stop, .stop]) &&
          (s.jobAnswers "job")[4]?.isSome) = true := by
    decide +kernel
  obtain ⟨s, hreach, htest⟩ := System.exists_reachable_of_execute init_started hrun
  simp only [Bool.and_eq_true, decide_eq_true_eq, Option.isSome_iff_exists] at htest
  exact ⟨s, hreach, htest, fun answer hanswer =>
    (settled_of_keepsHistory rfl (by decide) (by decide) hreach hanswer).1 (by decide)⟩

/-- The attempts of a job go on being restarted when the store keeps one record of each job, or
one record in all while another job writes; and a stop by the narrower budget of an entity is
taken back for another entity. -/
theorem not_blindRestartsBounded :
    (∃ config, parseRestartAgentConfig (limitPayload "max_attempts_per_job" 1) = .ok config ∧
      config.history.enabled = true ∧ ¬ BlindRestartsBounded config) ∧
    (∃ config, parseRestartAgentConfig (limitPayload "max_total_records" 1) = .ok config ∧
      config.history.enabled = true ∧ ¬ BlindRestartsBounded config) ∧
    ∃ config, parseRestartAgentConfig {} = .ok config ∧
      config.history.enabled = true ∧ ¬ BlindRestartsBounded config := by
  refine ⟨⟨oneRecordEach, rfl, rfl, fun hbounded => ?_⟩,
    ⟨oneRecord, rfl, rfl, fun hbounded => ?_⟩,
    ⟨defaultConfig, rfl, rfl, fun hbounded => ?_⟩⟩
  · have hrun : ((runtime oneRecordEach).execute
        (SameFailure "job" "cuda") (started oneRecordEach) fiveAttempts).any (fun s =>
          decide (s.decisions "job" = replicate 5 .restart)) = true := by
      decide +kernel
    obtain ⟨s, hreach, htest⟩ := System.exists_reachable_of_execute init_started hrun
    have hcount := (hbounded "job" "cuda" s (by decide) hreach).count_le
    rw [of_decide_eq_true htest] at hcount
    exact absurd hcount (by decide)
  · have hrun : ((runtime oneRecord).execute
        (SameFailure "job" "cuda") (started oneRecord) ([1, 2, 3, 4, 5].flatMap fun cycleId =>
          invocation (failedAttempt "job" cycleId none) ++
            invocation (failedAttempt "other" cycleId none))).any (fun s =>
          decide (s.decisions "job" = replicate 5 .restart)) = true := by
      decide +kernel
    obtain ⟨s, hreach, htest⟩ := System.exists_reachable_of_execute init_started hrun
    have hcount := (hbounded "job" "cuda" s (by decide) hreach).count_le
    rw [of_decide_eq_true htest] at hcount
    exact absurd hcount (by decide)
  · have hrun : ((runtime defaultConfig).execute
        (SameFailure "job" "cuda") (started defaultConfig)
        (invocation (failedAttempt "job" 1 (some nearEntity)) ++
          invocation (failedAttempt "job" 2 (some nearEntity)) ++
          invocation (failedAttempt "job" 3 (some farEntity)))).any (fun s =>
          decide (s.decisions "job" = [.restart, .stop, .restart])) = true := by
      decide +kernel
    obtain ⟨s, hreach, htest⟩ := System.exists_reachable_of_execute init_started hrun
    have hfinal := (hbounded "job" "cuda" s (by decide) hreach).final
    rw [of_decide_eq_true htest] at hfinal
    exact absurd hfinal (by decide)

end ResiliencyExt.Attribution.RestartAgent
