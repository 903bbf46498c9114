import ResiliencyExt.Checkpointing.AsyncCkpt.SavePlanning

set_option autoImplicit false

/-!
# All ranks plan with the same collectives

The flags that choose the branch are a rank's own, and are set by comparing the
central plan with the one before.  A local plan is made once, for the first save, and
is prepared again for every other; with plan functions that leave alone what they have
made, the second save finds the plans of the first on every rank, and all flags are
set at once.
-/

namespace ResiliencyExt.Checkpointing.AsyncCkpt

open Foundation
open Option (bind_some map_eq_some_iff map_some)

variable {n : Nat} {StateDict Content StorageData Body : Type}

namespace PlanSetup

variable {P : PlanSetup n StateDict Content StorageData Body}
  {planning next : Fin n → Planning n Content StorageData Body}

/-! ## Collectives -/

theorem collective_allReduce (flags : Fin n → Bool)
    (next : Fin n → Bool → Planning n Content StorageData Body) :
    P.collective (fun r => .allReduce (flags r) (next r)) =
      some fun r => next r (decide (∀ q, flags q = true)) := by
  simp only [collective, together_some, map_some]

theorem collective_gatherObject (localPlans : Fin n → SavePlan Content StorageData)
    (next : Fin n → Option (Fin n → SavePlan Content StorageData) →
      Planning n Content StorageData Body) :
    P.collective (fun r => .gatherObject (localPlans r) (next r)) =
      some fun r => next r (if r = P.coordinator then some localPlans else none) := by
  simp only [collective, together_some, map_some]

theorem collective_reduceScatter (localPlans : Fin n → SavePlan Content StorageData)
    (next : Fin n → SavePlan Content StorageData → Option (Metadata Content StorageData Body) →
      Planning n Content StorageData Body) :
    P.collective (fun r => .reduceScatter (localPlans r) (next r)) =
      some fun r => next r (P.prepareGlobalPlan (P.createGlobalPlan localPlans).1 r)
        (if r = P.coordinator then some (P.createGlobalPlan localPlans).2 else none) := by
  simp only [collective, together_some, map_some]

theorem exists_of_together {α : Type} {answers : Fin n → Option α} {values : Fin n → α}
    (h : together answers = some values) (r : Fin n) : answers r = some (values r) := by
  unfold together at h
  split at h
  · cases h
    exact (Option.some_get _).symm
  · cases h

/-- A collective goes on only when all ranks have entered it. -/
theorem enters_of_collective (h : P.collective planning = some next) :
    ∃ collective, ∀ r, (planning r).enters = some collective := by
  unfold collective at h
  split at h
  · cases h
  · obtain ⟨calls, hcalls, _⟩ := map_eq_some_iff.mp h
    refine ⟨.allReduce, fun r => ?_⟩
    have hr := exists_of_together hcalls r
    split at hr
    · rename_i hplanning
      rw [hplanning]
      rfl
    · cases hr
  · obtain ⟨calls, hcalls, _⟩ := map_eq_some_iff.mp h
    refine ⟨.gatherObject, fun r => ?_⟩
    have hr := exists_of_together hcalls r
    split at hr
    · rename_i hplanning
      rw [hplanning]
      rfl
    · cases hr
  · obtain ⟨calls, hcalls, _⟩ := map_eq_some_iff.mp h
    refine ⟨.reduceScatter, fun r => ?_⟩
    have hr := exists_of_together hcalls r
    split at hr
    · rename_i hplanning
      rw [hplanning]
      rfl
    · cases hr

/-! ## Planning to the end -/

theorem plan_planned (fuel : Nat) (results : Fin n → Planned Content StorageData Body) :
    P.plan fuel (fun r => .planned (results r)) = some (results, fun _ => []) := by
  unfold plan
  simp only [Planning.result, together_some]

/-- A rank that is not done enters a collective with the others. -/
theorem plan_collective {fuel : Nat} {r : Fin n} {k : Collective}
    (henters : (planning r).enters = some k) :
    P.plan (fuel + 1) planning = (P.collective planning).bind fun next =>
      (P.plan fuel next).map fun results =>
        (results.1, fun r => (planning r).enters.toList ++ results.2 r) := by
  have hnone : (planning r).result = none := by
    cases hplanning : planning r with
    | planned _ =>
      rw [hplanning] at henters
      cases henters
    | allReduce _ _ => rfl
    | gatherObject _ _ => rfl
    | reduceScatter _ _ => rfl
  conv_lhs => unfold plan
  rw [together_eq_none (r := r) hnone]

/-- All ranks enter the same collectives in the same order. -/
theorem entered_of_plan {fuel : Nat}
    {results : (Fin n → Planned Content StorageData Body) × (Fin n → List Collective)}
    (h : P.plan fuel planning = some results) (r q : Fin n) : results.2 r = results.2 q := by
  induction fuel generalizing planning results with
  | zero =>
    unfold plan at h
    split at h
    · cases h
      rfl
    · cases h
  | succ fuel ih =>
    unfold plan at h
    split at h
    · cases h
      rfl
    · obtain ⟨next, hcollective, hnext⟩ := Option.bind_eq_some_iff.mp h
      obtain ⟨rest, hrest, rfl⟩ := map_eq_some_iff.mp hnext
      obtain ⟨k, henters⟩ := enters_of_collective hcollective
      simp only [henters, ih hrest]

/-- More fuel changes nothing. -/
theorem plan_succ {fuel : Nat}
    {results : (Fin n → Planned Content StorageData Body) × (Fin n → List Collective)}
    (h : P.plan fuel planning = some results) : P.plan (fuel + 1) planning = some results := by
  induction fuel generalizing planning results with
  | zero =>
    unfold plan at h ⊢
    split at h
    · simp only [h]
    · cases h
  | succ fuel ih =>
    rw [plan] at h ⊢
    split at h
    · simp only [h]
    · obtain ⟨next, hcollective, hnext⟩ := Option.bind_eq_some_iff.mp h
      obtain ⟨rest, hrest, hresults⟩ := map_eq_some_iff.mp hnext
      simp only [hcollective, bind_some, ih hrest, map_some, hresults]

variable [DecidableEq Content]

/-- The local plans of all ranks are the loaded ones, but for `storage_data`. -/
def matchesLoaded (loadedAllPlans : Option (List (SavePlan Content StorageData)))
    (localPlans : Fin n → SavePlan Content StorageData) : Bool :=
  match loadedAllPlans with
  | none | some [] => false
  | some (first :: rest) =>
    if h : n = (first :: rest).length then
      decide (∀ r, (localPlans r).content = ((first :: rest).get (r.cast h)).content)
    else false

/-- `verify_global_md_reuse` on all ranks, which have loaded the same plans. -/
theorem plan_verify {fuel : Nat} (loadedAllPlans : Option (List (SavePlan Content StorageData)))
    (localPlans : Fin n → SavePlan Content StorageData)
    (next : Fin n → Bool → Planning n Content StorageData Body)
    (results : Bool → Fin n → Planned Content StorageData Body)
    (hnext : ∀ b, ∃ entered, P.plan fuel (fun r => next r b) = some (results b, entered)) :
    ∃ entered, P.plan (fuel + 1)
        (fun r => verifyGlobalMdReuse loadedAllPlans (localPlans r) r (next r)) =
      some (results (matchesLoaded loadedAllPlans localPlans), entered) := by
  obtain ⟨entered, hfalse⟩ := hnext false
  unfold verifyGlobalMdReuse matchesLoaded
  match loadedAllPlans with
  | none => exact ⟨entered, plan_succ hfalse⟩
  | some [] => exact ⟨entered, plan_succ hfalse⟩
  | some (first :: rest) =>
    by_cases hlength : (first :: rest).length = n
    · simp only [dif_pos hlength, dif_pos hlength.symm]
      obtain ⟨entered, hplan⟩ := hnext (decide (∀ q,
        (localPlans q).content = ((first :: rest).get (q.cast hlength.symm)).content))
      rw [plan_collective (r := P.coordinator) rfl, collective_allReduce]
      simp only [bind_some, decide_eq_true_eq, hplan, map_some]
      exact ⟨_, rfl⟩
    · simp only [dif_neg hlength, dif_neg (Ne.symm hlength)]
      exact ⟨entered, plan_succ hfalse⟩

section FromLocal

variable (P)

/-- What the decentralized planning from the prepared local plans comes to. -/
def fromLocalDecentralized (localPlans : Fin n → SavePlan Content StorageData)
    (globalMdVerifyReuse : Bool) (r : Fin n) : Planned Content StorageData Body :=
  let localPlan :=
    P.prepareDecentralizedGlobalPlan r (P.createDecentralizedGlobalPlan r (localPlans r))
  { centralPlan := P.finishPlan r localPlan
    localPlan := localPlan
    globalMetadata :=
      if globalMdVerifyReuse then none
      else if r = P.coordinator then some (P.gatheredMetadata localPlans) else none
    globalMdVerifyReuse := globalMdVerifyReuse }

/-- What planning from the prepared local plans comes to. -/
def fromLocal (loadedAllPlans : Option (List (SavePlan Content StorageData)))
    (localPlans : Fin n → SavePlan Content StorageData) (r : Fin n) :
    Planned Content StorageData Body :=
  if P.decentralized then
    P.fromLocalDecentralized localPlans (matchesLoaded loadedAllPlans localPlans) r
  else
    { centralPlan :=
        P.finishPlan r (P.prepareGlobalPlan (P.createGlobalPlan localPlans).1 r)
      localPlan := localPlans r
      globalMetadata :=
        if r = P.coordinator then some (P.createGlobalPlan localPlans).2 else none
      globalMdVerifyReuse := false }

end FromLocal

omit [DecidableEq Content] in
theorem plan_gatherObject (fuel : Nat) (localPlans : Fin n → SavePlan Content StorageData) :
    ∃ entered, P.plan (fuel + 1) (fun r => .gatherObject (localPlans r) fun allLocalPlans =>
        P.planDecentralized r (localPlans r) (allLocalPlans.map P.gatheredMetadata) false) =
      some (P.fromLocalDecentralized localPlans false, entered) := by
  rw [plan_collective (r := P.coordinator) rfl, collective_gatherObject]
  simp only [bind_some, planDecentralized, plan_planned, map_some]
  refine ⟨_, congrArg (fun results => some (results, _)) ?_⟩
  funext r
  unfold fromLocalDecentralized
  by_cases hr : r = P.coordinator
  · simp [hr]
  · simp [hr]

/-- Ranks that have loaded the same plans and have nothing validated plan together. -/
theorem plan_go {caches : Fin n → Option (MetadataCache Content StorageData Body)}
    {loadedAllPlans : Option (List (SavePlan Content StorageData))}
    (hloaded : ∀ r, (caches r).bind MetadataCache.loadedAllPlans = loadedAllPlans)
    (localPlans : Fin n → SavePlan Content StorageData) :
    ∃ entered, P.plan 3 (fun r => PlanSetup.planning.go P (caches r) r (localPlans r)) =
      some (P.fromLocal loadedAllPlans localPlans, entered) := by
  unfold PlanSetup.planning.go fromLocal
  simp only [hloaded]
  by_cases hmode : P.decentralized = true
  · simp only [if_pos hmode]
    refine plan_verify loadedAllPlans _
      (fun r globalMdVerifyReuse =>
        if globalMdVerifyReuse then
          P.planDecentralized r (prepareLocalPlan (localPlans r)) none globalMdVerifyReuse
        else .gatherObject (prepareLocalPlan (localPlans r)) fun allLocalPlans =>
          P.planDecentralized r (prepareLocalPlan (localPlans r))
            (allLocalPlans.map P.gatheredMetadata) globalMdVerifyReuse)
      (P.fromLocalDecentralized localPlans) fun b => ?_
    cases b with
    | true => exact ⟨_, plan_planned _ _⟩
    | false => exact plan_gatherObject _ _
  · simp only [if_neg hmode]
    rw [plan_collective (r := P.coordinator) rfl, collective_reduceScatter]
    simp only [bind_some, plan_planned, map_some]
    exact ⟨_, rfl⟩

/-! ## Plan functions that leave alone what they have made -/

variable (P) in
/-- Planning again from what has been planned changes nothing. -/
structure Stable : Prop where
  decentralizedGlobalPlan : ∀ r localPlan,
    P.prepareDecentralizedGlobalPlan r (P.createDecentralizedGlobalPlan r
      (P.prepareDecentralizedGlobalPlan r (P.createDecentralizedGlobalPlan r localPlan))) =
    P.prepareDecentralizedGlobalPlan r (P.createDecentralizedGlobalPlan r localPlan)
  finishPlan : ∀ r centralPlan,
    P.finishPlan r (P.finishPlan r centralPlan) = P.finishPlan r centralPlan

/-- Planning from the cached local plans comes to the cached central plans, whatever has been
loaded meanwhile. -/
theorem centralPlan_fromLocal_again (hstable : P.Stable)
    (loadedAllPlans loadedAgain : Option (List (SavePlan Content StorageData)))
    (localPlans : Fin n → SavePlan Content StorageData) (r : Fin n) :
    (P.fromLocal loadedAgain
      (fun q => (P.fromLocal loadedAllPlans localPlans q).localPlan) r).centralPlan =
      (P.fromLocal loadedAllPlans localPlans r).centralPlan := by
  unfold fromLocal
  by_cases hmode : P.decentralized = true
  · simp only [if_pos hmode, fromLocalDecentralized, hstable.decentralizedGlobalPlan]
  · simp only [if_neg hmode]

theorem finishPlan_fromLocal (hstable : P.Stable)
    (loadedAllPlans : Option (List (SavePlan Content StorageData)))
    (localPlans : Fin n → SavePlan Content StorageData) (r : Fin n) :
    P.finishPlan r (P.fromLocal loadedAllPlans localPlans r).centralPlan =
      (P.fromLocal loadedAllPlans localPlans r).centralPlan := by
  unfold fromLocal
  by_cases hmode : P.decentralized = true
  · simp only [if_pos hmode, fromLocalDecentralized, hstable.finishPlan]
  · simp only [if_neg hmode, hstable.finishPlan]

/-! ## The caches after a save -/

variable [DecidableEq StorageData]

@[simp]
theorem updateCache_none (r : Fin n) (result : Planned Content StorageData Body) :
    P.updateCache none r result = (none, result.globalMetadata) := rfl

omit [DecidableEq Content] [DecidableEq StorageData] in
theorem prepareSaveStateDictRet_cachedPlans (cache : MetadataCache Content StorageData Body)
    (isCoordinator : Bool) (globalMetadata : Option (Metadata Content StorageData Body)) :
    (cache.prepareSaveStateDictRet isCoordinator globalMetadata).1.cachedPlans =
      cache.cachedPlans := by
  unfold MetadataCache.prepareSaveStateDictRet
  split
  · rfl
  · split
    · split <;> rfl
    · rfl

omit [DecidableEq Content] [DecidableEq StorageData] in
theorem prepareSaveStateDictRet_loadedAllPlans (cache : MetadataCache Content StorageData Body)
    (isCoordinator : Bool) (globalMetadata : Option (Metadata Content StorageData Body)) :
    (cache.prepareSaveStateDictRet isCoordinator globalMetadata).1.loadedAllPlans =
      cache.loadedAllPlans := by
  unfold MetadataCache.prepareSaveStateDictRet
  split
  · rfl
  · split
    · split <;> rfl
    · rfl

@[simp]
theorem cachedPlans_updateCache (cache : MetadataCache Content StorageData Body) (r : Fin n)
    (result : Planned Content StorageData Body) :
    (P.updateCache (some cache) r result).1.bind MetadataCache.cachedPlans =
      some ⟨result.centralPlan, result.localPlan,
        decide (cache.cachedPlans.map CachedPlans.centralPlan = some result.centralPlan)⟩ :=
  prepareSaveStateDictRet_cachedPlans _ _ _

@[simp]
theorem loadedAllPlans_updateCache (cache : Option (MetadataCache Content StorageData Body))
    (r : Fin n) (result : Planned Content StorageData Body) :
    (P.updateCache cache r result).1.bind MetadataCache.loadedAllPlans =
      cache.bind MetadataCache.loadedAllPlans := by
  cases cache with
  | none => rfl
  | some cache => exact prepareSaveStateDictRet_loadedAllPlans _ _ _

@[simp]
theorem isSome_updateCache (cache : Option (MetadataCache Content StorageData Body))
    (r : Fin n) (result : Planned Content StorageData Body) :
    (P.updateCache cache r result).1.isSome = cache.isSome := by
  cases cache with
  | none => rfl
  | some cache => rfl

/-! ## All flags are set at once -/

variable (P) in
/-- How far the caches of all ranks have come. -/
inductive Stage (caches : Fin n → Option (MetadataCache Content StorageData Body)) : Prop
  | nothingCached (hcached : ∀ r, (caches r).bind MetadataCache.cachedPlans = none) :
      Stage caches
  | cached (centralPlans localPlans : Fin n → SavePlan Content StorageData)
      (hcached : ∀ r, (caches r).bind MetadataCache.cachedPlans =
        some ⟨centralPlans r, localPlans r, false⟩)
      (hagain : ∀ loadedAllPlans r,
        (P.fromLocal loadedAllPlans localPlans r).centralPlan = centralPlans r)
      (hfinish : ∀ r, P.finishPlan r (centralPlans r) = centralPlans r) : Stage caches
  | validated (centralPlans localPlans : Fin n → SavePlan Content StorageData)
      (hcached : ∀ r, (caches r).bind MetadataCache.cachedPlans =
        some ⟨centralPlans r, localPlans r, true⟩)
      (hfinish : ∀ r, P.finishPlan r (centralPlans r) = centralPlans r) : Stage caches

variable (P) in
/-- What is the same on all ranks between saves. -/
structure Agree (s : PlanningState n StateDict Content StorageData Body) : Prop where
  present : ∃ present, ∀ r, (s.caches r).isSome = present
  loaded : ∃ loadedAllPlans, ∀ r, (s.caches r).bind MetadataCache.loadedAllPlans = loadedAllPlans
  stage : P.Stage s.caches
  entered : ∀ record ∈ s.saves, ∀ r q, record.entered r = record.entered q

section Planning

variable {cache : Option (MetadataCache Content StorageData Body)} {r : Fin n}
  {centralPlan localPlan : SavePlan Content StorageData}

omit [DecidableEq Content] [DecidableEq StorageData] in
variable (P) in
/-- The local plan that the planning of a rank begins with. -/
def startingPlan (cache : Option (MetadataCache Content StorageData Body)) (r : Fin n)
    (stateDict : StateDict) : SavePlan Content StorageData :=
  ((cache.bind MetadataCache.cachedPlans).map CachedPlans.localPlan).getD
    (P.createLocalPlan r stateDict)

omit [DecidableEq Content] [DecidableEq StorageData] in
theorem startingPlan_of_nothing (h : cache.bind MetadataCache.cachedPlans = none)
    (stateDict : StateDict) :
    P.startingPlan cache r stateDict = P.createLocalPlan r stateDict := by
  unfold startingPlan
  rw [h]
  rfl

omit [DecidableEq Content] [DecidableEq StorageData] in
theorem startingPlan_of_cached {plans : CachedPlans Content StorageData}
    (h : cache.bind MetadataCache.cachedPlans = some plans) (stateDict : StateDict) :
    P.startingPlan cache r stateDict = plans.localPlan := by
  unfold startingPlan
  rw [h]
  rfl

omit [DecidableEq StorageData] in
theorem planning_not_validated
    (h : ∀ plans, cache.bind MetadataCache.cachedPlans = some plans →
      plans.validatedCacheReuse = false) (stateDict : StateDict) :
    P.planning cache r stateDict =
      PlanSetup.planning.go P cache r (P.startingPlan cache r stateDict) := by
  unfold planning
  match hcached : cache.bind MetadataCache.cachedPlans with
  | none => rw [startingPlan_of_nothing hcached]
  | some ⟨_, _, false⟩ => rw [startingPlan_of_cached hcached]
  | some ⟨_, _, true⟩ => cases h _ hcached

omit [DecidableEq StorageData] in
theorem planning_validated
    (h : cache.bind MetadataCache.cachedPlans = some ⟨centralPlan, localPlan, true⟩)
    (stateDict : StateDict) :
    P.planning cache r stateDict =
      .planned ⟨P.finishPlan r centralPlan, prepareLocalPlan localPlan, none, false⟩ := by
  unfold planning
  rw [h]

/-- A cached plan that comes out again is validated. -/
theorem validated_updateCache {validatedCacheReuse : Bool}
    {result : Planned Content StorageData Body}
    (h : cache.bind MetadataCache.cachedPlans =
      some ⟨centralPlan, localPlan, validatedCacheReuse⟩)
    (hagain : result.centralPlan = centralPlan) :
    (P.updateCache cache r result).1.bind MetadataCache.cachedPlans =
      some ⟨centralPlan, result.localPlan, true⟩ := by
  obtain ⟨cached, rfl, hcached⟩ := Option.bind_eq_some_iff.mp h
  rw [cachedPlans_updateCache, hcached, hagain]
  simp

end Planning

omit [DecidableEq StorageData] in
/-- With nothing validated, all ranks plan from the local plans they begin with. -/
theorem plan_not_validated
    {caches : Fin n → Option (MetadataCache Content StorageData Body)}
    {loadedAllPlans : Option (List (SavePlan Content StorageData))}
    (hloaded : ∀ r, (caches r).bind MetadataCache.loadedAllPlans = loadedAllPlans)
    (hcaches : ∀ r plans, (caches r).bind MetadataCache.cachedPlans = some plans →
      plans.validatedCacheReuse = false) (stateDicts : Fin n → StateDict) :
    ∃ entered, P.plan 3 (fun r => P.planning (caches r) r (stateDicts r)) =
      some (P.fromLocal loadedAllPlans
        fun r => P.startingPlan (caches r) r (stateDicts r), entered) := by
  simp only [planning_not_validated (hcaches _)]
  exact plan_go hloaded _

omit [DecidableEq StorageData] in
/-- With all caches validated, all ranks finish their cached central plans. -/
theorem plan_validated {caches : Fin n → Option (MetadataCache Content StorageData Body)}
    {centralPlans localPlans : Fin n → SavePlan Content StorageData}
    (hcached : ∀ r, (caches r).bind MetadataCache.cachedPlans =
      some ⟨centralPlans r, localPlans r, true⟩) (stateDicts : Fin n → StateDict) :
    P.plan 3 (fun r => P.planning (caches r) r (stateDicts r)) =
      some (fun r => ⟨P.finishPlan r (centralPlans r), localPlans r, none, false⟩,
        fun _ => []) := by
  simp only [planning_validated (hcached _)]
  exact plan_planned 3 _

/-- Ranks that agree plan to the end, and agree again. -/
theorem exists_plan_of_stage (hstable : P.Stable)
    {caches : Fin n → Option (MetadataCache Content StorageData Body)} {present : Bool}
    {loadedAllPlans : Option (List (SavePlan Content StorageData))}
    (hpresent : ∀ r, (caches r).isSome = present)
    (hloaded : ∀ r, (caches r).bind MetadataCache.loadedAllPlans = loadedAllPlans)
    (hstage : P.Stage caches) (stateDicts : Fin n → StateDict) :
    ∃ results, P.plan 3 (fun r => P.planning (caches r) r (stateDicts r)) = some results ∧
      P.Stage fun r => (P.updateCache (caches r) r (results.1 r)).1 := by
  cases hstage with
  | nothingCached hcached =>
    obtain ⟨entered, hplan⟩ := plan_not_validated (P := P) hloaded
      (fun r plans hplans => by cases (hcached r).symm.trans hplans) stateDicts
    refine ⟨_, hplan, ?_⟩
    generalize (fun r => P.startingPlan (caches r) r (stateDicts r)) = localPlans
    cases present with
    | false =>
      refine .nothingCached fun r => ?_
      rw [Option.not_isSome_iff_eq_none.mp (Bool.eq_false_iff.mp (hpresent r))]
      rfl
    | true =>
      refine .cached (fun r => (P.fromLocal loadedAllPlans localPlans r).centralPlan)
        (fun r => (P.fromLocal loadedAllPlans localPlans r).localPlan) (fun r => ?_)
        (fun loadedAgain => centralPlan_fromLocal_again hstable _ loadedAgain _)
        (finishPlan_fromLocal hstable _ _)
      obtain ⟨cache, hcache⟩ := Option.isSome_iff_exists.mp (hpresent r)
      have hnone : cache.cachedPlans = none := by
        rw [← hcached r, hcache]
        rfl
      rw [hcache, cachedPlans_updateCache, hnone]
      rfl
  | cached centralPlans localPlans hcached hagain hfinish =>
    obtain ⟨entered, hplan⟩ := plan_not_validated (P := P) hloaded
      (fun r plans hplans => by cases (hcached r).symm.trans hplans; rfl) stateDicts
    simp only [startingPlan_of_cached (hcached _)] at hplan
    refine ⟨_, hplan, .validated centralPlans
      (fun r => (P.fromLocal loadedAllPlans localPlans r).localPlan) (fun r => ?_) hfinish⟩
    exact validated_updateCache (hcached r) (hagain _ r)
  | validated centralPlans localPlans hcached hfinish =>
    refine ⟨_, plan_validated hcached stateDicts, .validated centralPlans localPlans
      (fun r => ?_) hfinish⟩
    exact validated_updateCache (hcached r) (hfinish r)

/-! ## Sequences of saves -/

omit [DecidableEq Content] [DecidableEq StorageData] in
theorem cachedPlans_init (s : PlanningState n StateDict Content StorageData Body)
    (cachedGlobalMetadata : Option (Metadata Content StorageData Body)) (r : Fin n) :
    ((s.initCheckpointMetadataCache cachedGlobalMetadata).caches r).bind
        MetadataCache.cachedPlans =
      (s.caches r).bind MetadataCache.cachedPlans := by
  cases hcache : s.caches r with
  | none => simp [PlanningState.initCheckpointMetadataCache, hcache,
      MetadataCache.setCachedGlobalMetadata, MetadataCache.empty]
  | some cache => simp [PlanningState.initCheckpointMetadataCache, hcache,
      MetadataCache.setCachedGlobalMetadata]

omit [DecidableEq StorageData] in
theorem Stage.init {s : PlanningState n StateDict Content StorageData Body}
    (h : P.Stage s.caches)
    (cachedGlobalMetadata : Option (Metadata Content StorageData Body)) :
    P.Stage (s.initCheckpointMetadataCache cachedGlobalMetadata).caches := by
  cases h with
  | nothingCached hcached =>
    exact .nothingCached fun r => (cachedPlans_init s _ r).trans (hcached r)
  | cached centralPlans localPlans hcached hagain hfinish =>
    exact .cached centralPlans localPlans
      (fun r => (cachedPlans_init s _ r).trans (hcached r)) hagain hfinish
  | validated centralPlans localPlans hcached hfinish =>
    exact .validated centralPlans localPlans
      (fun r => (cachedPlans_init s _ r).trans (hcached r)) hfinish

omit [DecidableEq StorageData] in
theorem Agree.init {s : PlanningState n StateDict Content StorageData Body} (h : P.Agree s)
    (cachedGlobalMetadata : Option (Metadata Content StorageData Body)) :
    P.Agree (s.initCheckpointMetadataCache cachedGlobalMetadata) where
  present := ⟨true, fun _ => rfl⟩
  loaded := ⟨cachedGlobalMetadata.bind Metadata.allLocalPlans, fun _ => rfl⟩
  stage := h.stage.init cachedGlobalMetadata
  entered := h.entered

theorem Agree.save (hstable : P.Stable) {s : PlanningState n StateDict Content StorageData Body}
    (h : P.Agree s) (stateDicts : Fin n → StateDict) :
    ∃ t, P.save s stateDicts = some t ∧ P.Agree t := by
  obtain ⟨present, hpresent⟩ := h.present
  obtain ⟨loadedAllPlans, hloaded⟩ := h.loaded
  obtain ⟨results, hplan, hstage⟩ :=
    exists_plan_of_stage hstable hpresent hloaded h.stage stateDicts
  refine ⟨_, map_eq_some_iff.mpr ⟨results, hplan, rfl⟩, ?_⟩
  exact
    { present := ⟨present, fun r => (isSome_updateCache _ _ _).trans (hpresent r)⟩
      loaded := ⟨loadedAllPlans, fun r =>
        (loadedAllPlans_updateCache _ _ _).trans (hloaded r)⟩
      stage := hstage
      entered := fun record hrecord => by
        rcases List.mem_append.mp hrecord with hbefore | hlast
        · exact h.entered record hbefore
        · cases List.mem_singleton.mp hlast
          exact fun r q => entered_of_plan hplan r q }

/-- No sequence of saves hangs, from ranks that agree. -/
theorem Agree.run (hstable : P.Stable) (events : List (PlanningEvent n StateDict Content
    StorageData Body)) {s : PlanningState n StateDict Content StorageData Body}
    (h : P.Agree s) : ∃ t, P.system.Run (fun _ _ => True) s events t ∧ P.Agree t := by
  induction events generalizing s with
  | nil => exact ⟨s, .nil s, h⟩
  | cons event events ih =>
    cases event with
    | init cachedGlobalMetadata =>
      obtain ⟨t, hrun, ht⟩ := ih (h.init cachedGlobalMetadata)
      exact ⟨t, .cons trivial rfl hrun, ht⟩
    | save stateDicts =>
      obtain ⟨middle, hsave, hmiddle⟩ := h.save hstable stateDicts
      obtain ⟨t, hrun, ht⟩ := ih hmiddle
      exact ⟨t, .cons trivial hsave hrun, ht⟩

theorem agree_initial : P.Agree ⟨fun _ => none, []⟩ where
  present := ⟨false, fun _ => rfl⟩
  loaded := ⟨none, fun _ => rfl⟩
  stage := .nothingCached fun _ => rfl
  entered := nofun

/-- In every sequence of saves and initialisations every save comes to its end, and all ranks
enter the same collectives in it. -/
theorem same_collectives (P : PlanSetup n StateDict Content StorageData Body)
    (hstable : P.Stable) (events : List (PlanningEvent n StateDict Content StorageData Body)) :
    ∃ t, P.system.Run (fun _ _ => True) ⟨fun _ => none, []⟩ events t ∧
      ∀ record ∈ t.saves, ∀ r q, record.entered r = record.entered q := by
  obtain ⟨t, hrun, ht⟩ := agree_initial.run hstable events
  exact ⟨t, hrun, ht.entered⟩

end PlanSetup

/-- Two ranks that write what they are given. -/
def plainSetup (decentralized : Bool) : PlanSetup 2 Nat Nat Nat Nat where
  coordinator := ⟨0, Nat.two_pos⟩
  decentralized := decentralized
  createLocalPlan _ stateDict := ⟨stateDict, none⟩
  createGlobalPlan localPlans := (localPlans, ⟨(localPlans ⟨0, Nat.two_pos⟩).content, none⟩)
  createDecentralizedGlobalPlan _ localPlan := localPlan
  finishPlan _ centralPlan := centralPlan
  prepareGlobalPlan globalPlan := globalPlan
  storagePrefix r := r

theorem stable_plainSetup (decentralized : Bool) : (plainSetup decentralized).Stable where
  decentralizedGlobalPlan _ _ := rfl
  finishPlan _ _ := rfl

theorem same_collectives_of_two_ranks :
    ∃ t, (plainSetup true).system.Run (fun _ _ => True) ⟨fun _ => none, []⟩
        [.init none, .save fun r => r, .save fun _ => 4] t ∧
      ∀ record ∈ t.saves, ∀ r q, record.entered r = record.entered q :=
  PlanSetup.same_collectives (plainSetup true) (stable_plainSetup true)
    [.init none, .save fun r => r, .save fun _ => 4]

end ResiliencyExt.Checkpointing.AsyncCkpt
