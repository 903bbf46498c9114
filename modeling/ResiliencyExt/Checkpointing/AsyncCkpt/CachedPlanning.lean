import ResiliencyExt.Checkpointing.AsyncCkpt.PlanningCollectives

set_option autoImplicit false

/-!
# A save with the metadata cache is a save without it

A cached local plan is used in place of the one that the planner would make, so a save
is the same as without the cache only while the plans of the planner stay the same.
The metadata of a validated cache belongs to the last save unless
`init_checkpoint_metadata_cache` replaces it.
-/

namespace ResiliencyExt.Checkpointing.AsyncCkpt

open Foundation

variable {n : Nat} {StateDict Content StorageData Body : Type}

namespace PlanSetup

variable (P : PlanSetup n StateDict Content StorageData Body)
  [DecidableEq Content] [DecidableEq StorageData]

/-- A save with `enable_cache=False`. -/
def uncachedSave (stateDicts : Fin n → StateDict) :
    Option (SaveRecord n StateDict Content StorageData Body) :=
  (P.save ⟨fun _ => none, []⟩ stateDicts).bind fun s => s.saves.getLast?

/-- The save has come to what it comes to without the cache. -/
def AsUncached (record : SaveRecord n StateDict Content StorageData Body) : Prop :=
  ∃ fresh, P.uncachedSave record.stateDicts = some fresh ∧
    record.centralPlans = fresh.centralPlans ∧ record.globalMetadata = fresh.globalMetadata ∧
    record.globalMetadata.isSome

/-- The local plans that the planner makes of the state dicts. -/
def freshPlans (stateDicts : Fin n → StateDict) (r : Fin n) : SavePlan Content StorageData :=
  P.createLocalPlan r (stateDicts r)

/-- What keeps the cache of use: its metadata is not replaced once it is validated, the local
plans are those of the save before, and the metadata of a decentralized plan is made of them,
here or in the checkpoint that was loaded. -/
def Unchanged (s : PlanningState n StateDict Content StorageData Body) :
    PlanningEvent n StateDict Content StorageData Body → Prop
  | .init _ => ∀ plans ∈ (s.caches P.coordinator).bind MetadataCache.cachedPlans,
      plans.validatedCacheReuse = false
  | .save stateDicts =>
    (∀ r, ∀ plans ∈ (s.caches r).bind MetadataCache.cachedPlans,
      ∀ last ∈ s.saves.getLast?, P.freshPlans stateDicts r = P.freshPlans last.stateDicts r) ∧
    (P.decentralized = true →
      (∀ plans ∈ (s.caches P.coordinator).bind MetadataCache.cachedPlans,
        plans.validatedCacheReuse = false) →
      if matchesLoaded ((s.caches P.coordinator).bind MetadataCache.loadedAllPlans)
          (fun r => P.startingPlan (s.caches r) r (stateDicts r)) then
        (s.caches P.coordinator).bind MetadataCache.cachedGlobalMetadata =
          some (P.gatheredMetadata (P.freshPlans stateDicts))
      else ∀ r, P.startingPlan (s.caches r) r (stateDicts r) = P.freshPlans stateDicts r)

/-- What planning comes to without the cache. -/
def uncached (stateDicts : Fin n → StateDict) : Fin n → Planned Content StorageData Body :=
  P.fromLocal none (P.freshPlans stateDicts)

/-- What the caches have of the last save. -/
structure UpToDate (s : PlanningState n StateDict Content StorageData Body) : Prop where
  plans : ∀ r plans, (s.caches r).bind MetadataCache.cachedPlans = some plans →
    ∃ last, s.saves.getLast? = some last ∧
      plans.centralPlan = (P.uncached last.stateDicts r).centralPlan ∧
      (P.decentralized = false → plans.localPlan = P.freshPlans last.stateDicts r)
  metadata : ∀ plans, (s.caches P.coordinator).bind MetadataCache.cachedPlans = some plans →
    plans.validatedCacheReuse = true → ∃ last, s.saves.getLast? = some last ∧
      (s.caches P.coordinator).bind MetadataCache.cachedGlobalMetadata =
        (P.uncached last.stateDicts P.coordinator).globalMetadata
  records : ∀ record ∈ s.saves, P.AsUncached record

variable {P}

/-! ## Without the cache -/

omit [DecidableEq StorageData] in
theorem matchesLoaded_none (localPlans : Fin n → SavePlan Content StorageData) :
    matchesLoaded none localPlans = false := rfl

omit [DecidableEq StorageData] in
theorem plan_uncached (stateDicts : Fin n → StateDict) :
    ∃ entered, P.plan 3 (fun r => P.planning none r (stateDicts r)) =
      some (P.uncached stateDicts, entered) :=
  plan_go (fun _ => rfl) (P.freshPlans stateDicts)

omit [DecidableEq StorageData] in
theorem isSome_metadata_uncached (stateDicts : Fin n → StateDict) :
    (P.uncached stateDicts P.coordinator).globalMetadata.isSome := by
  unfold uncached fromLocal
  by_cases hmode : P.decentralized = true
  · simp [hmode, fromLocalDecentralized, matchesLoaded_none]
  · simp [hmode]

omit [DecidableEq StorageData] in
/-- What is loaded plays no part in the central plans. -/
theorem centralPlan_fromLocal (loadedAllPlans : Option (List (SavePlan Content StorageData)))
    (localPlans : Fin n → SavePlan Content StorageData) (r : Fin n) :
    (P.fromLocal loadedAllPlans localPlans r).centralPlan =
      (P.fromLocal none localPlans r).centralPlan := by
  unfold fromLocal
  by_cases hmode : P.decentralized = true
  · simp only [if_pos hmode, fromLocalDecentralized]
  · simp only [if_neg hmode]

theorem asUncached_of_uncached {record : SaveRecord n StateDict Content StorageData Body}
    (hplans : ∀ r, record.centralPlans r = (P.uncached record.stateDicts r).centralPlan)
    (hmetadata : record.globalMetadata =
      (P.uncached record.stateDicts P.coordinator).globalMetadata) : P.AsUncached record := by
  obtain ⟨entered, hplan⟩ := plan_uncached (P := P) record.stateDicts
  have hsave : P.uncachedSave record.stateDicts = some
      { stateDicts := record.stateDicts
        centralPlans := fun r => (P.uncached record.stateDicts r).centralPlan
        globalMetadata := (P.uncached record.stateDicts P.coordinator).globalMetadata
        entered := entered } := by
    unfold uncachedSave save
    rw [hplan]
    rfl
  exact ⟨_, hsave, funext hplans, hmetadata, hmetadata ▸ isSome_metadata_uncached _⟩

/-! ## The metadata of the coordinator -/

section Coordinator

variable {cache : MetadataCache Content StorageData Body}
  {result : Planned Content StorageData Body}
  {metadata : Option (Metadata Content StorageData Body)}

variable (P) in
/-- The coordinator returns the metadata, and keeps it when its cache is validated. -/
def Keeps (cache : MetadataCache Content StorageData Body)
    (result : Planned Content StorageData Body)
    (metadata : Option (Metadata Content StorageData Body)) : Prop :=
  (P.updateCache (some cache) P.coordinator result).2 = metadata ∧
    (cache.cachedPlans.map CachedPlans.centralPlan = some result.centralPlan →
      (P.updateCache (some cache) P.coordinator result).1.bind
        MetadataCache.cachedGlobalMetadata = metadata)

/-- Metadata that has been planned. -/
theorem keeps_of_planned (hplanned : result.globalMetadata = metadata)
    (hmetadata : metadata.isSome) (hverify : result.globalMdVerifyReuse = false) :
    P.Keeps cache result metadata := by
  subst hplanned
  unfold Keeps updateCache MetadataCache.prepareSaveStateDictRet MetadataCache.setCacheMetadata
    MetadataCache.validated
  simp only [hverify, Bool.and_false, Bool.false_eq_true, if_false, hmetadata, if_true,
    Option.any_some, decide_eq_true_eq]
  split
  · exact ⟨rfl, fun _ => rfl⟩
  · rename_i hnot
    exact ⟨rfl, fun hvalidated => absurd hvalidated hnot⟩

/-- Metadata that has been loaded, and verified. -/
theorem keeps_of_loaded (hcached : cache.cachedGlobalMetadata = metadata)
    (hmetadata : metadata.isSome) (hloaded : cache.hasLoadedPlans = true)
    (hverify : result.globalMdVerifyReuse = true) : P.Keeps cache result metadata := by
  subst hcached
  unfold Keeps updateCache MetadataCache.prepareSaveStateDictRet MetadataCache.setCacheMetadata
  unfold MetadataCache.hasLoadedPlans at hloaded ⊢
  simp only [hloaded, hmetadata, hverify, Bool.and_true, if_true, decide_true]
  exact ⟨trivial, fun _ => rfl⟩

/-- Metadata that an earlier save has kept. -/
theorem keeps_of_kept (hcached : cache.cachedGlobalMetadata = metadata)
    (hnone : result.globalMetadata = none) (hverify : result.globalMdVerifyReuse = false)
    (hvalidated : cache.cachedPlans.map CachedPlans.centralPlan = some result.centralPlan) :
    P.Keeps cache result metadata := by
  subst hcached
  unfold Keeps updateCache MetadataCache.prepareSaveStateDictRet MetadataCache.setCacheMetadata
    MetadataCache.validated
  simp only [hverify, Bool.and_false, Bool.false_eq_true, if_false, hnone, Option.isSome_none,
    Option.any_some, hvalidated, decide_true, if_true]
  exact ⟨trivial, fun _ => rfl⟩

end Coordinator

/-! ## One save -/

section Save

variable {s t : PlanningState n StateDict Content StorageData Body}
  {stateDicts : Fin n → StateDict}

/-- A save whose plans and metadata are those without the cache leaves the caches up to
date. -/
theorem UpToDate.of_results (h : P.UpToDate s)
    {results : (Fin n → Planned Content StorageData Body) × (Fin n → List Collective)}
    (hplan : P.plan 3 (fun r => P.planning (s.caches r) r (stateDicts r)) = some results)
    (hsave : P.save s stateDicts = some t)
    (hcentral : ∀ r, (results.1 r).centralPlan = (P.uncached stateDicts r).centralPlan)
    (hlocal : P.decentralized = false →
      ∀ r, (results.1 r).localPlan = P.freshPlans stateDicts r)
    (huncached : s.caches P.coordinator = none →
      (results.1 P.coordinator).globalMetadata =
        (P.uncached stateDicts P.coordinator).globalMetadata)
    (hkeeps : ∀ cache, s.caches P.coordinator = some cache →
      P.Keeps cache (results.1 P.coordinator)
        (P.uncached stateDicts P.coordinator).globalMetadata) : P.UpToDate t := by
  unfold PlanSetup.save at hsave
  rw [hplan] at hsave
  cases hsave
  refine ⟨fun r plans hplans => ⟨_, List.getLast?_concat .., ?_⟩,
    fun plans hplans hvalidated => ⟨_, List.getLast?_concat .., ?_⟩, fun record hrecord => ?_⟩
  · cases hcache : s.caches r with
    | none =>
      simp only [hcache, updateCache_none] at hplans
      cases hplans
    | some cache =>
      simp only [hcache, cachedPlans_updateCache, Option.some.injEq] at hplans
      subst hplans
      exact ⟨hcentral r, fun hmode => hlocal hmode r⟩
  · cases hcache : s.caches P.coordinator with
    | none =>
      simp only [hcache, updateCache_none] at hplans
      cases hplans
    | some cache =>
      simp only [hcache, cachedPlans_updateCache, Option.some.injEq] at hplans ⊢
      subst hplans
      exact (hkeeps cache hcache).2 (of_decide_eq_true hvalidated)
  · rcases List.mem_append.mp hrecord with hbefore | hlast
    · exact h.records record hbefore
    · cases List.mem_singleton.mp hlast
      refine asUncached_of_uncached hcentral ?_
      cases hcache : s.caches P.coordinator with
      | none => exact huncached hcache
      | some cache => exact (hkeeps cache hcache).1

/-- The metadata of planning that nothing validated has cut short. -/
theorem keeps_of_fromLocal {cache : MetadataCache Content StorageData Body}
    {localPlans : Fin n → SavePlan Content StorageData}
    (hcentralized : P.decentralized = false → localPlans = P.freshPlans stateDicts)
    (hdecentralized : P.decentralized = true →
      if matchesLoaded cache.loadedAllPlans localPlans then
        cache.cachedGlobalMetadata = some (P.gatheredMetadata (P.freshPlans stateDicts))
      else localPlans = P.freshPlans stateDicts) :
    P.Keeps cache (P.fromLocal cache.loadedAllPlans localPlans P.coordinator)
      (P.uncached stateDicts P.coordinator).globalMetadata := by
  have hsome := isSome_metadata_uncached (P := P) stateDicts
  cases hmode : P.decentralized with
  | false =>
    refine keeps_of_planned ?_ hsome ?_
    · simp [uncached, fromLocal, hmode, hcentralized hmode]
    · simp [fromLocal, hmode]
  | true =>
    have hgathered := hdecentralized hmode
    cases hmatches : matchesLoaded cache.loadedAllPlans localPlans with
    | false =>
      have hplans : localPlans = P.freshPlans stateDicts := by
        simpa only [hmatches, Bool.false_eq_true, if_false] using hgathered
      refine keeps_of_planned ?_ hsome ?_
      · simp [uncached, fromLocal, hmode, fromLocalDecentralized, matchesLoaded_none,
          hplans ▸ hmatches, hplans]
      · simp [fromLocal, hmode, fromLocalDecentralized, hmatches]
    | true =>
      rw [hmatches] at hgathered
      refine keeps_of_loaded ?_ hsome ?_ ?_
      · simpa [uncached, fromLocal, hmode, fromLocalDecentralized, matchesLoaded_none]
          using hgathered
      · unfold matchesLoaded at hmatches
        unfold MetadataCache.hasLoadedPlans
        split at hmatches
        · cases hmatches
        · cases hmatches
        · rename_i hloaded
          simp only [hloaded]
      · simp [fromLocal, hmode, fromLocalDecentralized, hmatches]

omit [DecidableEq StorageData] in
theorem localPlan_fromLocal (hmode : P.decentralized = false)
    (loadedAllPlans : Option (List (SavePlan Content StorageData)))
    (localPlans : Fin n → SavePlan Content StorageData) (r : Fin n) :
    (P.fromLocal loadedAllPlans localPlans r).localPlan = localPlans r := by
  simp [fromLocal, hmode]

/-- A save that plans again, from local plans that come to the same. -/
theorem UpToDate.save_not_validated
    {loadedAllPlans : Option (List (SavePlan Content StorageData))}
    (hloaded : ∀ r, (s.caches r).bind MetadataCache.loadedAllPlans = loadedAllPlans)
    (hcaches : ∀ r plans, (s.caches r).bind MetadataCache.cachedPlans = some plans →
      plans.validatedCacheReuse = false)
    (hcentral : ∀ r, (P.fromLocal loadedAllPlans
      (fun q => P.startingPlan (s.caches q) q (stateDicts q)) r).centralPlan =
        (P.uncached stateDicts r).centralPlan)
    (hlocal : P.decentralized = false →
      ∀ r, P.startingPlan (s.caches r) r (stateDicts r) = P.freshPlans stateDicts r)
    (h : P.UpToDate s) (hunchanged : P.Unchanged s (.save stateDicts))
    (hsave : P.save s stateDicts = some t) : P.UpToDate t := by
  obtain ⟨entered, hplan⟩ := plan_not_validated (P := P) hloaded hcaches stateDicts
  refine h.of_results hplan hsave hcentral (fun hmode r => ?_) (fun hcache => ?_)
    fun cache hcache => ?_
  · rw [localPlan_fromLocal hmode, hlocal hmode]
  · have hnone : loadedAllPlans = none := by
      rw [← hloaded P.coordinator, hcache]
      rfl
    have hstarting : ∀ r, P.startingPlan (s.caches r) r (stateDicts r) =
        P.freshPlans stateDicts r := by
      cases hmode : P.decentralized with
      | false => exact hlocal hmode
      | true =>
        have hgathered := hunchanged.2 hmode (hcaches P.coordinator)
        rwa [hloaded P.coordinator, hnone, matchesLoaded_none, if_neg Bool.false_ne_true]
          at hgathered
    simp only [hstarting, hnone]
    rfl
  · have hcached : loadedAllPlans = cache.loadedAllPlans := by
      rw [← hloaded P.coordinator, hcache]
      rfl
    subst hcached
    refine keeps_of_fromLocal (fun hmode => funext (hlocal hmode)) fun hmode => ?_
    have hgathered := hunchanged.2 hmode (hcaches P.coordinator)
    rw [hcache] at hgathered
    cases hmatches : matchesLoaded cache.loadedAllPlans
        fun q => P.startingPlan (s.caches q) q (stateDicts q) with
    | false =>
      rw [Option.bind_some, hmatches, if_neg Bool.false_ne_true] at hgathered
      exact funext hgathered
    | true =>
      rw [Option.bind_some, hmatches, if_pos rfl] at hgathered
      exact hgathered

/-- A save with unchanged plans. -/
theorem UpToDate.save (hstage : P.Stage s.caches)
    {loadedAllPlans : Option (List (SavePlan Content StorageData))}
    (hloaded : ∀ r, (s.caches r).bind MetadataCache.loadedAllPlans = loadedAllPlans)
    (h : P.UpToDate s) (hunchanged : P.Unchanged s (.save stateDicts))
    (hsave : P.save s stateDicts = some t) : P.UpToDate t := by
  have huncached : ∀ last, s.saves.getLast? = some last →
      (∀ r, ∃ plans, (s.caches r).bind MetadataCache.cachedPlans = some plans) →
      P.uncached last.stateDicts = P.uncached stateDicts := by
    intro last hlast hcached
    unfold uncached
    refine congrArg _ (funext fun r => ?_)
    obtain ⟨plans, hplans⟩ := hcached r
    exact (hunchanged.1 r plans hplans last hlast).symm
  have hfresh : ∀ r plans, (s.caches r).bind MetadataCache.cachedPlans = some plans →
      P.decentralized = false → plans.localPlan = P.freshPlans stateDicts r := by
    intro r plans hcached hmode
    obtain ⟨last, hlast, _, hlocal⟩ := h.plans r plans hcached
    rw [hlocal hmode, hunchanged.1 r plans hcached last hlast]
  cases hstage with
  | nothingCached hcached =>
    have hstarting : ∀ r, P.startingPlan (s.caches r) r (stateDicts r) =
        P.freshPlans stateDicts r := fun r => startingPlan_of_nothing (hcached r) _
    refine h.save_not_validated hloaded
      (fun r plans hplans => by cases (hcached r).symm.trans hplans) (fun r => ?_)
      (fun _ => hstarting) hunchanged hsave
    simp only [hstarting]
    exact centralPlan_fromLocal _ _ r
  | cached centralPlans localPlans hcached hagain hfinish =>
    have hstarting : ∀ r, P.startingPlan (s.caches r) r (stateDicts r) = localPlans r :=
      fun r => startingPlan_of_cached (hcached r) _
    refine h.save_not_validated hloaded
      (fun r plans hplans => by cases (hcached r).symm.trans hplans; rfl) (fun r => ?_)
      (fun hmode r => (hstarting r).trans (hfresh r _ (hcached r) hmode)) hunchanged hsave
    simp only [hstarting, hagain]
    obtain ⟨last, hlast, hcentral, _⟩ := h.plans r _ (hcached r)
    rw [← huncached last hlast fun r => ⟨_, hcached r⟩]
    exact hcentral
  | validated centralPlans localPlans hcached hfinish =>
    have hplan := plan_validated (P := P) hcached stateDicts
    have hcentral : ∀ r, centralPlans r = (P.uncached stateDicts r).centralPlan := by
      intro r
      obtain ⟨last, hlast, hcentral, _⟩ := h.plans r _ (hcached r)
      rw [← huncached last hlast fun r => ⟨_, hcached r⟩]
      exact hcentral
    refine h.of_results hplan hsave (fun r => (hfinish r).trans (hcentral r))
      (fun hmode r => hfresh r _ (hcached r) hmode) (fun hcache => ?_) fun cache hcache => ?_
    · have hcoordinator := hcached P.coordinator
      rw [hcache] at hcoordinator
      cases hcoordinator
    · have hcoordinator := hcached P.coordinator
      obtain ⟨last, hlast, hmetadata⟩ := h.metadata _ hcoordinator rfl
      rw [hcache] at hcoordinator hmetadata
      rw [huncached last hlast fun r => ⟨_, hcached r⟩] at hmetadata
      refine keeps_of_kept hmetadata rfl rfl ?_
      rw [show cache.cachedPlans = _ from hcoordinator]
      exact congrArg some (hfinish _).symm

end Save

/-! ## Sequences of saves -/

/-- Metadata that is loaded before any cache is validated does no harm. -/
theorem UpToDate.init {s : PlanningState n StateDict Content StorageData Body}
    (h : P.UpToDate s) {cachedGlobalMetadata : Option (Metadata Content StorageData Body)}
    (hunchanged : P.Unchanged s (.init cachedGlobalMetadata)) :
    P.UpToDate (s.initCheckpointMetadataCache cachedGlobalMetadata) where
  plans r plans hplans := h.plans r plans ((cachedPlans_init s _ r).symm.trans hplans)
  metadata plans hplans hvalidated := by
    rw [cachedPlans_init] at hplans
    cases (hunchanged plans hplans).symm.trans hvalidated
  records := h.records

/-- The condition, where it can be computed. -/
instance decidableUnchanged [DecidableEq Body]
    (s : PlanningState n StateDict Content StorageData Body)
    (event : PlanningEvent n StateDict Content StorageData Body) :
    Decidable (P.Unchanged s event) :=
  match event with
  | .init _ => inferInstanceAs (Decidable (∀ plans ∈ _, _))
  | .save _ => inferInstanceAs (Decidable ((∀ _, ∀ plans ∈ _, ∀ last ∈ _, _) ∧ (_ → _ → ite _ _ _)))

end PlanSetup

theorem content_of_asUncached {record : SaveRecord 2 Nat Nat Nat Nat}
    (h : (plainSetup false).AsUncached record) (r : Fin 2) :
    (record.centralPlans r).content = record.stateDicts r := by
  obtain ⟨fresh, hsave, hplans, _⟩ := h
  obtain ⟨entered, hplan⟩ := PlanSetup.plan_uncached (P := plainSetup false) record.stateDicts
  unfold PlanSetup.uncachedSave PlanSetup.save at hsave
  rw [hplan] at hsave
  cases hsave
  rw [hplans]
  rfl

end ResiliencyExt.Checkpointing.AsyncCkpt
