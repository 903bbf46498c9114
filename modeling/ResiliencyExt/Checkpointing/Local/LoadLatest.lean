import ResiliencyExt.Checkpointing.Local.CkptFiles
import ResiliencyExt.Checkpointing.Replication.ExecutePlan

set_option autoImplicit false

/-!
# Local checkpoints: loading what `find_latest` reports

`load` reads the rank's shard from its own directory, or has the members of its
clique exchange their shards.  `find_latest` takes an iteration for complete when
every rank's shard is in some directory; the exchange can use only the directories of
the clique.
-/

namespace ResiliencyExt.Checkpointing.Local

open Foundation List
open ResiliencyExt.Checkpointing.Replication

variable {Hollow Tensor : Type} {placeholders : Hollow → Nat}

inductive LoadError where
  /-- `CheckpointingException`: the file does not exist. -/
  | checkpointingException
  /-- `AssertionError`: another session, too many digits, or another result than asked for. -/
  | assertionError
  | noReplicasAvailable (id : CkptId)
  /-- An error of `execute_plan`. -/
  | execute (error : ExecuteError)
  deriving DecidableEq, Repr

namespace Config

variable (cfg : Config)

/-- `_ckpt_id` -/
def ckptId (iteration r : Nat) : CkptId :=
  ⟨iteration, r, cfg.sessionId⟩

/-- `_load_fn` -/
def loadFn (dir : CkptDir (StateDict Hollow Tensor placeholders)) (id : CkptId) :
    Except LoadError (StateDict Hollow Tensor placeholders) :=
  if id.sessionId = cfg.sessionId ∧ fitsDigits id.iteration = true then
    match dir.get? ⟨id.iteration, id.rank, false⟩ with
    | none => .error .checkpointingException
    | some data => .ok data
  else .error .assertionError

/-- The clique of rank `r`, in which every member wants its own shard of the iteration. -/
def cliqueGroup (cliques : Cliques cfg.worldSize) (rng : Rng)
    (dirs : Nat → CkptDir (StateDict Hollow Tensor placeholders)) (iteration r : Nat) :
    ReplicationGroup CkptId where
  ranks := cliques.ranks r
  nodup := cliques.nodup r
  rng := rng
  globallyAvailableIds _ rank := (cfg.globallyAvailableIds dirs)[rank]?.getD []
  wanted m := [cfg.ckptId iteration m]
  same _ _ _ _ := rfl

/-- `my_data` -/
def myData (dirs : Nat → CkptDir (StateDict Hollow Tensor placeholders))
    (plan : ExchangePlan CkptId) (m : Nat) (id : CkptId) :
    Option (StateDict Hollow Tensor placeholders) :=
  if id ∈ requiredIds plan m then (cfg.loadFn (dirs m) id).toOption else none

/-- The two assertions on what has been retrieved. -/
def checkRetrieved (iteration m : Nat) (result : RecvBuf CkptId Hollow Tensor placeholders) :
    Except LoadError (Option (StateDict Hollow Tensor placeholders × CkptId)) :=
  match result.entries with
  | [(id, data)] =>
    if id = cfg.ckptId iteration m then .ok (some (data, cfg.ckptId iteration m))
    else .error .assertionError
  | _ => .error .assertionError

/-- `load` of rank `m`, after `find_latest` has reported the iteration. -/
def load (rng : Rng) (dirs : Nat → CkptDir (StateDict Hollow Tensor placeholders))
    (iteration m : Nat) : Program (PlanMsg Hollow Tensor) LoadError
      (Option (StateDict Hollow Tensor placeholders × CkptId)) :=
  match cfg.cliques with
  | none =>
    match cfg.loadFn (dirs m) (cfg.ckptId iteration m) with
    | .error error => .raise error
    | .ok data => .done (some (data, cfg.ckptId iteration m))
  | some cliques =>
    match (cfg.cliqueGroup cliques rng dirs iteration m).retrievePlan m with
    | .error error => .raise (.noReplicasAvailable error.id)
    | .ok plan =>
      match (requiredIds plan m).mapM (cfg.loadFn (dirs m)) with
      | .error error => .raise error
      | .ok _ =>
        (executePlan m plan (cfg.myData dirs plan m)).andThen
          (cfg.checkRetrieved iteration m) .execute

/-- The ranks that exchange shards with rank `r` call `load`. -/
def loadTogether (rng : Rng) (capacity : Nat → Nat → Nat)
    (dirs : Nat → CkptDir (StateDict Hollow Tensor placeholders)) (iteration r : Nat) :
    Agents (Channels (PlanMsg Hollow Tensor)) (Process (PlanMsg Hollow Tensor) LoadError
      (Option (StateDict Hollow Tensor placeholders × CkptId))) Unit :=
  pointToPoint capacity fun m =>
    if m ∈ cfg.shards r then cfg.load rng dirs iteration m else .done none

/-- In every order of the sends and receives `load` of rank `r` returns a shard that a rank it
can receive from holds for it, under its id. -/
structure Loads (rng : Rng) (capacity : Nat → Nat → Nat)
    (dirs : Nat → CkptDir (StateDict Hollow Tensor placeholders)) (iteration r : Nat) : Prop where
  finite : ∃ bound, ∀ actions c, (cfg.loadTogether rng capacity dirs iteration r).system.Run
    (fun _ _ => True) (cfg.loadTogether rng capacity dirs iteration r).initial actions c →
      actions.length ≤ bound
  progress : ∀ c, (cfg.loadTogether rng capacity dirs iteration r).system.Reachable
    (fun _ _ => True) c → (∃ result, c.agent r = .running (.done result)) ∨
      ∃ a d, (cfg.loadTogether rng capacity dirs iteration r).system.step c a = some d
  correct : ∀ c, (cfg.loadTogether rng capacity dirs iteration r).system.Reachable
    (fun _ _ => True) c → ∀ result, c.agent r = .running (.done result) →
      ∃ data, result = some (data, cfg.ckptId iteration r) ∧
        ∃ m ∈ cfg.shards r, (dirs m).get? ⟨iteration, r, false⟩ = some data
  noError : ∀ c, (cfg.loadTogether rng capacity dirs iteration r).system.Reachable
    (fun _ _ => True) c → ∀ error, c.agent r ≠ .running (.raise error)

/-! ## A choreography of `load` -/

variable {cfg} {rng : Rng} {capacity : Nat → Nat → Nat}
  {dirs : Nat → CkptDir (StateDict Hollow Tensor placeholders)} {iteration r : Nat}

variable {cliques : Cliques cfg.worldSize}

/-- It is enough that the ranks that exchange shards follow one list of transfers. -/
theorem loads_of_follows (hr : r < cfg.worldSize)
    (transfers : List (Transfer (PlanMsg Hollow Tensor)))
    (hmem : ∀ t ∈ transfers, t.src ∈ cfg.shards r ∧ t.dst ∈ cfg.shards r)
    (hload : ∀ m ∈ cfg.shards r, ∃ data,
      Follows m transfers (cfg.load rng dirs iteration m)
        (some (data, cfg.ckptId iteration m)) ∧
      ∃ holder ∈ cfg.shards m, (dirs holder).get? ⟨iteration, m, false⟩ = some data) :
    cfg.Loads rng capacity dirs iteration r := by
  have hall : ∀ m, ∃ result, Follows m transfers
      (if m ∈ cfg.shards r then cfg.load rng dirs iteration m else .done none) result ∧
      (m = r → ∃ data, result = some (data, cfg.ckptId iteration r) ∧
        ∃ holder ∈ cfg.shards r, (dirs holder).get? ⟨iteration, r, false⟩ = some data) := by
    intro m
    by_cases hm : m ∈ cfg.shards r
    · obtain ⟨data, hfollows, hholder⟩ := hload m hm
      rw [if_pos hm]
      refine ⟨_, hfollows, fun heq => ?_⟩
      subst heq
      exact ⟨data, rfl, hholder⟩
    · rw [if_neg hm]
      refine ⟨none, Follows.of_not_mem (fun t ht => ?_) none, fun heq => ?_⟩
      · exact ⟨fun heq => hm (heq ▸ (hmem t ht).1), fun heq => hm (heq ▸ (hmem t ht).2)⟩
      · subst heq
        exact absurd (cfg.self_mem_shards hr) hm
  choose result hfollows hresult using hall
  let C : Choreography (PlanMsg Hollow Tensor) LoadError
      (Option (StateDict Hollow Tensor placeholders × CkptId)) :=
    { members := (cfg.shards r).toFinset
      capacity := capacity
      transfers := transfers
      mem := fun t ht => ⟨mem_toFinset.mpr (hmem t ht).1, mem_toFinset.mpr (hmem t ht).2⟩
      program := fun m => if m ∈ cfg.shards r then cfg.load rng dirs iteration m else .done none
      result := result
      follows := hfollows }
  refine
    { finite := ⟨_, fun actions c hrun => C.run_finite hrun⟩
      progress := fun c hc => ?_
      correct := fun c hc value hdone => ?_
      noError := fun c hc error => (C.result_of_done hc).2 r error }
  · rcases C.no_deadlock hc with hdone | hstep
    · exact Or.inl ⟨_, hdone r⟩
    · exact Or.inr hstep
  · rw [(C.result_of_done hc).1 r value hdone]
    exact hresult r rfl

/-! ## What the members of a clique hold -/

theorem loadFn_ckptId {dir : CkptDir (StateDict Hollow Tensor placeholders)}
    {data : StateDict Hollow Tensor placeholders} (hfits : fitsDigits iteration = true)
    (hget : dir.get? ⟨iteration, r, false⟩ = some data) :
    cfg.loadFn dir (cfg.ckptId iteration r) = .ok data := by
  have hname : (⟨(cfg.ckptId iteration r).iteration, (cfg.ckptId iteration r).rank, false⟩ :
      FileName) = ⟨iteration, r, false⟩ := rfl
  rw [loadFn, if_pos ⟨rfl, hfits⟩, hname, hget]

theorem mem_globallyAvailableIds {rank q : Nat} (hrank : rank < cfg.worldSize)
    (hsome : cfg.cliques ≠ none) :
    cfg.ckptId iteration q ∈ (cfg.globallyAvailableIds dirs)[rank]?.getD [] ↔
      ⟨iteration, q, false⟩ ∈ (dirs rank).keys := by
  have hget : (cfg.globallyAvailableIds dirs)[rank]? =
      some (cfg.locallyAvailableIds rank (dirs rank)) := by
    simp [globallyAvailableIds, hrank]
  rw [hget, Option.getD_some, mem_locallyAvailableIds]
  exact ⟨fun h => h.1.1, fun h => ⟨⟨h, fun hnone => absurd hnone hsome⟩, rfl⟩⟩

/-- All members of a clique have the same group. -/
theorem cliqueGroup_eq (cliques : Cliques cfg.worldSize) (hr : r < cfg.worldSize) {m : Nat}
    (hm : m ∈ cliques.ranks r) :
    cfg.cliqueGroup cliques rng dirs iteration m =
      cfg.cliqueGroup cliques rng dirs iteration r := by
  simp only [cliqueGroup, cliques.same r hr m hm]

theorem held_iff (hcliques : cfg.cliques = some cliques) (hr : r < cfg.worldSize) {m q : Nat} :
    (cfg.cliqueGroup cliques rng dirs iteration r).Held m (cfg.ckptId iteration q) ↔
      ∃ holder ∈ cliques.ranks r, ⟨iteration, q, false⟩ ∈ (dirs holder).keys := by
  refine exists_congr fun holder => and_congr_right fun hholder => ?_
  exact mem_globallyAvailableIds (cliques.lt_of_mem r hr holder hholder) (by simp [hcliques])

theorem exists_mapM_eq_ok {α β ε : Type} {f : α → Except ε β} {items : List α}
    (h : ∀ item ∈ items, ∃ value, f item = .ok value) :
    ∃ values, items.mapM f = .ok values := by
  induction items with
  | nil => exact ⟨[], rfl⟩
  | cons item items ih =>
    obtain ⟨value, hvalue⟩ := h item mem_cons_self
    obtain ⟨values, hvalues⟩ := ih fun i hi => h i (mem_cons_of_mem _ hi)
    exact ⟨value :: values, by rw [mapM_cons, hvalue, hvalues]; rfl⟩

section

variable (hcliques : cfg.cliques = some cliques) (hr : r < cfg.worldSize)
    (hfits : fitsDigits iteration = true)
    (hheld : ∀ q ∈ cliques.ranks r, ∃ holder ∈ cliques.ranks r,
      ⟨iteration, q, false⟩ ∈ (dirs holder).keys)
include hcliques hr hfits hheld

/-- When all shards of a clique are held in it, its members agree on a plan that they can serve. -/
theorem exists_plan :
    ∃ plan, (∀ m ∈ cliques.ranks r,
        (cfg.cliqueGroup cliques rng dirs iteration m).retrievePlan m = .ok plan) ∧
      (∀ e ∈ plan, e.sender ∈ cliques.ranks r ∧ e.receiver ∈ cliques.ranks r ∧
        e.id = cfg.ckptId iteration e.receiver ∧
        ∃ data, (dirs e.sender).get? ⟨iteration, e.receiver, false⟩ = some data ∧
          cfg.loadFn (dirs e.sender) e.id = .ok data) ∧
      ∀ m ∈ cliques.ranks r, ∃ e ∈ plan, e.receiver = m := by
  rcases (cfg.cliqueGroup cliques rng dirs iteration r).retrievePlan_spec r with
    ⟨q, hq, id, hid, hnot, _⟩ | ⟨_, plan, hok, hmap, hserves⟩
  · rw [mem_singleton.mp hid] at hnot
    exact absurd ((held_iff hcliques hr).mpr (hheld q hq)) hnot
  have hself := cliques.self_mem r hr
  refine ⟨plan, fun m hm => ?_, fun e he => ?_, fun m hm => ?_⟩
  · rw [cliqueGroup_eq cliques hr hm]
    exact (ReplicationGroup.retrievePlan_congr hm hself).trans hok
  · have hrequest : (e.receiver, e.id) ∈
        (cfg.cliqueGroup cliques rng dirs iteration r).requests :=
      hmap ▸ mem_map.mpr ⟨e, he, rfl⟩
    obtain ⟨hreceiver, hwanted⟩ := ReplicationGroup.mem_requests.mp hrequest
    have hid : e.id = cfg.ckptId iteration e.receiver := mem_singleton.mp hwanted
    have hsender := (hserves e he).sender_mem
    have hholds := (hserves e he).holds
    rw [hid] at hholds
    obtain ⟨data, hget⟩ := Dict.exists_get?_of_mem ((mem_globallyAvailableIds
      (cliques.lt_of_mem r hr e.sender hsender) (by simp [hcliques])).mp hholds)
    exact ⟨hsender, hreceiver, hid, data, hget, hid ▸ loadFn_ckptId hfits hget⟩
  · have hrequest : (m, cfg.ckptId iteration m) ∈
        plan.map fun e => (e.receiver, e.id) := by
      rw [hmap]
      exact ReplicationGroup.mem_requests.mpr ⟨hm, mem_singleton_self _⟩
    obtain ⟨e, he, heq⟩ := mem_map.mp hrequest
    exact ⟨e, he, congrArg Prod.fst heq⟩

/-- A clique that holds the shards of all its members loads them. -/
theorem loads_of_held : cfg.Loads rng capacity dirs iteration r := by
  obtain ⟨plan, (hplan : ∀ m ∈ cliques.ranks r,
      (cfg.cliqueGroup cliques rng dirs iteration m).retrievePlan m = .ok plan), hentries, hall⟩ :=
    exists_plan hcliques hr hfits hheld
  have hshards : ∀ m, cfg.shards m = cliques.ranks m := fun m => by simp only [shards, hcliques]
  have hmyData : ∀ e ∈ plan, ∀ data, cfg.loadFn (dirs e.sender) e.id = .ok data →
      cfg.myData dirs plan e.sender e.id = some data := fun e he data hload => by
    have hrequired : e.id ∈ requiredIds plan e.sender :=
      mem_map.mpr ⟨e, mem_filter.mpr ⟨he, decide_eq_true rfl⟩, rfl⟩
    rw [myData, if_pos hrequired, hload]
    rfl
  have hprovides : Provides (cfg.myData dirs plan) plan := provides_iff.mpr fun e he => by
    obtain ⟨_, _, _, data, _, hload⟩ := hentries e he
    rw [hmyData e he data hload]
    rfl
  let C := exchange (cliques.ranks r).toFinset capacity plan (cfg.myData dirs plan) hprovides
    fun e he => ⟨mem_toFinset.mpr (hentries e he).1,
      mem_toFinset.mpr (hentries e he).2.1⟩
  refine loads_of_follows hr C.transfers (fun t ht => ?_) fun m hm => ?_
  · rw [hshards]
    exact ⟨mem_toFinset.mp (C.mem t ht).1, mem_toFinset.mp (C.mem t ht).2⟩
  rw [hshards] at hm
  have hloads : ∀ id ∈ requiredIds plan m, ∃ data, cfg.loadFn (dirs m) id = .ok data :=
    fun id hid => by
      obtain ⟨e, he, rfl⟩ := mem_map.mp hid
      obtain ⟨hmem, hsender⟩ := mem_filter.mp he
      obtain ⟨_, _, _, data, _, hload⟩ := hentries e hmem
      exact ⟨data, of_decide_eq_true hsender ▸ hload⟩
  obtain ⟨values, hvalues⟩ := exists_mapM_eq_ok hloads
  -- the one entry for the member brings its shard
  obtain ⟨sender, hsender, data, hget, hresult⟩ : ∃ sender ∈ cliques.ranks r, ∃ data,
      (dirs sender).get? ⟨iteration, m, false⟩ = some data ∧
      (executeResult (cfg.myData dirs plan) plan m).get? (cfg.ckptId iteration m) =
        some data := by
    rcases @get?_foldl_receiveEntry _ _ _ _ _ _ m (cfg.ckptId iteration m) _
        (provides_iff.mp hprovides) .empty with ⟨_, hnone⟩ | ⟨e, he, ⟨hreceiver, hid⟩, hget⟩
    · obtain ⟨e, he, hreceiver⟩ := hall m hm
      exact absurd (hreceiver ▸ (hentries e he).2.2.1) (hnone e he hreceiver)
    · obtain ⟨hsender, _, _, data, hfile, hload⟩ := hentries e he
      rw [hreceiver] at hfile
      refine ⟨e.sender, hsender, data, hfile, hget.trans ?_⟩
      rw [← hid]
      exact hmyData e he data hload
  have hkeys : ∀ id ∈ (executeResult (cfg.myData dirs plan) plan m).keys,
      id = cfg.ckptId iteration m := fun id hid => by
    rcases mem_keys_foldl_receiveEntry hid with hmem | ⟨e, he, hreceiver, rfl⟩
    · cases hmem
    · rw [(hentries e he).2.2.1, hreceiver]
  refine ⟨data, ?_, sender, ?_, hget⟩
  · simp only [load, hcliques, hplan m hm, hvalues]
    refine (C.follows m).andThen _ ?_
    simp only [C, exchange, checkRetrieved, Dict.entries_eq_singleton hkeys hresult, if_pos]
  · rw [hshards, cliques.same r hr m hm]
    exact hsender

end

/-- Without replication the rank's own directory is all that is needed. -/
theorem loads_of_own (hnone : cfg.cliques = none) (hr : r < cfg.worldSize)
    (hfits : fitsDigits iteration = true) (hown : ⟨iteration, r, false⟩ ∈ (dirs r).keys) :
    cfg.Loads rng capacity dirs iteration r := by
  have hshards : cfg.shards r = [r] := by simp only [shards, hnone]
  refine loads_of_follows hr [] (by simp) fun m hm => ?_
  obtain ⟨data, hget⟩ := Dict.exists_get?_of_mem hown
  rw [hshards] at hm
  obtain rfl := mem_singleton.mp hm
  refine ⟨data, ?_, m, cfg.self_mem_shards hr, hget⟩
  simp only [load, hnone, loadFn_ckptId hfits hget]
  exact .done _

/-- A shard that no member of the rank's clique holds makes `load` raise. -/
theorem not_loads_of_not_held (hcliques : cfg.cliques = some cliques) (hr : r < cfg.worldSize)
    (hnot : ¬ ∃ holder ∈ cliques.ranks r, ⟨iteration, r, false⟩ ∈ (dirs holder).keys) :
    ¬ cfg.Loads rng capacity dirs iteration r := by
  intro hloads
  have hself := cliques.self_mem r hr
  rcases (cfg.cliqueGroup cliques rng dirs iteration r).retrievePlan_spec r with
    ⟨q, _, id, _, _, herror⟩ | ⟨hall, _⟩
  · refine hloads.noError _ (.init rfl) (.noReplicasAvailable id) ?_
    have hmem : r ∈ cfg.shards r := cfg.self_mem_shards hr
    change Process.running (if r ∈ cfg.shards r then cfg.load rng dirs iteration r else _) = _
    rw [if_pos hmem]
    simp only [load, hcliques, herror]
  · exact hnot ((held_iff hcliques hr).mp (hall r hself _ (mem_singleton_self _)))

end Config

/-- The iteration that `find_latest` reports can be loaded on all ranks if and only if every
rank's shard of it is held by a rank that it can receive from. -/
theorem latest_loads_iff {cfg : Config} {rng : Rng} {capacity : Nat → Nat → Nat}
    {dirs : Nat → CkptDir (StateDict Hollow Tensor placeholders)} {iteration : Nat}
    (hwell : ∀ r < cfg.worldSize, ∀ name ∈ (dirs r).keys, fitsDigits name.iteration = true)
    (hlatest : cfg.latest dirs = iteration) :
    (∀ r < cfg.worldSize, cfg.Loads rng capacity dirs iteration r) ↔
      ∀ r < cfg.worldSize, ∃ m ∈ cfg.shards r, ⟨iteration, r, false⟩ ∈ (dirs m).keys := by
  have hcomplete := cfg.complete_of_latest_eq hlatest
  have hfits : fitsDigits iteration = true := by
    obtain ⟨r, hr, hmem, _⟩ := hcomplete 0 cfg.pos
    exact hwell r hr _ hmem
  cases hcliques : cfg.cliques with
  | none =>
    have hown : ∀ r < cfg.worldSize, ⟨iteration, r, false⟩ ∈ (dirs r).keys := fun r hr => by
      obtain ⟨m, _, hmem, hself⟩ := hcomplete r hr
      exact hself hcliques ▸ hmem
    exact ⟨fun _ r hr => ⟨r, cfg.self_mem_shards hr, hown r hr⟩,
      fun _ r hr => Config.loads_of_own hcliques hr hfits (hown r hr)⟩
  | some cliques =>
    have hshards : ∀ r, cfg.shards r = cliques.ranks r := fun r => by
      simp only [Config.shards, hcliques]
    constructor
    · intro hloads r hr
      by_contra hnot
      rw [hshards] at hnot
      exact Config.not_loads_of_not_held hcliques hr hnot (hloads r hr)
    · intro hheld r hr
      refine Config.loads_of_held hcliques hr hfits fun q hq => ?_
      obtain ⟨holder, hholder, hmem⟩ := hheld q (cliques.lt_of_mem r hr q hq)
      rw [hshards, cliques.same r hr q hq] at hholder
      exact ⟨holder, hholder, hmem⟩

/-- Rank 0 has the shards of iteration 5 of both ranks, and rank 1 has none. -/
def onRankZero : Nat → CkptDir (StateDict Nat Nat fun hollow => hollow)
  | 0 => (Dict.empty.set ⟨5, 0, false⟩ ⟨1, [50], rfl⟩).set ⟨5, 1, false⟩ ⟨1, [51], rfl⟩
  | _ => .empty

/-- The first of some choices is one of them. -/
theorem headD_mem_of_ne_nil (choices : List Nat) (hne : choices ≠ []) :
    choices.headD 0 ∈ choices := by
  cases choices with
  | nil => exact absurd rfl hne
  | cons choice _ => exact mem_cons_self

/-- A generator that chooses the first of the holders. -/
def firstChoice : Rng where
  State := Unit
  seeded _ := ()
  choice state choices := (choices.headD 0, state)
  choice_mem _ := headD_mem_of_ne_nil

/-- Two ranks that keep each other's shards load them from rank 0. -/
theorem latest_loads_pair : pair.latest onRankZero = 5 ∧
    ∀ r < 2, pair.Loads firstChoice (fun _ _ => 0) onRankZero 5 r := by
  have hlatest : pair.latest onRankZero = 5 := by decide +kernel
  exact ⟨hlatest, (latest_loads_iff (by decide +kernel) hlatest).mpr (by decide +kernel)⟩

/-- Replication groups of one rank each. -/
def Cliques.ofOne : Cliques 2 where
  ranks r := [r]
  nodup := nodup_singleton
  self_mem := fun _ _ => mem_cons_self
  lt_of_mem := fun _ hr _ hp => mem_singleton.mp hp ▸ hr
  same := fun _ _ _ hp => congrArg (fun r => [r]) (mem_singleton.mp hp)

/-- Two ranks with replication groups of one rank each. -/
def apart : Config where
  worldSize := 2
  pos := Nat.zero_lt_two
  sessionId := []
  cliques := some Cliques.ofOne

/-- With the groups taken apart the same directories still count as complete, and rank 1 finds
nobody to receive its shard from. -/
theorem complete_and_not_loadable :
    apart.latest onRankZero = 5 ∧ ¬ apart.Loads firstChoice (fun _ _ => 0) onRankZero 5 1 := by
  refine ⟨by decide +kernel, Config.not_loads_of_not_held rfl (by decide) ?_⟩
  rintro ⟨holder, hholder, hmem⟩
  obtain rfl := mem_singleton.mp hholder
  cases hmem

end ResiliencyExt.Checkpointing.Local
