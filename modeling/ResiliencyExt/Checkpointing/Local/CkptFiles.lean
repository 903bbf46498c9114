import Mathlib.Order.MinMax
import ResiliencyExt.Foundation.Dict

set_option autoImplicit false

/-!
# Local checkpoints: files and the latest iteration

Every rank keeps the shards it holds in a directory of its own, one file a shard.
A file that is being written has a dirty name; `_my_ckpt_ids` lists the others.
`find_latest` gathers the lists of all ranks and takes the largest iteration that
has a shard of exactly the ranks of the world.
-/

namespace ResiliencyExt.Checkpointing.Local

open Foundation List

/-- `iter_{iteration}_{rank}_local{.dirty}.pt` -/
structure FileName where
  iteration : Nat
  rank : Nat
  dirty : Bool
  deriving DecidableEq, Repr

/-- The assertion of `_filename_from_template`: seven digits. -/
def fitsDigits (iteration : Nat) : Bool :=
  iteration < 10000000

/-- A local checkpoint directory. -/
abbrev CkptDir (Content : Type) :=
  Dict FileName Content

structure CkptId where
  iteration : Nat
  rank : Nat
  sessionId : List Char
  deriving DecidableEq, Repr

/-- The partition of the ranks into the groups of a `CliqueReplicationStrategy`. -/
structure Cliques (worldSize : Nat) where
  /-- `local_group.ranks` of a rank -/
  ranks : Nat → List Nat
  nodup : ∀ r, (ranks r).Nodup
  self_mem : ∀ r < worldSize, r ∈ ranks r
  lt_of_mem : ∀ r < worldSize, ∀ p ∈ ranks r, p < worldSize
  same : ∀ r < worldSize, ∀ p ∈ ranks r, ranks p = ranks r

/-- What the checkpoint managers of all ranks are built with. -/
structure Config where
  worldSize : Nat
  pos : 0 < worldSize
  sessionId : List Char
  /-- `repl_strategy` -/
  cliques : Option (Cliques worldSize)

namespace Config

variable (cfg : Config) {Content : Type}

/-- The ranks whose shards a rank saves: those of its clique, without replication its own. -/
def shards (r : Nat) : List Nat :=
  match cfg.cliques with
  | none => [r]
  | some cliques => cliques.ranks r

variable {r k iteration : Nat} {dirs : Nat → CkptDir Content}

theorem self_mem_shards (hr : r < cfg.worldSize) : r ∈ cfg.shards r := by
  unfold shards
  split
  · exact mem_singleton_self r
  · rename_i cliques _
    exact cliques.self_mem r hr

theorem lt_of_mem_shards {p : Nat} (hr : r < cfg.worldSize) (hp : p ∈ cfg.shards r) :
    p < cfg.worldSize := by
  unfold shards at hp
  split at hp
  · exact mem_singleton.mp hp ▸ hr
  · rename_i cliques _
    exact cliques.lt_of_mem r hr p hp

/-! ## `find_latest` -/

/-- `_my_ckpt_ids` -/
def myCkptIds (dir : CkptDir Content) : List CkptId :=
  (dir.keys.filter fun name => !name.dirty).map fun name =>
    ⟨name.iteration, name.rank, cfg.sessionId⟩

/-- `locally_available_ids`: without replication, the shards of other ranks cannot be
sent and count as unavailable. -/
def locallyAvailableIds (r : Nat) (dir : CkptDir Content) : List CkptId :=
  match cfg.cliques with
  | none => (cfg.myCkptIds dir).filter fun id => id.rank = r
  | some _ => cfg.myCkptIds dir

/-- `globally_available_ids` -/
def globallyAvailableIds (dirs : Nat → CkptDir Content) : List (List CkptId) :=
  (List.range cfg.worldSize).map fun r => cfg.locallyAvailableIds r (dirs r)

/-- `checkpoint_coverage_map[iteration]` -/
def coverage (ids : List (List CkptId)) (iteration : Nat) : List Nat :=
  (ids.flatten.filter fun id => id.iteration = iteration).map fun id => id.rank

/-- `rank_set == set(group_wrapper.ranks)` -/
def covered (ids : List (List CkptId)) (iteration : Nat) : Bool :=
  (coverage ids iteration).all (fun p => p < cfg.worldSize) &&
    (List.range cfg.worldSize).all fun p => p ∈ coverage ids iteration

/-- The iterations with a complete checkpoint. -/
def coveredIterations (ids : List (List CkptId)) : List Nat :=
  (ids.flatten.map fun id => id.iteration).filter (cfg.covered ids)

/-- `max(.., default=-1)` -/
def maxIteration (iterations : List Nat) : Int :=
  iterations.foldr (fun iteration latest => max (iteration : Int) latest) (-1)

/-- `find_latest` when nothing is cached. -/
def latest (dirs : Nat → CkptDir Content) : Int :=
  maxIteration (cfg.coveredIterations (cfg.globallyAvailableIds dirs))

theorem le_maxIteration_iff {iterations : List Nat} :
    (k : Int) ≤ maxIteration iterations ↔ ∃ m ∈ iterations, k ≤ m := by
  induction iterations with
  | nil => simp [maxIteration]; omega
  | cons m rest ih =>
    have hcons : maxIteration (m :: rest) = max (m : Int) (maxIteration rest) := rfl
    rw [hcons, le_max_iff, ih, Int.ofNat_le, exists_mem_cons_iff]

theorem mem_of_maxIteration_eq {iterations : List Nat} (h : maxIteration iterations = k) :
    k ∈ iterations := by
  induction iterations with
  | nil => simp [maxIteration] at h
  | cons m rest ih =>
    have hcons : maxIteration (m :: rest) = max (m : Int) (maxIteration rest) := rfl
    rw [hcons] at h
    rcases max_choice (m : Int) (maxIteration rest) with hm | hrest
    · exact (Int.ofNat.inj (hm.symm.trans h)) ▸ mem_cons_self
    · exact mem_cons_of_mem _ (ih (hrest.symm.trans h))

/-! ## Complete iterations -/

/-- The shard of rank `p` can be taken from the directory of rank `r`. -/
def Visible (dirs : Nat → CkptDir Content) (iteration p r : Nat) : Prop :=
  ⟨iteration, p, false⟩ ∈ (dirs r).keys ∧ (cfg.cliques = none → p = r)

/-- Every rank's shard of the iteration can be taken from some rank's directory. -/
def Complete (dirs : Nat → CkptDir Content) (iteration : Nat) : Prop :=
  ∀ p < cfg.worldSize, ∃ r < cfg.worldSize, cfg.Visible dirs iteration p r

/-- Some rank's shard of the iteration is missing, and no newer iteration is complete. -/
def Lost (dirs : Nat → CkptDir Content) (iteration : Nat) : Prop :=
  ∀ m, iteration ≤ m → ¬ cfg.Complete dirs m

/-- The iteration is the newest one that is complete. -/
def Newest (dirs : Nat → CkptDir Content) (iteration : Nat) : Prop :=
  cfg.Complete dirs iteration ∧ ∀ m, cfg.Complete dirs m → m ≤ iteration

/-- No directory holds a shard of a rank outside the world. -/
def InWorld (dirs : Nat → CkptDir Content) : Prop :=
  ∀ r < cfg.worldSize, ∀ name ∈ (dirs r).keys, name.rank < cfg.worldSize

theorem mem_locallyAvailableIds {dir : CkptDir Content} {id : CkptId} :
    id ∈ cfg.locallyAvailableIds r dir ↔
      (⟨id.iteration, id.rank, false⟩ ∈ dir.keys ∧ (cfg.cliques = none → id.rank = r)) ∧
        id.sessionId = cfg.sessionId := by
  have hids : id ∈ cfg.myCkptIds dir ↔
      ⟨id.iteration, id.rank, false⟩ ∈ dir.keys ∧ id.sessionId = cfg.sessionId := by
    simp only [myCkptIds, mem_map, mem_filter, Bool.not_eq_true']
    constructor
    · rintro ⟨⟨iteration, rank, dirty⟩, ⟨hmem, rfl⟩, rfl⟩
      exact ⟨hmem, rfl⟩
    · rintro ⟨hmem, hsession⟩
      obtain ⟨iteration, rank, session⟩ := id
      exact ⟨_, ⟨hmem, rfl⟩, by simp only [← hsession]⟩
  unfold locallyAvailableIds
  split
  · rename_i hnone
    rw [mem_filter, hids, decide_eq_true_eq]
    exact ⟨fun ⟨⟨hmem, hsession⟩, hrank⟩ => ⟨⟨hmem, fun _ => hrank⟩, hsession⟩,
      fun ⟨⟨hmem, hrank⟩, hsession⟩ => ⟨⟨hmem, hsession⟩, hrank hnone⟩⟩
  · rename_i cliques hsome
    rw [hids]
    exact ⟨fun ⟨hmem, hsession⟩ => ⟨⟨hmem, fun hnone => nomatch hsome.symm.trans hnone⟩, hsession⟩,
      fun ⟨⟨hmem, _⟩, hsession⟩ => ⟨hmem, hsession⟩⟩

theorem mem_flatten_globallyAvailableIds {id : CkptId} :
    id ∈ (cfg.globallyAvailableIds dirs).flatten ↔
      (∃ r < cfg.worldSize, cfg.Visible dirs id.iteration id.rank r) ∧
        id.sessionId = cfg.sessionId := by
  simp only [globallyAvailableIds, mem_flatten, mem_map, mem_range,
    exists_exists_and_eq_and, mem_locallyAvailableIds, Visible]
  exact ⟨fun ⟨r, hr, hvisible, hsession⟩ => ⟨⟨r, hr, hvisible⟩, hsession⟩,
    fun ⟨⟨r, hr, hvisible⟩, hsession⟩ => ⟨r, hr, hvisible, hsession⟩⟩

theorem mem_coverage {p : Nat} :
    p ∈ coverage (cfg.globallyAvailableIds dirs) iteration ↔
      ∃ r < cfg.worldSize, cfg.Visible dirs iteration p r := by
  simp only [coverage, mem_map, mem_filter, decide_eq_true_eq,
    mem_flatten_globallyAvailableIds]
  constructor
  · rintro ⟨id, ⟨⟨hvisible, _⟩, rfl⟩, rfl⟩
    exact hvisible
  · intro hvisible
    exact ⟨⟨iteration, p, cfg.sessionId⟩, ⟨⟨hvisible, rfl⟩, rfl⟩, rfl⟩

theorem covered_iff :
    cfg.covered (cfg.globallyAvailableIds dirs) iteration = true ↔
      cfg.Complete dirs iteration ∧
        ∀ p, ∀ r < cfg.worldSize, cfg.Visible dirs iteration p r → p < cfg.worldSize := by
  simp only [covered, Bool.and_eq_true, all_eq_true, decide_eq_true_eq, mem_range,
    mem_coverage, Complete]
  exact ⟨fun ⟨hworld, hall⟩ => ⟨hall, fun p r hr hvisible => hworld p ⟨r, hr, hvisible⟩⟩,
    fun ⟨hall, hworld⟩ => ⟨fun p ⟨r, hr, hvisible⟩ => hworld p r hr hvisible, hall⟩⟩

theorem mem_coveredIterations :
    iteration ∈ cfg.coveredIterations (cfg.globallyAvailableIds dirs) ↔
      cfg.covered (cfg.globallyAvailableIds dirs) iteration = true := by
  simp only [coveredIterations, mem_filter, mem_map]
  refine ⟨And.right, fun h => ⟨?_, h⟩⟩
  obtain ⟨r, hr, hvisible⟩ := ((cfg.covered_iff.mp h).1) 0 cfg.pos
  exact ⟨⟨iteration, 0, cfg.sessionId⟩,
    cfg.mem_flatten_globallyAvailableIds.mpr ⟨⟨r, hr, hvisible⟩, rfl⟩, rfl⟩

/-- In directories of this world `find_latest` compares the complete iterations. -/
theorem le_latest_iff (hworld : cfg.InWorld dirs) :
    (k : Int) ≤ cfg.latest dirs ↔ ∃ m, cfg.Complete dirs m ∧ k ≤ m := by
  rw [latest, le_maxIteration_iff]
  refine exists_congr fun m => and_congr_left fun _ => ?_
  rw [mem_coveredIterations, covered_iff]
  exact ⟨And.left, fun h => ⟨h, fun p r hr hvisible => hworld r hr _ hvisible.1⟩⟩

/-- What `find_latest` reports is complete. -/
theorem complete_of_latest_eq (h : cfg.latest dirs = k) : cfg.Complete dirs k :=
  (cfg.covered_iff.mp (cfg.mem_coveredIterations.mp (mem_of_maxIteration_eq h))).1

theorem le_latest_of_complete (hworld : cfg.InWorld dirs) (h : cfg.Complete dirs k) :
    (k : Int) ≤ cfg.latest dirs :=
  (cfg.le_latest_iff hworld).mpr ⟨k, h, le_refl k⟩

theorem latest_lt_iff (hworld : cfg.InWorld dirs) : cfg.latest dirs < k ↔ cfg.Lost dirs k := by
  rw [← Int.not_le, cfg.le_latest_iff hworld]
  exact ⟨fun h m hm hcomplete => h ⟨m, hcomplete, hm⟩,
    fun h ⟨m, hcomplete, hm⟩ => h m hm hcomplete⟩

theorem exists_newest (hworld : cfg.InWorld dirs) (h : cfg.Complete dirs k) :
    ∃ newest, cfg.Newest dirs newest ∧ k ≤ newest := by
  have hle := cfg.le_latest_of_complete hworld h
  obtain ⟨newest, hnewest⟩ := Int.eq_ofNat_of_zero_le
    (Int.le_trans (Int.natCast_nonneg k) hle)
  refine ⟨newest, ⟨cfg.complete_of_latest_eq hnewest, fun m hm => ?_⟩,
    Int.ofNat_le.mp (hnewest ▸ hle)⟩
  exact Int.ofNat_le.mp (hnewest ▸ cfg.le_latest_of_complete hworld hm)

instance (dirs : Nat → CkptDir Content) (iteration p r : Nat) :
    Decidable (cfg.Visible dirs iteration p r) :=
  inferInstanceAs (Decidable (_ ∧ (_ → _)))

instance (dirs : Nat → CkptDir Content) (iteration : Nat) :
    Decidable (cfg.Complete dirs iteration) :=
  inferInstanceAs (Decidable (∀ p < _, ∃ r < _, _))

/-- The iterations of all files. -/
def iterationsOnDisk (dirs : Nat → CkptDir Content) : List Nat :=
  (List.range cfg.worldSize).flatMap fun r => (dirs r).keys.map fun name => name.iteration

theorem mem_iterationsOnDisk (h : cfg.Complete dirs iteration) :
    iteration ∈ cfg.iterationsOnDisk dirs := by
  obtain ⟨r, hr, hmem, _⟩ := h 0 cfg.pos
  exact mem_flatMap.mpr ⟨r, mem_range.mpr hr, mem_map.mpr ⟨_, hmem, rfl⟩⟩

instance (dirs : Nat → CkptDir Content) (iteration : Nat) :
    Decidable (cfg.Lost dirs iteration) :=
  decidable_of_iff
    (∀ m ∈ cfg.iterationsOnDisk dirs, iteration ≤ m → ¬ cfg.Complete dirs m)
    ⟨fun h m hm hcomplete => h m (cfg.mem_iterationsOnDisk hcomplete) hm hcomplete,
      fun h m _ => h m⟩

end Config

/-- Ranks without replication. -/
def unreplicated (worldSize : Nat) (pos : 0 < worldSize) : Config where
  worldSize := worldSize
  pos := pos
  sessionId := []
  cliques := none

/-- Two ranks that keep each other's shards. -/
def pair : Config where
  worldSize := 2
  pos := by decide
  sessionId := []
  cliques := some ⟨fun _ => [0, 1], fun _ => by decide, by decide, by decide, fun _ _ _ _ => rfl⟩

/-- Nothing has been saved yet. -/
def noFiles : Nat → CkptDir Nat :=
  fun _ => .empty

theorem inWorld_noFiles (cfg : Config) : cfg.InWorld noFiles :=
  fun _ _ _ h => absurd h (by simp [noFiles])

end ResiliencyExt.Checkpointing.Local
