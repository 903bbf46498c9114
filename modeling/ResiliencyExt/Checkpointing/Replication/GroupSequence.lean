import Mathlib.Order.Lattice.Nat

set_option autoImplicit false

/-!
# Replication: the groups of ranks

`parse_group_sequence` takes every `J`-th rank, for each rank below `J` to begin with, and
cuts the ranks taken into batches of `F`.  The batches are sorted; they are the
replication groups.
-/

namespace ResiliencyExt.Checkpointing.Replication

open List

/-- The loop of `batched`. -/
def batches {α : Type} (n : Nat) (items : List α) : List (List α) :=
  if _h : n = 0 ∨ items = [] then [] else items.take n :: batches n (items.drop n)
termination_by items.length
decreasing_by
  obtain ⟨hn, hitems⟩ := not_or.mp _h
  rw [length_drop]
  exact Nat.sub_lt (length_pos_of_ne_nil hitems) (Nat.pos_of_ne_zero hn)

/-- `batched` -/
def batched {α : Type} (items : List α) (n : Nat) : Except String (List (List α)) :=
  if n < 1 then .error "n must be at least one" else .ok (batches n items)

/-- `range(start, stop, step)` with a positive step. -/
def rangeStep (start stop step : Nat) : List Nat :=
  range' start ((stop - start + step - 1) / step) step

/-- The message of the assertion that the ranks can be split. -/
def cannotSplit (replicationJump replicationFactor worldSize : Nat) : String :=
  let first := replicationJump - 1
  let second := 2 * replicationJump - 1
  let contained := worldSize / replicationJump
  s!"Cannot split {worldSize} ranks into replication groups! Ranks {first}, {second}, ... " ++
    s!"contains {contained} ranks, but this cannot be split into groups of size " ++
    s!"{replicationFactor}."

/-- The groups that begin at one rank below the jump. -/
def extendGroups (replicationJump replicationFactor worldSize : Nat)
    (result : List (List Nat)) (modulus : Nat) : Except String (List (List Nat)) := do
  let groups ← batched (rangeStep modulus worldSize replicationJump) replicationFactor
  return result ++ groups

/-- `parse_group_sequence`, with the messages of its assertions. -/
def parseGroupSequence (replicationJump replicationFactor worldSize : Nat) :
    Except String (List (List Nat)) := do
  if replicationJump = 0 then throw "Rank cannot store a replica of itself!"
  if replicationFactor = 0 then throw "Tried to create empty replication groups!"
  if worldSize % (replicationJump * replicationFactor) ≠ 0 then
    throw (cannotSplit replicationJump replicationFactor worldSize)
  let result ← (List.range replicationJump).foldlM
    (extendGroups replicationJump replicationFactor worldSize) []
  return result.insertionSort (· ≤ ·)

/-! ## Batches of strided ranges -/

@[simp] theorem batches_nil {α : Type} (n : Nat) : batches n ([] : List α) = [] := by
  rw [batches, dif_pos (.inr rfl)]

theorem batches_append {α : Type} {n : Nat} (hn : 0 < n) {first : List α}
    (hfirst : first.length = n) (rest : List α) :
    batches n (first ++ rest) = first :: batches n rest := by
  have hne : ¬ (n = 0 ∨ first ++ rest = []) := by
    rintro (rfl | hnil)
    · exact Nat.lt_irrefl 0 hn
    · rw [(append_eq_nil_iff.mp hnil).1, length_nil] at hfirst
      exact hn.ne hfirst
  rw [batches, dif_neg hne, take_left' hfirst, drop_left' hfirst]

/-- The batches keep all items in order. -/
theorem flatten_batches {α : Type} {n : Nat} (hn : 0 < n) (items : List α) :
    (batches n items).flatten = items := by
  induction items using batches.induct n with
  | case1 items h =>
    rw [batches, dif_pos h, flatten_nil]
    exact (h.resolve_left hn.ne').symm
  | case2 items h ih =>
    rw [batches, dif_neg h, flatten_cons, ih, take_append_drop]

theorem batches_range' {n : Nat} (hn : 0 < n) (step count : Nat) :
    ∀ start, batches n (range' start (count * n) step) =
      (List.range count).map fun a => range' (start + a * (n * step)) n step := by
  induction count with
  | zero =>
    intro start
    rw [Nat.zero_mul]
    exact batches_nil n
  | succ count ih =>
    intro start
    have hsplit : range' start ((count + 1) * n) step =
        range' start n step ++ range' (start + step * n) (count * n) step := by
      rw [range'_append, Nat.succ_mul, Nat.add_comm n]
    rw [hsplit, batches_append hn length_range', ih, range_succ_eq_map, map_cons,
      map_map, Nat.zero_mul, Nat.add_zero]
    refine congrArg _ (map_congr_left fun a _ => ?_)
    rw [Function.comp_apply, Nat.succ_mul, Nat.mul_comm step n, Nat.add_assoc,
      Nat.add_comm (n * step)]

/-! ## The groups -/

/-- The ranks `n`, `n + J`, ..., `n + (F - 1) J`. -/
def replicationGroup (replicationJump replicationFactor n : Nat) : List Nat :=
  (List.range replicationFactor).map fun i => n + i * replicationJump

variable {J F : Nat}

theorem replicationGroup_eq_range' (J F n : Nat) : replicationGroup J F n = range' n F J := by
  refine ext_getElem (by simp [replicationGroup]) fun i h h' => ?_
  simp [replicationGroup, Nat.mul_comm]

/-- A range of every `J`-th rank of a world that `J` divides. -/
theorem rangeStep_eq (hJ : 0 < J) {b : Nat} (hb : b < J) (count : Nat) :
    rangeStep b (J * count) J = range' b count J := by
  rw [rangeStep]
  congr 1
  cases count with
  | zero =>
    rw [Nat.mul_zero, Nat.zero_sub, Nat.zero_add]
    exact Nat.div_eq_of_lt (Nat.sub_lt hJ Nat.one_pos)
  | succ count =>
    have hle : J ≤ J * (count + 1) := Nat.le_mul_of_pos_right J count.succ_pos
    have hsum : J * (count + 1) - b + J - 1 = (J - 1 - b) + J * (count + 1) := by omega
    rw [hsum, Nat.add_mul_div_left _ _ hJ, Nat.div_eq_of_lt (by omega), Nat.zero_add]

/-- The groups that begin at one rank below the jump. -/
def groupsAt (J F A b : Nat) : List (List Nat) :=
  (List.range A).map fun a => replicationGroup J F (a * J * F + b)

theorem extendGroups_eq (hJ : 0 < J) (hF : 0 < F) (A : Nat) {b : Nat} (hb : b < J)
    (result : List (List Nat)) :
    extendGroups J F (J * (A * F)) result b = .ok (result ++ groupsAt J F A b) := by
  have hbatches : batches F (rangeStep b (J * (A * F)) J) = groupsAt J F A b := by
    rw [rangeStep_eq hJ hb, batches_range' hF, groupsAt]
    refine map_congr_left fun a _ => ?_
    rw [replicationGroup_eq_range', Nat.add_comm, Nat.mul_comm F J, Nat.mul_assoc]
  rw [extendGroups, batched, if_neg (Nat.not_lt.mpr hF), hbatches]
  rfl

theorem foldlM_extendGroups (hJ : 0 < J) (hF : 0 < F) (A : Nat) {moduli : List Nat} :
    (∀ b ∈ moduli, b < J) → ∀ result,
      moduli.foldlM (extendGroups J F (J * (A * F))) result =
        .ok (result ++ moduli.flatMap (groupsAt J F A)) := by
  induction moduli with
  | nil => exact fun _ result => congrArg Except.ok (append_nil result).symm
  | cons b moduli ih =>
    intro hmoduli result
    have hrest := ih fun c hc => hmoduli c (mem_cons_of_mem b hc)
    rw [foldlM_cons, extendGroups_eq hJ hF A (hmoduli b mem_cons_self),
      flatMap_cons, ← append_assoc]
    exact hrest _

/-- All groups, by their first ranks. -/
def sortedGroups (J F A : Nat) : List (List Nat) :=
  (List.range A).flatMap fun a => (List.range J).map fun b => replicationGroup J F (a * J * F + b)

theorem flatMap_map_perm {α β γ : Type} (f : α → β → γ) (as : List α) (bs : List β) :
    (as.flatMap fun a => bs.map (f a)).Perm (bs.flatMap fun b => as.map fun a => f a b) := by
  induction as with
  | nil => simp
  | cons a as ih =>
    refine .trans (List.Perm.append_left _ ih) ?_
    exact map_append_flatMap_perm bs (f a) fun b => as.map fun a => f a b

theorem sortedGroups_perm (J F A : Nat) :
    (sortedGroups J F A).Perm ((List.range J).flatMap (groupsAt J F A)) :=
  flatMap_map_perm (fun a b => replicationGroup J F (a * J * F + b)) _ _

theorem replicationGroup_lt (hF : 0 < F) {n n' : Nat} (h : n < n') :
    replicationGroup J F n < replicationGroup J F n' := by
  obtain ⟨k, rfl⟩ := Nat.exists_eq_succ_of_ne_zero hF.ne'
  rw [replicationGroup_eq_range', replicationGroup_eq_range', range'_succ, range'_succ]
  exact List.Lex.rel h

theorem sortedGroups_pairwise (hF : 0 < F) (A : Nat) :
    (sortedGroups J F A).Pairwise (· < ·) := by
  rw [sortedGroups, pairwise_flatMap]
  constructor
  · intro a _
    rw [pairwise_map]
    exact pairwise_lt_range.imp fun hlt => replicationGroup_lt hF (by omega)
  · refine pairwise_lt_range.imp fun {a a'} hlt x hx y hy => ?_
    obtain ⟨b, hb, rfl⟩ := mem_map.mp hx
    obtain ⟨b', -, rfl⟩ := mem_map.mp hy
    refine replicationGroup_lt hF ?_
    have hstep : (a + 1) * (J * F) ≤ a' * (J * F) := Nat.mul_le_mul_right _ hlt
    have hJF : J ≤ J * F := Nat.le_mul_of_pos_right J hF
    rw [Nat.succ_mul, ← Nat.mul_assoc, ← Nat.mul_assoc] at hstep
    have hb' := mem_range.mp hb
    omega

/-- `list.sort` finds the order of the first ranks. -/
theorem insertionSort_eq_sortedGroups (hF : 0 < F) (A : Nat) :
    ((List.range J).flatMap (groupsAt J F A)).insertionSort (· ≤ ·) = sortedGroups J F A := by
  refine List.Perm.eq_of_pairwise' (pairwise_insertionSort (· ≤ ·) _)
    ((sortedGroups_pairwise hF A).imp le_of_lt) ?_
  exact (perm_insertionSort _ _).trans (sortedGroups_perm J F A).symm

theorem parseGroupSequence_eq (hJ : 0 < J) (hF : 0 < F) (A : Nat) :
    parseGroupSequence J F (J * F * A) = .ok (sortedGroups J F A) := by
  have hmod : J * F * A % (J * F) = 0 := Nat.mul_mod_right _ _
  have hworld : J * F * A = J * (A * F) := by rw [Nat.mul_assoc, Nat.mul_comm F]
  have hloop := foldlM_extendGroups hJ hF A (fun b hb => (mem_range (m := b)).mp hb) []
  rw [nil_append, ← hworld] at hloop
  rw [parseGroupSequence, if_neg hJ.ne', if_neg hF.ne', if_neg (not_not.mpr hmod), hloop,
    ← insertionSort_eq_sortedGroups hF]
  rfl

theorem flatten_groupsAt (hF : 0 < F) (J A b : Nat) :
    (groupsAt J F A b).flatten = range' b (A * F) J := by
  have hbatches := batches_range' hF J A b
  rw [← flatten_batches hF (range' b (A * F) J), hbatches, groupsAt]
  refine congrArg _ (map_congr_left fun a _ => ?_)
  rw [replicationGroup_eq_range', Nat.add_comm, Nat.mul_comm F J, Nat.mul_assoc]

/-- The ranges of every `J`-th rank cover the world. -/
theorem flatMap_range'_perm (hJ : 0 < J) (count : Nat) :
    ((List.range J).flatMap fun b => range' b count J).Perm (List.range (J * count)) := by
  refine (perm_ext_iff_of_nodup ?_ nodup_range).mpr fun rank => ?_
  · refine nodup_flatMap.mpr ⟨fun b _ => nodup_range' J hJ, ?_⟩
    refine nodup_range.imp_of_mem fun {b b'} hb hb' hne rank hrank hrank' => hne ?_
    obtain ⟨i, -, rfl⟩ := mem_range'.mp hrank
    obtain ⟨i', -, heq⟩ := mem_range'.mp hrank'
    have hmod := congrArg (· % J) heq
    simp only [Nat.add_mul_mod_self_left] at hmod
    rwa [Nat.mod_eq_of_lt (mem_range.mp hb), Nat.mod_eq_of_lt (mem_range.mp hb')] at hmod
  · simp only [mem_flatMap, mem_range, mem_range']
    constructor
    · rintro ⟨b, hb, i, hi, rfl⟩
      have hle : J * (i + 1) ≤ J * count := Nat.mul_le_mul_left J hi
      rw [Nat.mul_succ] at hle
      omega
    · intro hrank
      exact ⟨rank % J, Nat.mod_lt _ hJ, rank / J, Nat.div_lt_of_lt_mul hrank,
        (Nat.mod_add_div rank J).symm⟩

/-- The groups partition the world. -/
theorem flatten_sortedGroups_perm (hJ : 0 < J) (hF : 0 < F) (A : Nat) :
    (sortedGroups J F A).flatten.Perm (List.range (J * F * A)) := by
  have hflat : ((List.range J).flatMap (groupsAt J F A)).flatten =
      (List.range J).flatMap fun b => range' b (A * F) J := by
    rw [flatten_eq_flatMap, flatMap_assoc]
    refine congrArg (List.range J).flatMap (funext fun b => ?_)
    rw [flatMap_id, flatten_groupsAt hF]
  have hworld : J * F * A = J * (A * F) := by rw [Nat.mul_assoc, Nat.mul_comm F]
  rw [hworld]
  exact ((sortedGroups_perm J F A).flatten.trans (hflat ▸ List.Perm.refl _)).trans
    (flatMap_range'_perm hJ (A * F))

/-- The groups of `parse_group_sequence` partition the world into cliques of `F` ranks that lie
in different blocks of `J` consecutive ranks. -/
theorem parseGroupSequence_partition {J F W : Nat} (hJ : 0 < J) (hF : 0 < F) (h : J * F ∣ W) :
    ∃ groups, parseGroupSequence J F W = .ok groups ∧
      groups = ((List.range (W / (J * F))).flatMap fun a =>
        (List.range J).map fun b => replicationGroup J F (a * J * F + b)) ∧
      groups.length = W / F ∧ (∀ group ∈ groups, group.length = F) ∧
      groups.flatten.Perm (List.range W) ∧ groups.Pairwise (· < ·) ∧
      ∀ group ∈ groups, ∀ r ∈ group, ∀ s ∈ group, r / J = s / J → r = s := by
  obtain ⟨A, rfl⟩ := h
  have hA : J * F * A / (J * F) = A := Nat.mul_div_cancel_left A (Nat.mul_pos hJ hF)
  have hmem : ∀ group ∈ sortedGroups J F A, ∃ n, group = replicationGroup J F n := by
    intro group hgroup
    obtain ⟨a, -, hgroup⟩ := mem_flatMap.mp hgroup
    obtain ⟨b, -, rfl⟩ := mem_map.mp hgroup
    exact ⟨_, rfl⟩
  refine ⟨sortedGroups J F A, parseGroupSequence_eq hJ hF A, by rw [hA, sortedGroups], ?_, ?_,
    flatten_sortedGroups_perm hJ hF A, sortedGroups_pairwise hF A, ?_⟩
  · have hworld : J * F * A = A * J * F := by
      rw [Nat.mul_comm, ← Nat.mul_assoc]
    rw [hworld, Nat.mul_div_cancel _ hF, sortedGroups]
    simp [length_flatMap]
  · intro group hgroup
    obtain ⟨n, rfl⟩ := hmem group hgroup
    rw [replicationGroup, length_map, length_range]
  · intro group hgroup r hr s hs hblock
    obtain ⟨n, rfl⟩ := hmem group hgroup
    obtain ⟨i, -, rfl⟩ := mem_map.mp hr
    obtain ⟨i', -, rfl⟩ := mem_map.mp hs
    rw [Nat.add_mul_div_right _ _ hJ, Nat.add_mul_div_right _ _ hJ] at hblock
    rw [Nat.add_left_cancel hblock]

theorem parseGroupSequence_partition_32 :
    ∃ groups, parseGroupSequence 8 2 32 = .ok groups ∧
      groups = ((List.range (32 / (8 * 2))).flatMap fun a =>
        (List.range 8).map fun b => replicationGroup 8 2 (a * 8 * 2 + b)) ∧
      groups.length = 32 / 2 ∧ (∀ group ∈ groups, group.length = 2) ∧
      groups.flatten.Perm (List.range 32) ∧ groups.Pairwise (· < ·) ∧
      ∀ group ∈ groups, ∀ r ∈ group, ∀ s ∈ group, r / 8 = s / 8 → r = s :=
  parseGroupSequence_partition (by decide) (by decide) (by decide)

end ResiliencyExt.Checkpointing.Replication
