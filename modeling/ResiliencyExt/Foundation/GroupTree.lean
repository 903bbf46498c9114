import ResiliencyExt.Foundation.Dict

set_option autoImplicit false

/-!
# Foundation: trees that group elements by successive keys

A list of key functions groups elements level by level: the children of the
root are the values of the first key, in the order in which they first occur,
and so on down to the innermost groups, which list their elements.  A node is
named by its path, the list of keys on the way to it from the root.
-/

namespace ResiliencyExt.Foundation

open List

variable {κ α : Type}

/-- A tree whose leaves are grouped by the key functions, outermost first. -/
def GroupTree (κ α : Type) : List (α → κ) → Type
  | [] => List α
  | _ :: fs => Dict κ (GroupTree κ α fs)

namespace GroupTree

/-- The path of the innermost group of an element. -/
def path (fs : List (α → κ)) (a : α) : List κ :=
  fs.map fun f => f a

/-- The tree without elements. -/
def empty : (fs : List (α → κ)) → GroupTree κ α fs
  | [] => []
  | _ :: _ => Dict.empty

/-- All elements, depth first. -/
def leaves : (fs : List (α → κ)) → GroupTree κ α fs → List α
  | [], elements => elements
  | _ :: fs, children => children.entries.flatMap fun e => leaves fs e.2

/-- The paths of all nodes, children before parents. -/
def nodes : (fs : List (α → κ)) → GroupTree κ α fs → List (List κ)
  | [], _ => [[]]
  | _ :: fs, children =>
    (children.entries.flatMap fun e => (nodes fs e.2).map fun p => e.1 :: p) ++ [[]]

/-- Every group holds only elements with its key. -/
def WellGrouped : (fs : List (α → κ)) → GroupTree κ α fs → Prop
  | [], _ => True
  | f :: fs, children =>
    ∀ e ∈ children.entries, (∀ a ∈ leaves fs e.2, f a = e.1) ∧ WellGrouped fs e.2

variable [DecidableEq κ]

/-- Put an element into its groups, opening those that are new. -/
def add : (fs : List (α → κ)) → α → GroupTree κ α fs → GroupTree κ α fs
  | [], a, elements => List.concat elements a
  | f :: fs, a, children => children.alter (f a) (empty fs) (add fs a)

/-- The tree of a list of elements, put in one after another. -/
def build (fs : List (α → κ)) (elements : List α) : GroupTree κ α fs :=
  elements.foldl (fun tree a => add fs a tree) (empty fs)

/-- The elements below a node, depth first. -/
def leavesAt : (fs : List (α → κ)) → GroupTree κ α fs → List κ → List α
  | fs, tree, [] => leaves fs tree
  | [], _, _ :: _ => []
  | _ :: fs, children, k :: ks =>
    match children.get? k with
    | none => []
    | some child => leavesAt fs child ks

/-! ## Elements -/

omit [DecidableEq κ] in
@[simp] theorem leaves_empty (fs : List (α → κ)) : leaves fs (empty fs) = [] := by
  cases fs with
  | nil => rfl
  | cons f fs => rfl

theorem leaves_add_perm (fs : List (α → κ)) (a : α) (tree : GroupTree κ α fs) :
    (leaves fs (add fs a tree)).Perm (a :: leaves fs tree) := by
  induction fs with
  | nil =>
    have hconcat : ∀ elements : List α, (elements.concat a).Perm (a :: elements) := by
      intro elements
      rw [concat_eq_append]
      exact perm_append_singleton a elements
    exact hconcat tree
  | cons f fs ih => exact Dict.flatMap_alter_perm (fun child => ih child) (leaves_empty fs)

theorem leaves_foldl_add_perm (fs : List (α → κ)) (elements : List α)
    (tree : GroupTree κ α fs) :
    (leaves fs (elements.foldl (fun tree a => add fs a tree) tree)).Perm
      (elements ++ leaves fs tree) := by
  induction elements generalizing tree with
  | nil => exact List.Perm.refl _
  | cons a rest ih =>
    exact (ih (add fs a tree)).trans
      (((leaves_add_perm fs a tree).append_left rest).trans perm_middle)

/-- The tree holds exactly the elements that were put in. -/
theorem leaves_build_perm (fs : List (α → κ)) (elements : List α) :
    (leaves fs (build fs elements)).Perm elements := by
  have h := leaves_foldl_add_perm fs elements (empty fs)
  rwa [leaves_empty, append_nil] at h

/-! ## Groups -/

omit [DecidableEq κ] in
theorem wellGrouped_empty (fs : List (α → κ)) : WellGrouped fs (empty fs) := by
  cases fs with
  | nil => trivial
  | cons f fs =>
    intro e he
    exact absurd he not_mem_nil

theorem wellGrouped_add (fs : List (α → κ)) (a : α) {tree : GroupTree κ α fs}
    (h : WellGrouped fs tree) : WellGrouped fs (add fs a tree) := by
  induction fs with
  | nil => trivial
  | cons f fs ih =>
    have hchild : ∀ child : GroupTree κ α fs,
        (∀ b ∈ leaves fs child, f b = f a) → WellGrouped fs child →
        (∀ b ∈ leaves fs (add fs a child), f b = f a) ∧
          WellGrouped fs (add fs a child) := by
      intro child hkeys hgrouped
      refine ⟨fun b hb => ?_, ih hgrouped⟩
      rcases mem_cons.mp ((leaves_add_perm fs a child).mem_iff.mp hb) with rfl | hmem
      · rfl
      · exact hkeys b hmem
    intro e he
    change e ∈ (Dict.alter tree (f a) (empty fs) (add fs a)).entries at he
    by_cases hmem : f a ∈ Dict.keys tree
    · rw [Dict.entries_alter_of_mem _ _ hmem] at he
      obtain ⟨e', he', rfl⟩ := mem_map.mp he
      split
      · rename_i hkey
        exact hchild e'.2 (hkey ▸ (h e' he').1) (h e' he').2
      · exact h e' he'
    · rw [Dict.entries_alter_of_not_mem _ _ hmem] at he
      rcases mem_append.mp he with hold | hnew
      · exact h e hold
      · rw [mem_singleton.mp hnew]
        exact hchild (empty fs) (by simp) (wellGrouped_empty fs)

theorem wellGrouped_build (fs : List (α → κ)) (elements : List α) :
    WellGrouped fs (build fs elements) := by
  have hfold : ∀ tree : GroupTree κ α fs, WellGrouped fs tree →
      WellGrouped fs (elements.foldl (fun tree a => add fs a tree) tree) := by
    induction elements with
    | nil => exact fun tree h => h
    | cons a rest ih => exact fun tree h => ih (add fs a tree) (wellGrouped_add fs a h)
  exact hfold (empty fs) (wellGrouped_empty fs)

/-- The elements below a node are those whose path goes through it. -/
theorem mem_leavesAt {fs : List (α → κ)} {tree : GroupTree κ α fs}
    (h : WellGrouped fs tree) (p : List κ) (a : α) :
    a ∈ leavesAt fs tree p ↔ a ∈ leaves fs tree ∧ p <+: path fs a := by
  induction fs generalizing p with
  | nil =>
    cases p with
    | nil => simp [leavesAt]
    | cons k ks => simp [leavesAt, path]
  | cons f fs ih =>
    cases p with
    | nil => simp [leavesAt]
    | cons k ks =>
      have hpath : (k :: ks) <+: path (f :: fs) a ↔ k = f a ∧ ks <+: path fs a := by
        simp [path, cons_prefix_cons]
      rw [hpath]
      cases hget : Dict.get? tree k with
      | none =>
        have hmiss : ∀ e ∈ Dict.entries tree, e.1 ≠ k := by
          rintro e he rfl
          simp [Dict.get?_eq_some_of_mem he] at hget
        simp only [leavesAt, hget, not_mem_nil, false_iff]
        rintro ⟨hleaf, rfl, _⟩
        obtain ⟨e, he, ha⟩ := mem_flatMap.mp hleaf
        exact hmiss e he ((h e he).1 a ha).symm
      | some child =>
        have hentry : (k, child) ∈ Dict.entries tree := Dict.mem_of_get?_eq_some hget
        simp only [leavesAt, hget]
        rw [ih (h _ hentry).2]
        constructor
        · rintro ⟨hleaf, hprefix⟩
          exact ⟨mem_flatMap.mpr ⟨_, hentry, hleaf⟩,
            ((h _ hentry).1 a hleaf).symm, hprefix⟩
        · rintro ⟨hleaf, rfl, hprefix⟩
          obtain ⟨e, he, ha⟩ := mem_flatMap.mp hleaf
          have hkey : e.1 = f a := ((h e he).1 a ha).symm
          have hsame : some e.2 = some child := by
            rw [← Dict.get?_eq_some_of_mem he, hkey, hget]
          exact ⟨Option.some.inj hsame ▸ ha, hprefix⟩

/-- No element is listed twice below a node. -/
theorem leavesAt_sublist (fs : List (α → κ)) (tree : GroupTree κ α fs) (p : List κ) :
    (leavesAt fs tree p).Sublist (leaves fs tree) := by
  induction fs generalizing p with
  | nil =>
    cases p with
    | nil => exact List.Sublist.refl _
    | cons k ks => exact nil_sublist _
  | cons f fs ih =>
    cases p with
    | nil => exact List.Sublist.refl _
    | cons k ks =>
      cases hget : Dict.get? tree k with
      | none =>
        simp only [leavesAt, hget]
        exact nil_sublist _
      | some child =>
        simp only [leavesAt, hget]
        refine (ih child ks).trans ?_
        have hentry : (k, child) ∈ Dict.entries tree := Dict.mem_of_get?_eq_some hget
        obtain ⟨before, after, hsplit⟩ := append_of_mem hentry
        simp only [leaves]
        rw [hsplit, flatMap_append, flatMap_cons]
        exact (sublist_append_left _ _).trans (sublist_append_right _ _)

/-! ## Nodes -/

omit [DecidableEq κ] in
/-- No node comes before one of its descendants, or twice. -/
theorem nodes_pairwise (fs : List (α → κ)) (tree : GroupTree κ α fs) :
    (nodes fs tree).Pairwise fun p q => ¬ p <+: q := by
  induction fs with
  | nil => exact pairwise_singleton _ _
  | cons f fs ih =>
    rw [nodes, pairwise_append]
    refine ⟨pairwise_flatMap.mpr ⟨fun e _ => ?_, ?_⟩, pairwise_singleton _ _, ?_⟩
    · exact (ih e.2).map _ fun p q hnot hprefix => hnot (cons_prefix_cons.mp hprefix).2
    · refine (pairwise_map.mp (Dict.nodup_keys tree)).imp fun {e e'} hne p hp q hq => ?_
      obtain ⟨p, -, rfl⟩ := mem_map.mp hp
      obtain ⟨q, -, rfl⟩ := mem_map.mp hq
      exact fun hprefix => hne (cons_prefix_cons.mp hprefix).1
    · intro p hp q hq
      rw [mem_singleton.mp hq, prefix_nil]
      obtain ⟨e, -, hp⟩ := mem_flatMap.mp hp
      obtain ⟨p', -, rfl⟩ := mem_map.mp hp
      exact cons_ne_nil _ _

end GroupTree

end ResiliencyExt.Foundation
