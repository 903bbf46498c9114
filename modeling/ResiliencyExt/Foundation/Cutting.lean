import Mathlib.Algebra.GroupWithZero.Nat
import Mathlib.Data.List.Basic

set_option autoImplicit false

/-!
# Foundation: cutting a list that comes in parts

A list is cut at every delimiter; what follows the last delimiter stays open.  Cutting one
part after another, with the open end of one part in front of the next, cuts the whole
(`cut_append`), so it makes no difference where the parts end.
-/

namespace ResiliencyExt.Foundation.Cutting

open List

variable {α : Type}

/-! ## Pieces and an open end -/

/-- An open end is a block of its own, unless nothing is in it. -/
def openBlock : List α → List (List α)
  | [] => []
  | piece => [piece]

/-- Pieces with their delimiters, and the open end after them. -/
def assemble (delim : α) (pieces : List (List α)) (rest : List α) : List (List α) :=
  pieces.map (· ++ [delim]) ++ openBlock rest

/-- No piece, and not the open end, has a delimiter. -/
structure Clean (delim : α) (pieces : List (List α)) (rest : List α) : Prop where
  pieces : ∀ piece ∈ pieces, delim ∉ piece
  rest : delim ∉ rest

theorem flatten_openBlock : ∀ rest : List α, (openBlock rest).flatten = rest
  | [] => rfl
  | a :: rest => append_nil (a :: rest)

theorem flatten_assemble (delim : α) (pieces : List (List α)) (rest : List α) :
    (assemble delim pieces rest).flatten = (pieces.map (· ++ [delim])).flatten ++ rest := by
  rw [assemble, flatten_append, flatten_openBlock]

variable {delim : α}

variable {pieces : List (List α)} {rest : List α}

/-- No block is empty. -/
theorem ne_nil_of_mem_assemble {block : List α} (h : block ∈ assemble delim pieces rest) :
    block ≠ [] := by
  rcases mem_append.mp h with hpiece | hopen
  · obtain ⟨piece, -, rfl⟩ := mem_map.mp hpiece
    exact append_ne_nil_of_right_ne_nil piece (cons_ne_nil delim [])
  · cases rest with
    | nil => cases hopen
    | cons a rest =>
      rw [mem_singleton.mp hopen]
      exact cons_ne_nil a rest

theorem length_openBlock_le (rest : List α) : (openBlock rest).length ≤ 1 := by
  cases rest with
  | nil => exact Nat.zero_le 1
  | cons a rest => exact Nat.le_refl 1

/-- The blocks from some place on are the blocks of what they make together. -/
theorem exists_drop (h : Clean delim pieces rest) (n : Nat) :
    ∃ pieces' rest', Clean delim pieces' rest' ∧
      (assemble delim pieces rest).drop n = assemble delim pieces' rest' := by
  rcases Nat.lt_or_ge pieces.length n with hlt | hle
  · refine ⟨[], [], ⟨nofun, not_mem_nil⟩, drop_of_length_le ?_⟩
    have hone := length_openBlock_le rest
    rw [assemble, length_append, length_map]
    omega
  · refine ⟨pieces.drop n, rest,
      ⟨fun piece hmem => h.pieces piece (mem_of_mem_drop hmem), h.rest⟩, ?_⟩
    rw [assemble, assemble, drop_append_of_le_length (by rwa [length_map]),
      map_drop]

/-- Likewise the blocks up to some place. -/
theorem exists_take (h : Clean delim pieces rest) (n : Nat) :
    ∃ pieces' rest', Clean delim pieces' rest' ∧
      (assemble delim pieces rest).take n = assemble delim pieces' rest' := by
  rcases Nat.lt_or_ge pieces.length n with hlt | hle
  · refine ⟨pieces, rest, h, take_of_length_le ?_⟩
    have hone := length_openBlock_le rest
    rw [assemble, length_append, length_map]
    omega
  · refine ⟨pieces.take n, [],
      ⟨fun piece hmem => h.pieces piece (mem_of_mem_take hmem), not_mem_nil⟩, ?_⟩
    rw [assemble, assemble, take_append_of_le_length (by rwa [length_map]),
      map_take, openBlock, append_nil]

/-- The blocks between two places stand between their offsets. -/
theorem flatten_range (L : List (List α)) {first last : Nat} (h : first ≤ last) :
    (L.flatten.drop (L.take first).flatten.length).take
        ((L.take last).flatten.length - (L.take first).flatten.length) =
      ((L.take last).drop first).flatten := by
  have htake : (L.take last).take first = L.take first := by
    rw [take_take, Nat.min_eq_left h]
  have hlast : (L.take last).flatten =
      (L.take first).flatten ++ ((L.take last).drop first).flatten := by
    rw [← flatten_append, ← htake, take_append_drop]
  have hall : L.flatten =
      (L.take first).flatten ++ (((L.take last).drop first).flatten ++ (L.drop last).flatten) := by
    rw [← append_assoc, ← hlast, ← flatten_append, take_append_drop]
  rw [hall, drop_left, hlast, length_append, Nat.add_sub_cancel_left]
  exact take_left

/-! ## Cutting -/

variable [DecidableEq α]

/-- The pieces that a delimiter ends, without it, and the open end; the first piece goes on
from `piece`. -/
def cut (delim : α) (piece : List α) : List α → List (List α) × List α
  | [] => ([], piece)
  | a :: rest =>
    if a = delim then (piece :: (cut delim [] rest).1, (cut delim [] rest).2)
    else cut delim (piece ++ [a]) rest

theorem cut_append (a b : List α) : ∀ piece,
    cut delim piece (a ++ b) =
      ((cut delim piece a).1 ++ (cut delim (cut delim piece a).2 b).1,
        (cut delim (cut delim piece a).2 b).2) := by
  induction a with
  | nil => exact fun _ => rfl
  | cons x rest ih =>
    intro piece
    rw [cons_append, cut, cut]
    split
    · rw [ih []]
      rfl
    · exact ih _

theorem cut_of_not_mem {a : List α} (h : delim ∉ a) : ∀ piece,
    cut delim piece a = ([], piece ++ a) := by
  induction a with
  | nil => exact fun piece => by rw [append_nil]; rfl
  | cons x rest ih =>
    intro piece
    obtain ⟨hx, hrest⟩ := not_or.mp (mem_cons.not.mp h)
    rw [cut, if_neg (Ne.symm hx), ih hrest, append_assoc]
    rfl

/-- Neither the pieces that are cut nor the open end have a delimiter. -/
theorem clean_cut (a : List α) : ∀ {piece}, delim ∉ piece →
    Clean delim (cut delim piece a).1 (cut delim piece a).2 := by
  induction a with
  | nil => exact fun h => ⟨fun _ hmem => absurd hmem not_mem_nil, h⟩
  | cons x rest ih =>
    intro piece h
    rw [cut]
    split
    · have hrest := ih not_mem_nil
      refine ⟨fun other hmem => ?_, hrest.rest⟩
      rcases mem_cons.mp hmem with rfl | hmem
      · exact h
      · exact hrest.pieces other hmem
    · next hx =>
      refine ih fun hmem => ?_
      rcases mem_append.mp hmem with hold | hnew
      · exact h hold
      · exact hx (mem_singleton.mp hnew).symm

/-- An open end put in front of the next part is as good as going on from it. -/
theorem cut_nil_append {piece : List α} (h : delim ∉ piece) (a : List α) :
    cut delim [] (piece ++ a) = cut delim piece a := by
  rw [cut_append, cut_of_not_mem h]
  rfl

/-- Nothing is lost: the pieces with their delimiters and the open end are the list. -/
theorem flatten_cut (a : List α) : ∀ piece,
    ((cut delim piece a).1.map (· ++ [delim])).flatten ++ (cut delim piece a).2 = piece ++ a := by
  induction a with
  | nil => exact fun piece => by rw [append_nil]; rfl
  | cons x rest ih =>
    intro piece
    rw [cut]
    split
    · next hx =>
      rw [map_cons, flatten_cons, append_assoc, ih [], hx,
        append_assoc]
      rfl
    · rw [ih, append_assoc]
      rfl

/-- How long the list is that the pieces were cut from. -/
theorem length_cut (a : List α) :
    ((cut delim [] a).1.map (fun piece => piece.length + 1)).sum + (cut delim [] a).2.length =
      a.length := by
  have h := congrArg List.length (@flatten_cut _ delim _ a [])
  rw [length_append, length_flatten, map_map] at h
  simpa [Function.comp_def] using h

/-! ## Blocks -/

/-- A list cut after every delimiter. -/
def blocks (delim : α) (items : List α) : List (List α) :=
  assemble delim (cut delim [] items).1 (cut delim [] items).2

theorem flatten_blocks (delim : α) (items : List α) : (blocks delim items).flatten = items := by
  rw [blocks, flatten_assemble]
  exact flatten_cut items []

/-- Clean pieces are cut as they were assembled. -/
theorem cut_flatten {rest : List α} : ∀ {pieces : List (List α)}, Clean delim pieces rest →
    cut delim [] ((pieces.map (· ++ [delim])).flatten ++ rest) = (pieces, rest)
  | [], h => by rw [map_nil, flatten_nil, nil_append, cut_of_not_mem h.rest]; rfl
  | piece :: pieces, h => by
    have hrest : Clean delim pieces rest :=
      ⟨fun other hmem => h.pieces other (mem_cons_of_mem _ hmem), h.rest⟩
    have hone : cut delim [] (piece ++ [delim]) = ([piece], []) := by
      rw [cut_append, cut_of_not_mem (h.pieces piece mem_cons_self), nil_append, cut,
        if_pos rfl]
      rfl
    rw [map_cons, flatten_cons, append_assoc, cut_append, hone,
      cut_flatten hrest]
    rfl

theorem blocks_flatten {pieces : List (List α)} {rest : List α}
    (h : Clean delim pieces rest) :
    blocks delim (assemble delim pieces rest).flatten = assemble delim pieces rest := by
  rw [flatten_assemble, blocks, cut_flatten h]

/-- Blocks next to each other are the blocks of what they make together. -/
theorem blocks_range (delim : α) (items : List α) (first last : Nat) :
    blocks delim (((blocks delim items).take last).drop first).flatten =
      ((blocks delim items).take last).drop first := by
  obtain ⟨pieces, rest, hclean, htake⟩ :=
    exists_take (@clean_cut _ delim _ items [] not_mem_nil) last
  obtain ⟨pieces', rest', hclean', hdrop⟩ := exists_drop hclean first
  have hrange : ((blocks delim items).take last).drop first = assemble delim pieces' rest' := by
    rw [blocks, htake, hdrop]
  rw [hrange]
  exact blocks_flatten hclean'

end ResiliencyExt.Foundation.Cutting
