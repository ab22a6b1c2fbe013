import Mathlib.Data.List.Basic
import Mathlib.Data.List.Range

/-!
# Binary trees laid out in pre-order

A binary tree with points at its leaves is laid out in an array of cells: a node is followed by its
left and then by its right subtree, and has the links to their roots; a leaf has the range of its
points in the sequence of all points.

The cells span all of their positions from the root (`spans_layout`), and the ranges of the leaves
cut the sequence of the points without gaps (`existsUnique_covers`, `filterMap_slice_layout`).
-/

namespace DashQL

open List

inductive LeafTree (α β : Type*) where
  | leaf (points : List α)
  | node (value : β) (left right : LeafTree α β)

inductive TreeCell where
  | links (left right : ℕ)
  | range (start stop : ℕ)
  deriving DecidableEq

/-- The positions that are visited in pre-order from a position. -/
inductive Spans (cells : List TreeCell) : ℕ → List ℕ → Prop where
  | leaf {position start stop : ℕ} (h : cells[position]? = some (.range start stop)) :
      Spans cells position [position]
  | node {position left right : ℕ} {lefts rights : List ℕ}
      (h : cells[position]? = some (.links left right))
      (hleft : Spans cells left lefts) (hright : Spans cells right rights) :
      Spans cells position (position :: (lefts ++ rights))

namespace LeafTree

variable {α β : Type*} {tree left right : LeafTree α β}

def size : LeafTree α β → ℕ
  | .leaf _ => 1
  | .node _ left right => 1 + left.size + right.size

def leaves : LeafTree α β → List (List α)
  | .leaf points => [points]
  | .node _ left right => left.leaves ++ right.leaves

def points (tree : LeafTree α β) : List α := tree.leaves.flatten

/-- The cells of a tree whose root is at a position and whose points begin at another. -/
def layout (position start : ℕ) : LeafTree α β → List TreeCell
  | .leaf points => [.range start (start + points.length)]
  | .node _ left right =>
    .links (position + 1) (position + 1 + left.size) ::
      (left.layout (position + 1) start ++
        right.layout (position + 1 + left.size) (start + left.points.length))

theorem points_leaf (points : List α) : (leaf points : LeafTree α β).points = points :=
  append_nil points

theorem points_node (value : β) (left right : LeafTree α β) :
    (node value left right).points = left.points ++ right.points :=
  flatten_append

theorem size_pos (tree : LeafTree α β) : 0 < tree.size := by
  cases tree with
  | leaf points => exact Nat.one_pos
  | node value left right =>
    unfold size
    omega

theorem length_layout (tree : LeafTree α β) (position start : ℕ) :
    (tree.layout position start).length = tree.size := by
  induction tree generalizing position start with
  | leaf points => rfl
  | node value left right ihleft ihright =>
    unfold layout size
    rw [length_cons, length_append, ihleft, ihright]
    omega

def Holds (cells : List TreeCell) (position : ℕ) (part : List TreeCell) : Prop :=
  ∀ k cell, part[k]? = some cell → cells[position + k]? = some cell

theorem holds_self (cells : List TreeCell) : Holds cells 0 cells := by
  intro k cell hcell
  rw [Nat.zero_add]
  exact hcell

variable {position : ℕ}

theorem Holds.append_left {cells front back : List TreeCell}
    (h : Holds cells position (front ++ back)) : Holds cells position front := by
  intro k cell hcell
  refine h k cell ?_
  rw [getElem?_append_left (List.getElem?_eq_some_iff.mp hcell).1, hcell]

theorem Holds.append_right {cells front back : List TreeCell}
    (h : Holds cells position (front ++ back)) : Holds cells (position + front.length) back := by
  intro k cell hcell
  rw [Nat.add_assoc]
  refine h (front.length + k) cell ?_
  rw [getElem?_append_right (Nat.le_add_right _ _), Nat.add_sub_cancel_left, hcell]

theorem spans_layout (tree : LeafTree α β) {cells : List TreeCell} {start : ℕ}
    (h : Holds cells position (tree.layout position start)) :
    Spans cells position (List.range' position tree.size) := by
  induction tree generalizing position start with
  | leaf points => exact .leaf (h 0 _ rfl)
  | node value left right ihleft ihright =>
    have hcons : Holds cells position ([.links (position + 1) (position + 1 + left.size)] ++
        (left.layout (position + 1) start ++
          right.layout (position + 1 + left.size) (start + left.points.length))) := h
    have hchildren := hcons.append_right
    have hright := hchildren.append_right
    rw [length_layout] at hright
    have hspans := Spans.node (h 0 _ rfl) (ihleft hchildren.append_left) (ihright hright)
    have hrange : List.range' position (node value left right).size =
        position :: (List.range' (position + 1) left.size ++
          List.range' (position + 1 + left.size) right.size) := by
      rw [range'_append_1, size, Nat.add_assoc, Nat.add_comm, range'_succ]
    rw [hrange]
    exact hspans

theorem links_within (tree : LeafTree α β) {start l r : ℕ}
    (h : TreeCell.links l r ∈ tree.layout position start) :
    position < l ∧ l < r ∧ r < position + tree.size := by
  induction tree generalizing position start with
  | leaf points => exact absurd (mem_singleton.mp h) (by simp)
  | node value left right ihleft ihright =>
    have hleft := left.size_pos
    have hright := right.size_pos
    rw [size]
    rcases mem_cons.mp h with h | h
    · obtain ⟨rfl, rfl⟩ := TreeCell.links.inj h
      omega
    · rcases mem_append.mp h with h | h
      · have := ihleft h
        omega
      · have := ihright h
        omega

/-! ## The ranges of the leaves -/

theorem range_within (tree : LeafTree α β) {start s e : ℕ}
    (h : TreeCell.range s e ∈ tree.layout position start) :
    start ≤ s ∧ s ≤ e ∧ e ≤ start + tree.points.length := by
  induction tree generalizing position start with
  | leaf points =>
    obtain ⟨rfl, rfl⟩ := TreeCell.range.inj (mem_singleton.mp h)
    rw [points_leaf]
    omega
  | node value left right ihleft ihright =>
    rw [points_node, length_append]
    rcases mem_cons.mp h with h | h
    · cases h
    · rcases mem_append.mp h with h | h
      · have := ihleft h
        omega
      · have := ihright h
        omega

/-- The ranges of a tree without empty leaves are not empty. -/
theorem range_nonempty (tree : LeafTree α β) (hleaves : ∀ leaf ∈ tree.leaves, leaf ≠ [])
    {start s e : ℕ} (h : TreeCell.range s e ∈ tree.layout position start) : s < e := by
  induction tree generalizing position start with
  | leaf points =>
    obtain ⟨rfl, rfl⟩ := TreeCell.range.inj (mem_singleton.mp h)
    have := length_pos_iff.mpr (hleaves points (mem_singleton_self points))
    omega
  | node value left right ihleft ihright =>
    rcases mem_cons.mp h with h | h
    · cases h
    · rcases mem_append.mp h with h | h
      · exact ihleft (fun leaf hleaf => hleaves leaf (mem_append_left _ hleaf)) h
      · exact ihright (fun leaf hleaf => hleaves leaf (mem_append_right _ hleaf)) h

def Covers (cells : List TreeCell) (point position : ℕ) : Prop :=
  ∃ s e, cells[position]? = some (.range s e) ∧ s ≤ point ∧ point < e

theorem covers_append_left {front back : List TreeCell} {point : ℕ} (h : position < front.length) :
    Covers (front ++ back) point position ↔ Covers front point position := by
  unfold Covers
  rw [getElem?_append_left h]

theorem covers_append_right {front back : List TreeCell} {point : ℕ} (h : front.length ≤ position) :
    Covers (front ++ back) point position ↔ Covers back point (position - front.length) := by
  unfold Covers
  rw [getElem?_append_right h]

theorem Covers.mem {cells : List TreeCell} {point : ℕ} (h : Covers cells point position) :
    position < cells.length ∧ ∃ s e, .range s e ∈ cells ∧ s ≤ point ∧ point < e := by
  obtain ⟨s, e, hcell, hpoint⟩ := h
  exact ⟨(List.getElem?_eq_some_iff.mp hcell).1, s, e, List.mem_of_getElem? hcell, hpoint⟩

theorem existsUnique_covers (tree : LeafTree α β) {start point : ℕ} (hle : start ≤ point)
    (hlt : point < start + tree.points.length) :
    ∃! k, Covers (tree.layout position start) point k := by
  induction tree generalizing position start with
  | leaf points =>
    rw [points_leaf] at hlt
    refine ⟨0, ⟨start, start + points.length, rfl, hle, hlt⟩, fun k hk => ?_⟩
    exact Nat.lt_one_iff.mp hk.mem.1
  | node value left right ihleft ihright =>
    rw [points_node, length_append] at hlt
    have hsplit : ∀ k, Covers ((node value left right).layout position start) point k ↔
        ∃ j, k = j + 1 ∧ (Covers (left.layout (position + 1) start) point j ∨
          left.size ≤ j ∧ Covers (right.layout (position + 1 + left.size)
            (start + left.points.length)) point (j - left.size)) := by
      intro k
      cases k with
      | zero =>
        refine iff_of_false ?_ (by rintro ⟨j, hj, -⟩; omega)
        rintro ⟨s, e, hcell, -⟩
        exact absurd (Option.some.inj hcell) (by simp)
      | succ j =>
        have hshift : Covers ((node value left right).layout position start) point (j + 1) ↔
            Covers (left.layout (position + 1) start ++ right.layout (position + 1 + left.size)
              (start + left.points.length)) point j := Iff.rfl
        rw [hshift]
        have hlength := length_layout left (position + 1) start
        rcases Nat.lt_or_ge j left.size with hj | hj
        · rw [covers_append_left (hlength ▸ hj)]
          constructor
          · exact fun hcovers => ⟨j, rfl, .inl hcovers⟩
          · rintro ⟨j', heq, hcovers | ⟨hle', -⟩⟩
            · obtain rfl := Nat.succ.inj heq
              exact hcovers
            · omega
        · rw [covers_append_right (hlength ▸ hj), hlength]
          constructor
          · exact fun hcovers => ⟨j, rfl, .inr ⟨hj, hcovers⟩⟩
          · rintro ⟨j', heq, hcovers | ⟨-, hcovers⟩⟩
            · obtain rfl := Nat.succ.inj heq
              have := hlength ▸ hcovers.mem.1
              omega
            · obtain rfl := Nat.succ.inj heq
              exact hcovers
    simp only [hsplit]
    rcases Nat.lt_or_ge point (start + left.points.length) with hpoint | hpoint
    · obtain ⟨k, hk, hunique⟩ := @ihleft (position + 1) start hle hpoint
      refine ⟨k + 1, ⟨k, rfl, .inl hk⟩, ?_⟩
      rintro k' ⟨j, rfl, hj | ⟨-, hj⟩⟩
      · rw [hunique j hj]
      · obtain ⟨-, s, e, hmem, hs, -⟩ := hj.mem
        have := (range_within right hmem).1
        omega
    · obtain ⟨k, hk, hunique⟩ := @ihright (position + 1 + left.size)
        (start + left.points.length) hpoint (by omega)
      refine ⟨k + left.size + 1, ⟨k + left.size, rfl, .inr ⟨Nat.le_add_left _ _, ?_⟩⟩, ?_⟩
      · rw [Nat.add_sub_cancel]
        exact hk
      · rintro k' ⟨j, rfl, hj | ⟨hle', hj⟩⟩
        · obtain ⟨-, s, e, hmem, -, he⟩ := hj.mem
          have := (range_within left hmem).2.2
          omega
        · have := hunique _ hj
          omega

/-! ## The points of the leaves -/

def slice (points : List α) : TreeCell → Option (List α)
  | .links _ _ => none
  | .range start stop => some ((points.drop start).take (stop - start))

/-- The slices of the points at the ranges are the leaves, in order. -/
theorem filterMap_slice_layout (tree : LeafTree α β) {points front back : List α}
    (h : points = front ++ tree.points ++ back) :
    (tree.layout position front.length).filterMap (slice points) = tree.leaves := by
  induction tree generalizing position front back with
  | leaf leaf =>
    rw [points_leaf, append_assoc] at h
    unfold layout leaves
    rw [filterMap_cons_some, filterMap_nil]
    change some ((points.drop front.length).take (front.length + leaf.length - front.length)) = _
    rw [Nat.add_sub_cancel_left, h, drop_left, take_left]
  | node value left right ihleft ihright =>
    rw [points_node] at h
    unfold layout leaves
    rw [filterMap_cons_none rfl, filterMap_append]
    have hleft : points = front ++ left.points ++ (right.points ++ back) := by
      rw [h]
      simp only [append_assoc]
    have hright : points = (front ++ left.points) ++ right.points ++ back := by
      rw [h]
      simp only [append_assoc]
    have hlength : front.length + left.points.length = (front ++ left.points).length :=
      length_append.symm
    rw [ihleft hleft, hlength, ihright hright]

end LeafTree

end DashQL
