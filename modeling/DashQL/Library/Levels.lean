import Mathlib

/-!
# Forests by levels

A forest can be laid out level by level: a level lists the children of the nodes
above, one node after the other, and the children of a node are a range of it.
`childLevel` is the level below a list of nodes, with the position of the parent of
each child, and `getElem?_childLevel_iff` says which child stands where.

The rows of a level are often written into an array of the final size, front to back
and not level after level.  `fill` is such an array after some writes.
-/

namespace DashQL.Levels

open List

variable {α β : Type*} (children : α → List β)

/-- The number of children that some nodes have together. -/
def childCount (nodes : List α) : ℕ := (nodes.map fun node => (children node).length).sum

/-- The children of some nodes, in the order of the nodes, with the positions of the parents. -/
def childLevel (nodes : List α) : List (ℕ × β) :=
  nodes.zipIdx.flatMap fun entry => (children entry.1).map fun child => (entry.2, child)

@[simp] theorem childLevel_nil : childLevel children [] = [] := rfl

theorem childLevel_concat (nodes : List α) (node : α) :
    childLevel children (nodes ++ [node]) =
      childLevel children nodes ++ (children node).map fun child => (nodes.length, child) := by
  simp [childLevel, zipIdx_append]

theorem map_snd_childLevel (nodes : List α) :
    (childLevel children nodes).map Prod.snd = nodes.flatMap children := by
  induction nodes using List.reverseRecOn with
  | nil => rfl
  | append_singleton nodes node ih => simp [childLevel_concat, ih, Function.comp_def]

theorem length_childLevel (nodes : List α) :
    (childLevel children nodes).length = childCount children nodes := by
  have hlength := congrArg List.length (map_snd_childLevel children nodes)
  rw [length_map, length_flatMap] at hlength
  exact hlength

variable {children}

theorem getElem?_childLevel_iff {nodes : List α} {position parent : ℕ} {child : β} :
    (childLevel children nodes)[position]? = some (parent, child) ↔
      ∃ node k, nodes[parent]? = some node ∧ (children node)[k]? = some child ∧
        position = childCount children (nodes.take parent) + k := by
  induction nodes using List.reverseRecOn with
  | nil => simp
  | append_singleton nodes node ih =>
    rw [childLevel_concat, getElem?_append, length_childLevel]
    split_ifs with hfront
    · -- a child of one of the nodes in front
      rw [ih]
      constructor
      · rintro ⟨found, k, hfound, hchild, hposition⟩
        have hlt := (List.getElem?_eq_some_iff.mp hfound).1
        refine ⟨found, k, by rw [getElem?_append_left hlt, hfound], hchild, ?_⟩
        rw [take_append_of_le_length hlt.le]
        exact hposition
      · rintro ⟨found, k, hfound, hchild, hposition⟩
        by_cases hlt : parent < nodes.length
        · rw [getElem?_append_left hlt] at hfound
          rw [take_append_of_le_length hlt.le] at hposition
          exact ⟨found, k, hfound, hchild, hposition⟩
        · have hlast : parent = nodes.length := by
            have := (List.getElem?_eq_some_iff.mp hfound).1
            rw [length_append, length_singleton] at this
            omega
          subst hlast
          rw [take_left' rfl] at hposition
          omega
    · rw [getElem?_map, Option.map_eq_some_iff]
      constructor
      · rintro ⟨child', hchild, heq⟩
        obtain ⟨rfl, rfl⟩ := Prod.mk.inj heq
        refine ⟨node, position - childCount children nodes, by simp, hchild, ?_⟩
        rw [take_left' rfl]
        omega
      · rintro ⟨found, k, hfound, hchild, hposition⟩
        by_cases hlt : parent < nodes.length
        · -- the children of a node in front end in front
          exfalso
          rw [take_append_of_le_length hlt.le] at hposition
          rw [getElem?_append_left hlt] at hfound
          have hk := (List.getElem?_eq_some_iff.mp hchild).1
          have hsplit : nodes = nodes.take parent ++ found :: nodes.drop (parent + 1) := by
            rw [← (List.getElem?_eq_some_iff.mp hfound).2, cons_getElem_drop_succ, take_append_drop]
          have hcount : childCount children nodes = childCount children (nodes.take parent) +
              ((children found).length + childCount children (nodes.drop (parent + 1))) := by
            conv_lhs => rw [hsplit]
            simp only [childCount, map_append, map_cons, sum_append, sum_cons]
          omega
        · have hlast : parent = nodes.length := by
            have := (List.getElem?_eq_some_iff.mp hfound).1
            rw [length_append, length_singleton] at this
            omega
          subst hlast
          rw [getElem?_concat_length] at hfound
          obtain rfl := Option.some.inj hfound
          rw [take_left' rfl] at hposition
          refine ⟨child, ?_, rfl⟩
          rw [hposition, Nat.add_sub_cancel_left]
          exact hchild

theorem take_drop_flatMap {nodes : List α} {position : ℕ} {node : α}
    (h : nodes[position]? = some node) :
    ((nodes.flatMap children).drop (childCount children (nodes.take position))).take
      (children node).length = children node := by
  have hsplit : nodes = nodes.take position ++ node :: nodes.drop (position + 1) := by
    rw [← (List.getElem?_eq_some_iff.mp h).2, cons_getElem_drop_succ, take_append_drop]
  have hlength : childCount children (nodes.take position) =
      ((nodes.take position).flatMap children).length := by
    rw [length_flatMap]
    rfl
  have hflat : nodes.flatMap children = (nodes.take position).flatMap children ++
      (children node ++ (nodes.drop (position + 1)).flatMap children) := by
    conv_lhs => rw [hsplit, flatMap_append, flatMap_cons]
  rw [hlength, hflat, drop_left' rfl, take_left' rfl]

/-! ## Arrays that are filled from the front -/

/-- An array of some size after rows have been written to its front. -/
def fill (zero : α) (size : ℕ) (rows : List α) : List α :=
  (rows ++ List.replicate size zero).take size

theorem fill_nil (zero : α) (size : ℕ) : fill zero size [] = List.replicate size zero := by
  simp [fill]

/-- The next write goes behind the rows that are there. -/
theorem set_fill (zero : α) (size : ℕ) (rows : List α) (row : α) :
    (fill zero size rows).set rows.length row = fill zero size (rows ++ [row]) := by
  apply ext_getElem?
  intro i
  unfold fill
  rw [getElem?_set, getElem?_take, getElem?_take, length_take, length_append, length_replicate]
  rcases lt_trichotomy i rows.length with hlt | rfl | hgt
  · rw [if_neg hlt.ne', append_assoc, getElem?_append_left hlt, getElem?_append_left hlt]
  · rw [if_pos rfl, append_assoc, getElem?_append_right le_rfl]
    split_ifs <;> first | rfl | omega | simp
  · rw [if_neg hgt.ne, append_assoc, getElem?_append_right hgt.le,
      getElem?_append_right hgt.le, singleton_append]
    obtain ⟨k, hk⟩ : ∃ k, i - rows.length = k + 1 := ⟨i - rows.length - 1, by omega⟩
    rw [hk, getElem?_cons_succ, getElem?_replicate, getElem?_replicate]
    split_ifs <;> first | rfl | omega

theorem fill_of_length_eq {zero : α} {size : ℕ} {rows : List α} (h : rows.length = size) :
    fill zero size rows = rows := by
  rw [fill, ← h, take_left' rfl]

end DashQL.Levels
