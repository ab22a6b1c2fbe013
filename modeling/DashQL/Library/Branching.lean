import Mathlib

/-!
# Ranked branchings

A branching gives every element a list of children, and a rank that falls from
an element to its children.  Unfolding an element therefore yields a finite
tree, although the elements themselves may be shared: a buffer of nodes that
refer to each other by index is read this way.  The module sums weights over
the unfolded tree, measures the stack of a depth-first traversal, and compares
two branchings that are walked in lockstep.
-/

namespace DashQL

open List

/-- Children of every element, with a rank that falls from parent to child. -/
structure Branching (α : Type*) where
  children : α → List α
  rank : α → ℕ
  rank_lt : ∀ {a b : α}, b ∈ children a → rank b < rank a

namespace Branching

variable {α : Type*} (tree : Branching α)

theorem induction {motive : α → Prop}
    (step : ∀ a, (∀ b ∈ tree.children a, motive b) → motive a) (a : α) : motive a := by
  induction h : tree.rank a using Nat.strong_induction_on generalizing a with
  | _ rank ih =>
    apply step
    intro b hb
    exact ih (tree.rank b) (h ▸ tree.rank_lt hb) b rfl

/-- The sum of a weight over the tree below `a`, `a` included. -/
def total (weight : α → ℕ) (a : α) : ℕ :=
  weight a + ((tree.children a).attach.map fun b => total weight b.1).sum
termination_by tree.rank a
decreasing_by exact tree.rank_lt b.2

theorem total_eq (weight : α → ℕ) (a : α) :
    tree.total weight a = weight a + ((tree.children a).map (tree.total weight)).sum := by
  rw [total]
  congr 2
  calc (tree.children a).attach.map (fun b => tree.total weight b.1)
      = ((tree.children a).attach.map Subtype.val).map (tree.total weight) := by simp
    _ = (tree.children a).map (tree.total weight) := by rw [attach_map_subtype_val]

/-- The number of elements of the tree below `a`. -/
def size (a : α) : ℕ :=
  tree.total (fun _ => 1) a

theorem size_eq (a : α) : tree.size a = 1 + ((tree.children a).map tree.size).sum :=
  tree.total_eq _ a

theorem size_pos (a : α) : 0 < tree.size a := by
  rw [size_eq]
  omega

/-- A property of every element of the tree below an element. -/
inductive Throughout (p : α → Prop) : α → Prop
  | node {a : α} (here : p a) (below : ∀ b ∈ tree.children a, Throughout p b) : Throughout p a

theorem throughout_iff {p : α → Prop} {a : α} :
    tree.Throughout p a ↔ p a ∧ ∀ b ∈ tree.children a, tree.Throughout p b := by
  constructor
  · rintro ⟨here, below⟩
    exact ⟨here, below⟩
  · intro h
    exact .node h.1 h.2

theorem throughout_congr {p q : α → Prop} (h : ∀ b, p b ↔ q b) {a : α} :
    tree.Throughout p a ↔ tree.Throughout q a := by
  induction a using tree.induction with
  | step a ih =>
    rw [throughout_iff, throughout_iff, h a]
    exact and_congr_right fun _ => forall₂_congr ih

/-- The elements that a stack of pending subtrees still has to visit. -/
def pendingSize (stack : List α) : ℕ :=
  (stack.map tree.size).sum

@[simp] theorem pendingSize_append (stack rest : List α) :
    tree.pendingSize (stack ++ rest) = tree.pendingSize stack + tree.pendingSize rest := by
  simp [pendingSize]

/-- Replacing the top of the stack by its children takes one visit. -/
theorem pendingSize_cons (a : α) (rest : List α) :
    tree.pendingSize (a :: rest) = tree.pendingSize ((tree.children a).reverse ++ rest) + 1 := by
  rw [pendingSize_append]
  simp only [pendingSize, map_cons, sum_cons, map_reverse, sum_reverse, tree.size_eq a]
  omega

/-- The rounds that the stack of a post-order traversal has left: an element is
met once to push its children, and once more when they are done. -/
def rounds (stack : List (Bool × α)) : ℕ :=
  (stack.map fun entry => if entry.1 then 1 else 2 * tree.size entry.2).sum

theorem rounds_append (stack rest : List (Bool × α)) :
    tree.rounds (stack ++ rest) = tree.rounds stack + tree.rounds rest := by
  simp [rounds]

theorem rounds_unvisited (l : List α) :
    tree.rounds ((l.map fun b => (false, b)).reverse) = 2 * (l.map tree.size).sum := by
  induction l with
  | nil => rfl
  | cons b l ih =>
    have hlast : tree.rounds [(false, b)] = 2 * tree.size b := by simp [rounds]
    simp only [map_cons, reverse_cons, rounds_append, sum_cons, ih, hlast]
    omega

theorem rounds_push (a : α) (rest : List (Bool × α)) :
    tree.rounds (((tree.children a).map fun b => (false, b)).reverse ++ (true, a) :: rest) <
      tree.rounds ((false, a) :: rest) := by
  have hbefore : tree.rounds ((false, a) :: rest) = 2 * tree.size a + tree.rounds rest := by
    simp [rounds]
  have hafter : tree.rounds ((true, a) :: rest) = 1 + tree.rounds rest := by simp [rounds]
  have hsize := tree.size_eq a
  rw [rounds_append, rounds_unvisited, hbefore, hafter]
  omega

/-! ## Walking one branching along another -/

section Along

variable {β : Type*} {tree} {onto : Branching β} {proj : α → β}

theorem Subperm.exists_perm_append {l₁ l₂ : List β} (h : l₁.Subperm l₂) :
    ∃ rest, l₂.Perm (l₁ ++ rest) := by
  obtain ⟨l, hperm, hsub⟩ := h
  obtain ⟨rest, hrest⟩ := hsub.exists_perm_append
  exact ⟨rest, hrest.trans (hperm.append_right rest)⟩

/-- Terms that stay below others termwise have their sum only if they agree. -/
theorem eq_of_sum_map_eq {f g : α → ℕ} {l : List α} (h : ∀ a ∈ l, f a ≤ g a)
    (hsum : (l.map f).sum = (l.map g).sum) : ∀ a ∈ l, f a = g a := by
  intro a ha
  by_contra hne
  have hlt := sum_lt_sum f g h ⟨a, ha, lt_of_le_of_ne (h a ha) hne⟩
  omega

/-- A walk that visits children of `onto` at most once each counts no more
than the size of what it walks along. -/
theorem total_le_size (hproj : ∀ a, ((tree.children a).map proj).Subperm (onto.children (proj a)))
    {weight : α → ℕ} (hweight : ∀ a, weight a ≤ 1) (a : α) :
    tree.total weight a ≤ onto.size (proj a) := by
  induction a using tree.induction with
  | step a ih =>
    obtain ⟨rest, hrest⟩ := Subperm.exists_perm_append (hproj a)
    have hbelow : ((tree.children a).map (tree.total weight)).sum ≤
        ((tree.children a).map fun b => onto.size (proj b)).sum := sum_le_sum ih
    have hsplit := (hrest.map onto.size).sum_eq
    rw [map_append, sum_append, map_map] at hsplit
    have hone := hweight a
    rw [total_eq, size_eq]
    simp only [Function.comp_def] at hsplit
    omega

/-- The walk counts the whole of what it walks along exactly if it counts
every element it visits and leaves out no child of `onto`. -/
theorem total_eq_size_iff
    (hproj : ∀ a, ((tree.children a).map proj).Subperm (onto.children (proj a)))
    {weight : α → ℕ} (hweight : ∀ a, weight a ≤ 1) (a : α) :
    tree.total weight a = onto.size (proj a) ↔
      tree.Throughout (fun b => weight b = 1 ∧
        (tree.children b).length = (onto.children (proj b)).length) a := by
  induction a using tree.induction with
  | step a ih =>
    obtain ⟨rest, hrest⟩ := Subperm.exists_perm_append (hproj a)
    have hle : ∀ b ∈ tree.children a, tree.total weight b ≤ onto.size (proj b) :=
      fun b _ => total_le_size hproj hweight b
    have hsum := sum_le_sum hle
    have hsplit := (hrest.map onto.size).sum_eq
    rw [map_append, sum_append, map_map] at hsplit
    simp only [Function.comp_def] at hsplit
    have hlength : (onto.children (proj a)).length =
        (tree.children a).length + rest.length := by simpa using hrest.length_eq
    have hone := hweight a
    rw [total_eq, size_eq, throughout_iff]
    constructor
    · intro heq
      -- every inequality is tight, so no child of `onto` is left over
      have hrest_nil : rest = [] := by
        cases rest with
        | nil => rfl
        | cons c rest =>
          have hpos := onto.size_pos c
          simp only [map_cons, sum_cons] at hsplit
          omega
      subst hrest_nil
      simp only [map_nil, sum_nil, length_nil] at hsplit hlength
      refine ⟨⟨by omega, by omega⟩, fun b hb => (ih b hb).mp ?_⟩
      exact eq_of_sum_map_eq hle (by omega) b hb
    · rintro ⟨⟨hweight_one, hequal_length⟩, hbelow⟩
      have hrest_nil : rest = [] := eq_nil_of_length_eq_zero (by omega)
      subst hrest_nil
      have hequal : (tree.children a).map (tree.total weight) =
          (tree.children a).map fun b => onto.size (proj b) :=
        map_congr_left fun b hb => (ih b hb).mpr (hbelow b hb)
      simp only [map_nil, sum_nil] at hsplit
      rw [hweight_one, hequal, hsplit]
      omega

end Along

end Branching

end DashQL
