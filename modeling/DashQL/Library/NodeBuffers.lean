import Mathlib.Data.List.Forall2
import Mathlib.Logic.Relation
import DashQL.Library.RoseTrees

/-!
# Trees in a buffer of nodes

A buffer keeps the nodes of trees in a row, and every node has the indices of its
children in the buffer.  What tree a node is the root of does not depend on where its
children stand, and it stays when the buffer grows.
-/

namespace DashQL.NodeBuffer

open List

variable {ν : Type} {β : Type*}

section Trees

variable (label : ν → β) (children : ν → List ℕ) (buffer : List ν)

mutual

def Represents (n : ν) : RoseTree β → Prop
  | .node l trees => label n = l ∧ RepresentsAll (children n) trees
termination_by structural tree => tree

def RepresentsAll : List ℕ → List (RoseTree β) → Prop
  | [], [] => True
  | i :: is, tree :: trees =>
    (∃ n, buffer[i]? = some n ∧ Represents n tree) ∧ RepresentsAll is trees
  | [], _ :: _ => False
  | _ :: _, [] => False
termination_by structural _ trees => trees

end

def IsChild (i j : ℕ) : Prop := ∃ n, buffer[i]? = some n ∧ j ∈ children n

/-- A node of the tree below a node of the buffer, that node included. -/
def IsBelow : ℕ → ℕ → Prop := Relation.ReflTransGen (IsChild children buffer)

end Trees

variable {label : ν → β} {children : ν → List ℕ} {buffer buffer' : List ν} {n n' : ν}

def RepresentsAt (label : ν → β) (children : ν → List ℕ) (buffer : List ν) (i : ℕ)
    (tree : RoseTree β) : Prop :=
  ∃ n, buffer[i]? = some n ∧ Represents label children buffer n tree

theorem representsAll_iff {is : List ℕ} {trees : List (RoseTree β)} :
    RepresentsAll label children buffer is trees ↔
      List.Forall₂ (RepresentsAt label children buffer) is trees := by
  induction is generalizing trees with
  | nil =>
    cases trees with
    | nil => exact ⟨fun _ => .nil, fun _ => trivial⟩
    | cons tree trees => exact ⟨fun h => h.elim, fun h => by cases h⟩
  | cons i is ih =>
    cases trees with
    | nil => exact ⟨fun h => h.elim, fun h => by cases h⟩
    | cons tree trees =>
      rw [forall₂_cons]
      exact and_congr_right fun _ => ih

theorem represents_node {l : β} {trees : List (RoseTree β)} :
    Represents label children buffer n (.node l trees) ↔
      label n = l ∧ List.Forall₂ (RepresentsAt label children buffer) (children n) trees :=
  and_congr_right fun _ => representsAll_iff

theorem represents_iff_root {tree : RoseTree β} :
    Represents label children buffer n tree ↔
      label n = tree.label ∧
        List.Forall₂ (RepresentsAt label children buffer) (children n) tree.children := by
  cases tree with
  | node l trees => exact represents_node

theorem represents_congr {tree : RoseTree β} (hlabel : label n' = label n)
    (hchildren : children n' = children n) :
    Represents label children buffer n' tree ↔ Represents label children buffer n tree := by
  rw [represents_iff_root, represents_iff_root, hlabel, hchildren]

/-- Two relations with a list in common, composed at the elements of the last one. -/
theorem forall₂_compose {α γ δ : Type*} {r : α → γ → Prop} {s : α → δ → Prop} {t : γ → δ → Prop}
    {as : List α} {cs : List γ} {ds : List δ} (h : List.Forall₂ r as cs)
    (h' : List.Forall₂ s as ds) (himp : ∀ a c, ∀ d ∈ ds, r a c → s a d → t c d) :
    List.Forall₂ t cs ds := by
  induction h generalizing ds with
  | nil =>
    cases h'
    exact .nil
  | cons hhead _ ih =>
    cases h' with
    | cons hhead' htail' =>
      exact .cons (himp _ _ _ mem_cons_self hhead hhead')
        (ih htail' fun a c d hd => himp a c d (mem_cons_of_mem _ hd))

/-- Nodes of two buffers whose labels agree, and whose children are related in turn, describe
one tree. -/
theorem RepresentsAt.simulate {ν' : Type} {label' : ν' → β} {children' : ν' → List ℕ}
    {nodes' : List ν'} {r : ℕ → ℕ → Prop}
    (hr : ∀ (i i' : ℕ) (n : ν), r i i' → buffer[i]? = some n → ∃ n', nodes'[i']? = some n' ∧
      label' n' = label n ∧ List.Forall₂ r (children n) (children' n'))
    {i i' : ℕ} {tree : RoseTree β} (hi : r i i') (h : RepresentsAt label children buffer i tree) :
    RepresentsAt label' children' nodes' i' tree := by
  induction tree using RoseTree.induction generalizing i i' with
  | node l trees ih =>
    obtain ⟨n, hn, hrep⟩ := h
    obtain ⟨hlabel, hall⟩ := represents_node.mp hrep
    obtain ⟨n', hn', hlabel', hrelated⟩ := hr i i' n hi hn
    refine ⟨n', hn', represents_node.mpr ⟨hlabel'.trans hlabel, ?_⟩⟩
    refine forall₂_compose hrelated hall fun c c' tree htree hc hat => ?_
    exact ih tree htree hc hat

/-- A buffer that has what another one has, and maybe more. -/
def Extends (label : ν → β) (children : ν → List ℕ) (buffer buffer' : List ν) : Prop :=
  ∀ (i : ℕ) (n : ν), buffer[i]? = some n →
    ∃ n', buffer'[i]? = some n' ∧ label n' = label n ∧ children n' = children n

theorem extends_refl : Extends label children buffer buffer := fun _ n h => ⟨n, h, rfl, rfl⟩

theorem Extends.trans {buffer'' : List ν} (h : Extends label children buffer buffer')
    (h' : Extends label children buffer' buffer'') : Extends label children buffer buffer'' := by
  intro i n hn
  obtain ⟨n', hn', hlabel, hchildren⟩ := h i n hn
  obtain ⟨n'', hn'', hlabel', hchildren'⟩ := h' i n' hn'
  exact ⟨n'', hn'', hlabel'.trans hlabel, hchildren'.trans hchildren⟩

theorem RepresentsAt.extend {i : ℕ} {tree : RoseTree β}
    (h : RepresentsAt label children buffer i tree)
    (hextends : Extends label children buffer buffer') :
    RepresentsAt label children buffer' i tree := by
  refine h.simulate (r := Eq) ?_ rfl
  rintro i _ n rfl hn
  obtain ⟨n', hn', hlabel, hchildren⟩ := hextends i n hn
  exact ⟨n', hn', hlabel, hchildren ▸ forall₂_refl _⟩

/-- Trees stay when the buffer grows. -/
theorem Represents.extend {tree : RoseTree β} (h : Represents label children buffer n tree)
    (hextends : Extends label children buffer buffer') :
    Represents label children buffer' n tree := by
  rw [represents_iff_root] at h ⊢
  exact ⟨h.1, h.2.imp fun _ _ hat => hat.extend hextends⟩

/-- Where children stand in front of their nodes, every node describes a tree. -/
theorem exists_representsAt
    (hbefore : ∀ (i : ℕ) (n : ν), buffer[i]? = some n → ∀ c ∈ children n, c < i) {i : ℕ}
    (hi : i < buffer.length) : ∃ tree, RepresentsAt label children buffer i tree := by
  induction i using Nat.strongRecOn with
  | ind i ih =>
    have hn := getElem?_eq_getElem hi
    have hall : ∀ cs : List ℕ, (∀ c ∈ cs, c < i) →
        ∃ trees, List.Forall₂ (RepresentsAt label children buffer) cs trees := by
      intro cs hcs
      induction cs with
      | nil => exact ⟨[], .nil⟩
      | cons c cs ihcs =>
        have hc := hcs c mem_cons_self
        obtain ⟨tree, htree⟩ := ih c hc (Nat.lt_trans hc hi)
        obtain ⟨trees, htrees⟩ := ihcs fun c hc => hcs c (mem_cons_of_mem _ hc)
        exact ⟨tree :: trees, .cons htree htrees⟩
    obtain ⟨trees, htrees⟩ := hall (children buffer[i]) (hbefore i _ hn)
    exact ⟨.node (label buffer[i]) trees, buffer[i], hn, represents_node.mpr ⟨rfl, htrees⟩⟩

end DashQL.NodeBuffer
