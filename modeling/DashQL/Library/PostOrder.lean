import Mathlib.Data.List.Perm.Basic
import Mathlib.Data.List.Pairwise
import DashQL.Library.RoseTrees

/-!
# Forests in post-order

A forest is written to a buffer on the way up: the trees of a forest one after the other,
and every node behind the trees of its children.  A node has the indices of its children,
and `PostOrder` is the relation between a forest, the nodes written for it from an offset on
and the indices of its roots.
-/

namespace DashQL

open List

variable {ν β : Type}

namespace RoseTree

mutual

def labels : RoseTree β → List β
  | .node label trees => labelsAll trees ++ [label]
termination_by structural tree => tree

/-- The labels of a forest, in post-order. -/
def labelsAll : List (RoseTree β) → List β
  | [] => []
  | tree :: trees => labels tree ++ labelsAll trees
termination_by structural trees => trees

end

@[simp] theorem labelsAll_nil : labelsAll ([] : List (RoseTree β)) = [] := rfl

theorem labelsAll_cons (l : β) (trees rest : List (RoseTree β)) :
    labelsAll (.node l trees :: rest) = labelsAll trees ++ l :: labelsAll rest := by
  rw [labelsAll, labels, append_assoc, singleton_append]

theorem labelsAll_append (trees rest : List (RoseTree β)) :
    labelsAll (trees ++ rest) = labelsAll trees ++ labelsAll rest := by
  induction trees with
  | nil => rfl
  | cons tree trees ih => rw [cons_append, labelsAll, labelsAll, ih, append_assoc]

theorem labelsAll_flatMap {α : Type*} (f : α → List (RoseTree β)) (l : List α) :
    labelsAll (l.flatMap f) = l.flatMap fun a => labelsAll (f a) := by
  induction l with
  | nil => rfl
  | cons a l ih => rw [flatMap_cons, flatMap_cons, labelsAll_append, ih]

end RoseTree

open RoseTree

/-- A forest is written from an offset on, with its roots at the indices. -/
inductive PostOrder (label : ν → β) (children : ν → List ℕ) :
    ℕ → List (RoseTree β) → List ν → List ℕ → Prop
  | nil (offset : ℕ) : PostOrder label children offset [] [] []
  | cons {offset : ℕ} {trees rest : List (RoseTree β)} {nodes nodes' : List ν} {is is' : List ℕ}
      (n : ν) (hbelow : PostOrder label children offset trees nodes is)
      (hchildren : children n = is)
      (hbehind : PostOrder label children (offset + nodes.length + 1) rest nodes' is') :
      PostOrder label children offset (.node (label n) trees :: rest) (nodes ++ n :: nodes')
        ((offset + nodes.length) :: is')

namespace PostOrder

variable {label : ν → β} {children : ν → List ℕ} {offset : ℕ} {trees rest : List (RoseTree β)}
  {nodes nodes' : List ν} {is is' : List ℕ}

theorem append (h : PostOrder label children offset trees nodes is)
    (h' : PostOrder label children (offset + nodes.length) rest nodes' is') :
    PostOrder label children offset (trees ++ rest) (nodes ++ nodes') (is ++ is') := by
  induction h with
  | nil offset => exact h'
  | @cons offset trees behind nodes nodes'' is is'' n hbelow hchildren hbehind _ ih =>
    rw [length_append, length_cons] at h'
    rw [append_assoc, cons_append, cons_append, cons_append]
    refine .cons n hbelow hchildren (ih ?_)
    convert h' using 1
    omega

theorem node (n : ν) (h : PostOrder label children offset trees nodes is)
    (hchildren : children n = is) :
    PostOrder label children offset [.node (label n) trees] (nodes ++ [n])
      [offset + nodes.length] :=
  .cons n h hchildren (.nil _)

section

variable (h : PostOrder label children offset trees nodes is)

include h

/-- The roots stand among the nodes that were written. -/
theorem index_bounds : ∀ i ∈ is, offset ≤ i ∧ i < offset + nodes.length := by
  induction h with
  | nil offset => exact fun i hi => absurd hi not_mem_nil
  | cons n hbelow hchildren hbehind _ ih =>
    intro i hi
    rw [length_append, length_cons]
    rcases mem_cons.mp hi with rfl | hi
    · omega
    · have hbounds := ih i hi
      omega

theorem length_eq : is.length = trees.length := by
  induction h with
  | nil offset => rfl
  | cons n hbelow hchildren hbehind _ ih => rw [length_cons, length_cons, ih]

theorem map_label : nodes.map label = labelsAll trees := by
  induction h with
  | nil offset => rfl
  | cons n hbelow hchildren hbehind ih ih' =>
    rw [labelsAll_cons, map_append, map_cons, ih, ih']

end

end PostOrder

end DashQL
