import Mathlib.Data.List.Basic

/-!
# Rose trees

A node with a label and any number of subtrees, with the induction that goes from the
subtrees to the tree.
-/

namespace DashQL

/-- A tree whose nodes have a label and a list of subtrees. -/
inductive RoseTree (α : Type*)
  | node (label : α) (children : List (RoseTree α))

namespace RoseTree

variable {α β : Type*}

def label : RoseTree α → α
  | .node label _ => label

/-- The subtrees below the root. -/
def children : RoseTree α → List (RoseTree α)
  | .node _ children => children

@[elab_as_elim] theorem induction {motive : RoseTree α → Prop}
    (node : ∀ label children, (∀ tree ∈ children, motive tree) → motive (.node label children))
    (tree : RoseTree α) : motive tree :=
  @RoseTree.rec α motive (fun trees => ∀ tree ∈ trees, motive tree) node
    (fun _ h => (List.not_mem_nil h).elim)
    (fun _ _ hhead htail _ h =>
      (List.mem_cons.mp h).elim (fun heq => heq ▸ hhead) (htail _)) tree

/-- The same tree under another label at the root. -/
def relabel (f : α → α) : RoseTree α → RoseTree α
  | .node label children => .node (f label) children

@[simp] theorem label_relabel (f : α → α) (tree : RoseTree α) :
    (tree.relabel f).label = f tree.label := by
  cases tree
  rfl

@[simp] theorem children_relabel (f : α → α) (tree : RoseTree α) :
    (tree.relabel f).children = tree.children := by
  cases tree
  rfl

end RoseTree

end DashQL
