import DashQL.Library.NodeBuffers
import DashQL.Parser.Reductions

/-!
# Node ranges

A node of the buffer is open until its parent is added: it is its own parent then.  The open
nodes behind the last statement are just the children of the nodes that the values of a
parser hold (`Linked`).  So a node that is added finds its children open, and links all of
them; and at the end of a statement its root is the only open node behind the last one.
-/

namespace DashQL.Parser

open List

open NodeBuffer
open ScriptDiff (NodeType hasChildren isObjectType)

def childIndices (n : Node) : List ℕ :=
  if linksChildren n.nodeType then List.range' n.childrenBeginOrValue n.childrenCount else []

/-- The indices of the nodes behind the last statement that are not linked. -/
def openIndices (ctx : ParseContext) : List ℕ :=
  (List.range' ctx.currentStatement.nodesBegin
      (ctx.nodes.length - ctx.currentStatement.nodesBegin)).filter
    fun i => (ctx.nodes[i]?).map Node.parent = some i

/-- The nodes of the buffer are linked, and those that wait for their parent are the children
of the nodes that are held, and the loose ones. -/
structure Linked (ctx : ParseContext) (loose : List ℕ) (held : List Node) : Prop where
  opened : (loose ++ held.flatMap childIndices).Perm (openIndices ctx)
  begin_le : ctx.currentStatement.nodesBegin ≤ ctx.nodes.length
  children : ∀ (j : ℕ) (n : Node), ctx.nodes[j]? = some n → ∀ i ∈ childIndices n,
    i < j ∧ (ctx.nodes[i]?).map Node.parent = some j
  parent : ∀ (i : ℕ) (m : Node), ctx.nodes[i]? = some m →
    m.parent = i ∨ (i < m.parent ∧ IsChild childIndices ctx.nodes m.parent i)
  closed : ∀ (i : ℕ) (m : Node), ctx.nodes[i]? = some m →
    i < ctx.currentStatement.nodesBegin → m.parent < ctx.currentStatement.nodesBegin
  range : ∀ (j : ℕ) (n : Node), ctx.nodes[j]? = some n → hasChildren n.nodeType →
    n.childrenBeginOrValue + n.childrenCount ≤ j
  held_range : ∀ n ∈ held, hasChildren n.nodeType →
    n.childrenBeginOrValue + n.childrenCount ≤ ctx.nodes.length

/-- What later nodes leave as it was. -/
structure Grown (ctx ctx' : ParseContext) : Prop where
  extended : Extends Node.label childIndices ctx.nodes ctx'.nodes
  statements : ctx'.statements = ctx.statements
  current : ctx'.currentStatement = ctx.currentStatement
  length_le : ctx.nodes.length ≤ ctx'.nodes.length
  old : ∀ i < ctx.currentStatement.nodesBegin, ctx'.nodes[i]? = ctx.nodes[i]?

variable {ctx ctx' ctx'' : ParseContext} {loose : List ℕ} {held held' : List Node} {n : Node}

theorem Grown.refl : Grown ctx ctx :=
  ⟨extends_refl, rfl, rfl, le_rfl, fun _ _ => rfl⟩

theorem Grown.trans (h : Grown ctx ctx') (h' : Grown ctx' ctx'') : Grown ctx ctx'' where
  extended := h.extended.trans h'.extended
  statements := h'.statements.trans h.statements
  current := h'.current.trans h.current
  length_le := h.length_le.trans h'.length_le
  old i hi := (h'.old i (h.current ▸ hi)).trans (h.old i hi)

theorem childIndices_of_not_linksChildren (h : linksChildren n.nodeType = false) :
    childIndices n = [] := by
  unfold childIndices
  rw [h]
  rfl

theorem childIndices_of_none (h : n.nodeType = .none) : childIndices n = [] :=
  childIndices_of_not_linksChildren (by rw [h]; rfl)

theorem linksChildren_of_isObjectType {type : NodeType} (h : isObjectType type = true) :
    linksChildren type = true := by
  revert h
  cases type <;> decide

theorem mem_openIndices {i : ℕ} : i ∈ openIndices ctx ↔
    ctx.currentStatement.nodesBegin ≤ i ∧ i < ctx.nodes.length ∧
      (ctx.nodes[i]?).map Node.parent = some i := by
  unfold openIndices
  rw [mem_filter, mem_range'_1, decide_eq_true_eq]
  constructor
  · intro h
    exact ⟨h.1.1, by omega, h.2⟩
  · intro h
    exact ⟨⟨h.1, by omega⟩, h.2.2⟩

theorem nodup_openIndices (ctx : ParseContext) : (openIndices ctx).Nodup :=
  List.Nodup.filter _ nodup_range'

namespace Linked

theorem perm (h : Linked ctx loose held) (hperm : held.Perm held') : Linked ctx loose held' where
  opened := ((hperm.symm.flatMap_right childIndices).append_left loose).trans h.opened
  begin_le := h.begin_le
  children := h.children
  parent := h.parent
  closed := h.closed
  range := h.range
  held_range n hn := h.held_range n (hperm.mem_iff.mpr hn)

theorem isOpen (h : Linked ctx loose (n :: held)) {i : ℕ} (hi : i ∈ childIndices n) :
    i ∈ openIndices ctx :=
  h.opened.mem_iff.mp (mem_append_right _ (by
    rw [flatMap_cons]
    exact mem_append_left _ hi))

theorem replace {n' : Node} (h : Linked ctx loose (n :: held))
    (hchildren : childIndices n' = childIndices n) (hrange : hasChildren n'.nodeType →
      n'.childrenBeginOrValue + n'.childrenCount ≤ ctx.nodes.length) :
    Linked ctx loose (n' :: held) where
  opened := by
    rw [flatMap_cons, hchildren, ← flatMap_cons]
    exact h.opened
  begin_le := h.begin_le
  children := h.children
  parent := h.parent
  closed := h.closed
  range := h.range
  held_range m hm := by
    rcases mem_cons.mp hm with rfl | hm
    · exact hrange
    · exact h.held_range m (mem_cons_of_mem _ hm)

theorem attr (h : Linked ctx loose (n :: held)) (key : ℕ) : Linked ctx loose (attr key n :: held) :=
  h.replace rfl fun hhas => h.held_range n mem_cons_self hhas

/-- A node without children need not be held. -/
theorem drop (h : Linked ctx loose (n :: held)) (hchildren : childIndices n = []) :
    Linked ctx loose held where
  opened := by
    have hopened := h.opened
    rw [flatMap_cons, hchildren, nil_append] at hopened
    exact hopened
  begin_le := h.begin_le
  children := h.children
  parent := h.parent
  closed := h.closed
  range := h.range
  held_range m hm := h.held_range m (mem_cons_of_mem _ hm)

theorem hold (h : Linked ctx loose held) (hchildren : childIndices n = [])
    (hrange : hasChildren n.nodeType →
      n.childrenBeginOrValue + n.childrenCount ≤ ctx.nodes.length) :
    Linked ctx loose (n :: held) where
  opened := by
    rw [flatMap_cons, hchildren, nil_append]
    exact h.opened
  begin_le := h.begin_le
  children := h.children
  parent := h.parent
  closed := h.closed
  range := h.range
  held_range m hm := by
    rcases mem_cons.mp hm with rfl | hm
    · exact hrange
    · exact h.held_range m hm

end Linked

/-! ## Adding a node -/

theorem getElem?_forEachIn (begin count : ℕ) (fn : Node → Node) (values : List Node) (i : ℕ) :
    (forEachIn begin count fn values)[i]? =
      (values[i]?).map fun m => if i ∈ List.range' begin count then fn m else m := by
  unfold forEachIn
  rw [getElem?_mapIdx]
  simp only [mem_range'_1]

/-- The buffer after a node is added whose children are in the buffer. -/
theorem getElem?_addNode (ctx : ParseContext)
    (hchildren : ∀ i ∈ childIndices n, i < ctx.nodes.length) (i : ℕ) :
    (ctx.addNode n).1.nodes[i]? =
      if i = ctx.nodes.length then some { n with parent := ctx.nodes.length }
      else (ctx.nodes[i]?).map fun m =>
        if i ∈ childIndices n then { m with parent := ctx.nodes.length } else m := by
  have hnew : (ctx.nodes ++ [{ n with parent := ctx.nodes.length }])[i]? =
      if i = ctx.nodes.length then some { n with parent := ctx.nodes.length }
      else ctx.nodes[i]? := by
    split
    · next h => rw [h, getElem?_concat_length]
    · next h =>
        rcases Nat.lt_or_gt_of_ne h with hlt | hgt
        · exact getElem?_append_left hlt
        · rw [getElem?_eq_none (by simp; omega), getElem?_eq_none (by omega)]
  unfold ParseContext.addNode
  unfold childIndices at hchildren ⊢
  by_cases hlinks : linksChildren n.nodeType = true
  · rw [if_pos hlinks] at hchildren
    simp only [hlinks, if_true]
    rw [getElem?_forEachIn, hnew]
    by_cases hi : i = ctx.nodes.length
    · have hout : i ∉ List.range' n.childrenBeginOrValue n.childrenCount := by
        intro hmem
        have := hchildren i hmem
        omega
      rw [if_pos hi, if_pos hi, Option.map_some, if_neg hout]
    · rw [if_neg hi, if_neg hi]
  · simp only [hlinks, if_false, Bool.false_eq_true]
    rw [hnew]
    split
    · rfl
    · simp

theorem length_addNode (ctx : ParseContext) (n : Node) :
    (ctx.addNode n).1.nodes.length = ctx.nodes.length + 1 := by
  unfold ParseContext.addNode forEachIn
  dsimp only
  split <;> simp

@[simp] theorem addNode_snd (ctx : ParseContext) (n : Node) :
    (ctx.addNode n).2 = ctx.nodes.length := by
  unfold ParseContext.addNode
  dsimp only
  split <;> rfl

@[simp] theorem currentStatement_addNode (ctx : ParseContext) (n : Node) :
    (ctx.addNode n).1.currentStatement = ctx.currentStatement := by
  unfold ParseContext.addNode
  dsimp only
  split <;> rfl

@[simp] theorem statements_addNode (ctx : ParseContext) (n : Node) :
    (ctx.addNode n).1.statements = ctx.statements := by
  unfold ParseContext.addNode
  dsimp only
  split <;> rfl

theorem childIndices_parent (n : Node) (parent : ℕ) :
    childIndices { n with parent := parent } = childIndices n := rfl

theorem label_parent (n : Node) (parent : ℕ) : Node.label { n with parent := parent } = n.label :=
  rfl

section AddNode

variable (h : Linked ctx loose (n :: held))
include h

theorem Linked.lt_length {i : ℕ} (hi : i ∈ childIndices n) : i < ctx.nodes.length :=
  (mem_openIndices.mp (h.isOpen hi)).2.1

theorem grown_addNode : Grown ctx (ctx.addNode n).1 where
  extended := by
    intro i m hm
    have hi : i < ctx.nodes.length := (List.getElem?_eq_some_iff.mp hm).1
    rw [getElem?_addNode ctx (fun _ => h.lt_length), if_neg (Nat.ne_of_lt hi), hm]
    refine ⟨_, rfl, ?_⟩
    split <;> exact ⟨rfl, rfl⟩
  statements := statements_addNode ctx n
  current := currentStatement_addNode ctx n
  length_le := by
    rw [length_addNode]
    omega
  old i hi := by
    have hlt : i < ctx.nodes.length := hi.trans_le h.begin_le
    have hout : i ∉ childIndices n := fun hmem =>
      absurd (mem_openIndices.mp (h.isOpen hmem)).1 (Nat.not_le.mpr hi)
    rw [getElem?_addNode ctx (fun _ => h.lt_length), if_neg (Nat.ne_of_lt hlt)]
    simp [hout]

theorem openIndices_addNode :
    openIndices (ctx.addNode n).1 =
      (openIndices ctx).filter (· ∉ childIndices n) ++ [ctx.nodes.length] := by
  have hlength : ctx.nodes.length + 1 - ctx.currentStatement.nodesBegin =
      ctx.nodes.length - ctx.currentStatement.nodesBegin + 1 := by
    have := h.begin_le
    omega
  have hlast : ctx.currentStatement.nodesBegin +
      (ctx.nodes.length - ctx.currentStatement.nodesBegin) = ctx.nodes.length := by
    have := h.begin_le
    omega
  have hget := getElem?_addNode ctx (fun _ => h.lt_length)
  unfold openIndices
  rw [currentStatement_addNode, length_addNode, hlength, range'_1_concat, hlast,
    filter_append, filter_filter]
  congr 1
  · refine filter_congr fun i hi => ?_
    have hlt : i ≠ ctx.nodes.length := by
      have := (mem_range'_1.mp hi).2
      omega
    rw [hget, if_neg hlt, Option.map_map]
    by_cases hmem : i ∈ childIndices n
    · simp only [hmem, if_true, not_true_eq_false, decide_false, Bool.false_and,
        decide_eq_false_iff_not]
      intro heq
      obtain ⟨m, -, hm⟩ := Option.map_eq_some_iff.mp heq
      exact hlt hm.symm
    · simp [hmem, Function.comp_def]
  · simp [hget]

theorem linked_addNode : Linked (ctx.addNode n).1 (loose ++ [ctx.nodes.length]) held where
  opened := by
    have hnodup : (loose ++ (childIndices n ++ held.flatMap childIndices)).Nodup :=
      (flatMap_cons ▸ h.opened).nodup_iff.mpr (nodup_openIndices ctx)
    have hdisjoint : ∀ i ∈ loose ++ held.flatMap childIndices, i ∉ childIndices n := by
      intro i hi hmem
      rcases mem_append.mp hi with hloose | hheld
      · exact disjoint_of_nodup_append hnodup hloose (mem_append_left _ hmem)
      · exact disjoint_of_nodup_append (nodup_append.mp hnodup).2.1 hmem hheld
    have hfilter : ((openIndices ctx).filter (· ∉ childIndices n)).Perm
        (loose ++ held.flatMap childIndices) := by
      have hperm := (flatMap_cons ▸ h.opened).filter (· ∉ childIndices n)
      rw [filter_append, filter_append] at hperm
      have hnone : (childIndices n).filter (· ∉ childIndices n) = [] := by
        rw [filter_eq_nil_iff]
        intro i hi
        simp [hi]
      have hloose : loose.filter (· ∉ childIndices n) = loose :=
        filter_eq_self.mpr fun i hi => by
          simpa using hdisjoint i (mem_append_left _ hi)
      have hheld : (held.flatMap childIndices).filter (· ∉ childIndices n) =
          held.flatMap childIndices :=
        filter_eq_self.mpr fun i hi => by
          simpa using hdisjoint i (mem_append_right _ hi)
      rw [hnone, hloose, hheld, nil_append] at hperm
      exact hperm.symm
    rw [openIndices_addNode h]
    refine List.Perm.trans ?_ (hfilter.symm.append_right [ctx.nodes.length])
    rw [append_assoc, append_assoc]
    exact (perm_append_comm).append_left loose
  begin_le := by
    rw [currentStatement_addNode, length_addNode]
    have := h.begin_le
    omega
  children := by
    intro j m hm i hi
    rw [getElem?_addNode ctx (fun _ => h.lt_length)] at hm ⊢
    by_cases hj : j = ctx.nodes.length
    · rw [if_pos hj] at hm
      obtain rfl := Option.some.inj hm
      rw [childIndices_parent] at hi
      have hlt := h.lt_length hi
      rw [if_neg (Nat.ne_of_lt hlt), hj, getElem?_eq_getElem hlt]
      exact ⟨hlt, by simp [hi]⟩
    · rw [if_neg hj] at hm
      obtain ⟨m', hm', rfl⟩ := Option.map_eq_some_iff.mp hm
      have hi' : i ∈ childIndices m' := by
        split at hi <;> exact hi
      obtain ⟨hij, hparent⟩ := h.children j m' hm' i hi'
      have hj' : j < ctx.nodes.length := (List.getElem?_eq_some_iff.mp hm').1
      have hout : i ∉ childIndices n := by
        intro hmem
        have hself := (mem_openIndices.mp (h.isOpen hmem)).2.2
        rw [hself] at hparent
        exact (Nat.ne_of_lt hij) (Option.some.inj hparent)
      rw [if_neg (Nat.ne_of_lt (hij.trans hj'))]
      exact ⟨hij, by simpa [hout] using hparent⟩
  parent := by
    intro i m hm
    have hget := getElem?_addNode ctx (fun _ => h.lt_length)
    rw [hget] at hm
    by_cases hi : i = ctx.nodes.length
    · rw [if_pos hi] at hm
      obtain rfl := Option.some.inj hm
      exact .inl hi.symm
    · rw [if_neg hi] at hm
      obtain ⟨m', hm', rfl⟩ := Option.map_eq_some_iff.mp hm
      have hi' : i < ctx.nodes.length := (List.getElem?_eq_some_iff.mp hm').1
      by_cases hmem : i ∈ childIndices n
      · rw [if_pos hmem]
        refine .inr ⟨hi', { n with parent := ctx.nodes.length }, ?_, hmem⟩
        rw [hget, if_pos rfl]
      · rw [if_neg hmem]
        refine (h.parent i m' hm').imp_right fun hlinked => ⟨hlinked.1, ?_⟩
        obtain ⟨p, hp, hchild⟩ := hlinked.2
        obtain ⟨p', hp', -, hsame⟩ := (grown_addNode h).extended _ p hp
        exact ⟨p', hp', hsame ▸ hchild⟩
  closed := by
    intro i m hm hi
    rw [currentStatement_addNode] at hi ⊢
    rw [(grown_addNode h).old i hi] at hm
    exact h.closed i m hm hi
  range := by
    intro j m hm hhas
    rw [getElem?_addNode ctx (fun _ => h.lt_length)] at hm
    by_cases hj : j = ctx.nodes.length
    · rw [if_pos hj] at hm
      obtain rfl := Option.some.inj hm
      rw [hj]
      exact h.held_range n mem_cons_self hhas
    · rw [if_neg hj] at hm
      obtain ⟨m', hm', rfl⟩ := Option.map_eq_some_iff.mp hm
      have hhas' : hasChildren m'.nodeType := by
        split at hhas <;> exact hhas
      have := h.range j m' hm' hhas'
      split <;> exact this
  held_range m hm hhas := by
    rw [length_addNode]
    have := h.held_range m (mem_cons_of_mem _ hm) hhas
    omega

end AddNode

end DashQL.Parser
