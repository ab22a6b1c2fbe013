import DashQL.Parser.ParsedStatements

/-!
# Flattened conjunctions and disjunctions

A nesting of binary expressions is reduced from the inside out.  `TryMerge` keeps a conjunction or
disjunction pending and takes over the arguments of a pending operand with its own operator; the
grammar materialises an operand in parentheses, which is a node like any other then.

`flattened_of_run` says what tree the parse context has in the end: the arguments of a merged node
are the operands of the nesting (`operands`), and the node means what the nesting does (`readTree`).
-/

namespace DashQL.Parser

open List

open NodeBuffer
open ScriptDiff (SymbolSpan)

/-! ## Nestings -/

/-- What other actions of the grammar leave: an expression that is no nesting, or an operator. -/
structure Part where
  made : List Action
  term : Term
  tree : RoseTree Label
  run_made : ∀ t, run terms t made = some (t.1, .node term :: t.2)
  kept_term : kept term = some tree

/-- The operator of a tree that is a conjunction or disjunction sign. -/
def logical (op : RoseTree Label) : Option ℕ :=
  if op.label.nodeType = .enumSqlExpressionOperator ∧
      (op.label.value = ExpressionOperator.and.ctorIdx ∨
        op.label.value = ExpressionOperator.or.ctorIdx) then
    some op.label.value
  else none

/-- A nesting of binary expressions, of which any may stand in parentheses. -/
inductive Nesting
  | leaf (part : Part)
  | parens (inner : Nesting)
  | binary (loc : SymbolSpan) (op : Part) (left right : Nesting)

/-- `Expr` behind a failed `TryMerge`, on an operator and two expressions below it. -/
def naryActions (loc : SymbolSpan) : List Action :=
  [.bring 2, .bring 2, .arrayOf 2 loc true false, .attr sqlExpressionArgs, .bring 1,
    .attr sqlExpressionOperator, .list, .bring 1, .pushBack, .bring 1, .pushBack,
    .object loc .objectSqlNaryExpression true false, .variant]

namespace Nesting

/-- The actions of a nesting: `Expr` for a binary expression, `Expression` for parentheses. -/
def actions : Nesting → List Action
  | leaf part => part.made ++ [.variant]
  | parens inner => inner.actions ++ [.expression, .variant]
  | binary loc op left right =>
    left.actions ++ (right.actions ++ (op.made ++
      if (logical op.tree).isSome then [.tryMerge 2 loc] else naryActions loc))

/-- The leaves of the maximal tree of one operator at the top of a nesting. -/
def operands (o : ℕ) : Nesting → List Nesting
  | binary loc op left right =>
    if logical op.tree = some o then left.operands o ++ right.operands o
    else [binary loc op left right]
  | e => [e]

/-! ## The tree of a nesting -/

def operatorTree (op : RoseTree Label) : RoseTree Label :=
  op.relabel fun label => { label with attributeKey := sqlExpressionOperator }

def naryTree (loc : SymbolSpan) (op : RoseTree Label) (args : List (RoseTree Label)) :
    RoseTree Label :=
  .node ⟨loc, .objectSqlNaryExpression, 0, 0⟩
    [operatorTree op, .node ⟨loc, .array, sqlExpressionArgs, 0⟩ args]

/-- The tree of a nesting, and what it adds to the arguments of an operator. -/
def flat : Nesting → RoseTree Label × (ℕ → List (RoseTree Label))
  | leaf part => (part.tree, fun _ => [part.tree])
  | parens inner => (inner.flat.1, fun _ => [inner.flat.1])
  | binary loc op left right =>
    let tree := naryTree loc op.tree <| (logical op.tree).elim [left.flat.1, right.flat.1]
      fun o => left.flat.2 o ++ right.flat.2 o
    (tree, fun o =>
      if logical op.tree = some o then left.flat.2 o ++ right.flat.2 o else [tree])

def tree (e : Nesting) : RoseTree Label := e.flat.1

theorem flat_eq (e : Nesting) (o : ℕ) : e.flat.2 o = (e.operands o).map tree := by
  induction e with
  | leaf part => rfl
  | parens inner => rfl
  | binary loc op left right ihleft ihright =>
    unfold flat operands
    dsimp only
    split_ifs
    · rw [ihleft, ihright, map_append]
    · rfl

variable {loc : SymbolSpan} {op : Part} {left right : Nesting} {o : ℕ}

/-- A merged node has the operands of both sides as its arguments. -/
theorem tree_of_logical (hop : logical op.tree = some o) :
    (binary loc op left right).tree =
      naryTree loc op.tree ((left.operands o ++ right.operands o).map tree) := by
  rw [map_append, ← flat_eq, ← flat_eq, tree, flat, hop]
  rfl

theorem tree_of_not_logical (hop : logical op.tree = none) :
    (binary loc op left right).tree = naryTree loc op.tree [left.tree, right.tree] := by
  rw [tree, flat, hop]
  rfl

/-! ## The terms of a nesting -/

def value : Nesting → TermVariant
  | leaf part => .node part.term
  | parens inner => .node inner.value.expression
  | binary loc op left right =>
    match logical op.tree with
    | some o => .nary loc o op.term (left.value.merged o ++ right.value.merged o)
    | none =>
      .node
        (TermVariant.nary loc 0 op.term [left.value.expression, right.value.expression]).expression

theorem run_append {σ N V : Type} (b : Builder σ N V) (s : σ × List (Value N V))
    (first second : List Action) :
    run b s (first ++ second) = (run b s first).bind (run b · second) :=
  foldlM_append

theorem mergeOperator_term (op : Part) : mergeOperator op.term = logical op.tree := by
  rw [mergeOperator, op.kept_term]
  rfl

theorem run_actions (e : Nesting) (t : List (RoseTree Label) × List (Value Term TermVariant)) :
    run terms t e.actions = some (t.1, .variant e.value :: t.2) := by
  induction e generalizing t with
  | leaf part =>
    rw [actions, run_append, part.run_made]
    rfl
  | parens inner ih =>
    rw [actions, run_append, ih]
    rfl
  | binary loc op left right ihleft ihright =>
    rw [actions, run_append, ihleft, Option.bind_some, run_append, ihright, Option.bind_some,
      run_append, op.run_made, Option.bind_some, value]
    cases hop : logical op.tree with
    | none => rfl
    | some o =>
      have hmerge : mergeOperator op.term = some o := (mergeOperator_term op).trans hop
      simp [run, step, popNode, popVariants, popVariant, terms, hmerge]

theorem keptAll_singleton {term : Term} {tree : RoseTree Label} (h : kept term = some tree) :
    keptAll [term] = [tree] := by
  rw [keptAll_eq, filterMap_cons_some h, filterMap_nil]

theorem kept_nary {args : List Term} {trees : List (RoseTree Label)} (hargs : keptAll args = trees)
    (hne : trees ≠ []) (loc : SymbolSpan) (o : ℕ) (op : Part) :
    kept (TermVariant.nary loc o op.term args).expression = some (naryTree loc op.tree trees) := by
  have harray : kept (.attr sqlExpressionArgs (container loc .array args true false)) =
      some (.node ⟨loc, .array, sqlExpressionArgs, 0⟩ trees) := by
    rw [kept_attr, container, kept_node, hargs, if_neg (by simp [hne])]
    rfl
  have hop : kept (.attr sqlExpressionOperator op.term) = some (operatorTree op.tree) := by
    rw [kept_attr, op.kept_term]
    rfl
  rw [TermVariant.expression, container, kept_node, keptAll_eq, filterMap_cons_some hop,
    filterMap_cons_some harray, if_neg (by simp)]
  rfl

theorem operands_ne_nil (e : Nesting) (o : ℕ) : e.operands o ≠ [] := by
  induction e with
  | binary loc op left right ihleft _ =>
    unfold operands
    split_ifs
    · exact append_ne_nil_of_left_ne_nil ihleft _
    · exact cons_ne_nil _ _
  | _ => exact cons_ne_nil _ _

/-- The term of a nesting is kept as its tree, and what it adds to a list as its operands. -/
theorem kept_value (e : Nesting) : kept e.value.expression = some e.tree ∧
    ∀ o, keptAll (e.value.merged o) = (e.operands o).map tree := by
  induction e with
  | leaf part => exact ⟨part.kept_term, fun _ => keptAll_singleton part.kept_term⟩
  | parens inner ih => exact ⟨ih.1, fun _ => keptAll_singleton ih.1⟩
  | binary loc op left right ihleft ihright =>
    unfold value operands
    cases hop : logical op.tree with
    | none =>
      have hpair : keptAll [left.value.expression, right.value.expression] =
          [left.tree, right.tree] := by
        rw [keptAll_eq, filterMap_cons_some ihleft.1, filterMap_cons_some ihright.1, filterMap_nil]
      have hkept := kept_nary hpair (cons_ne_nil _ _) loc 0 op
      rw [← tree_of_not_logical hop] at hkept
      exact ⟨hkept, fun _ => keptAll_singleton hkept⟩
    | some o =>
      have hargs : keptAll (left.value.merged o ++ right.value.merged o) =
          (left.operands o ++ right.operands o).map tree := by
        rw [keptAll_eq, filterMap_append, ← keptAll_eq, ← keptAll_eq, ihleft.2, ihright.2,
          map_append]
      have hne : (left.operands o ++ right.operands o).map tree ≠ [] :=
        mt map_eq_nil_iff.mp (append_ne_nil_of_left_ne_nil (operands_ne_nil left o) _)
      have hkept := kept_nary hargs hne loc o op
      rw [← tree_of_logical hop] at hkept
      refine ⟨hkept, fun o' => ?_⟩
      by_cases hsame : o = o'
      · subst hsame
        simpa [TermVariant.merged] using hargs
      · simpa [TermVariant.merged, hsame] using keptAll_singleton hkept

/-! ## What a nesting means -/

section Meaning

variable (atom : RoseTree Label → Bool) (apply : RoseTree Label → List Bool → Bool)

/-- An operator on values: a conjunction or disjunction is a fold, others are arbitrary. -/
def meaning (op : RoseTree Label) (values : List Bool) : Bool :=
  match logical op with
  | some o => if o = ExpressionOperator.and.ctorIdx then values.all id else values.any id
  | none => apply op values

mutual

/-- A tree as a boolean function: an n-ary expression is its operator on its arguments. -/
def readTree : RoseTree Label → Bool
  | .node label [op, .node argsLabel args] =>
    if label.nodeType = .objectSqlNaryExpression then meaning apply op (readAll args)
    else atom (.node label [op, .node argsLabel args])
  | .node label children => atom (.node label children)

def readAll : List (RoseTree Label) → List Bool
  | [] => []
  | tree :: trees => readTree tree :: readAll trees

end

/-- A nesting as a boolean function: every operator on two values. -/
def eval : Nesting → Bool
  | leaf part => readTree atom apply part.tree
  | parens inner => inner.eval
  | binary _ op left right => meaning apply (operatorTree op.tree) [left.eval, right.eval]

theorem readAll_eq (trees : List (RoseTree Label)) :
    readAll atom apply trees = trees.map (readTree atom apply) := by
  induction trees with
  | nil => rfl
  | cons tree trees ih => rw [readAll, ih, map_cons]

theorem readTree_naryTree (loc : SymbolSpan) (op : RoseTree Label)
    (args : List (RoseTree Label)) : readTree atom apply (naryTree loc op args) =
      meaning apply (operatorTree op) (args.map (readTree atom apply)) := by
  rw [naryTree, readTree, if_pos rfl, readAll_eq]

variable {apply} {op : RoseTree Label} {o : ℕ} (hop : logical op = some o)

include hop

theorem logical_operatorTree : logical (operatorTree op) = some o := by
  rw [← hop]
  cases op
  rfl

theorem meaning_append (front back : List Bool) : meaning apply op (front ++ back) =
    meaning apply op [meaning apply op front, meaning apply op back] := by
  unfold meaning
  rw [hop]
  dsimp only
  split_ifs <;> simp

theorem meaning_singleton (value : Bool) : meaning apply op [value] = value := by
  unfold meaning
  rw [hop]
  dsimp only
  split_ifs <;> simp

theorem meaning_congr {other : RoseTree Label} (hother : logical other = some o) :
    meaning apply op = meaning apply other := by
  funext values
  rw [meaning, meaning, hop, hother]

end Meaning

/-- The tree of a nesting means what the nesting does, and so do its operands as a fold. -/
theorem readTree_tree (atom : RoseTree Label → Bool) (apply : RoseTree Label → List Bool → Bool)
    (e : Nesting) : readTree atom apply e.tree = e.eval atom apply ∧
      ∀ op o, logical op = some o →
        meaning apply op (((e.operands o).map tree).map (readTree atom apply)) =
          e.eval atom apply := by
  induction e with
  | leaf part => exact ⟨rfl, fun _ _ hop => meaning_singleton hop _⟩
  | parens inner ih => exact ⟨ih.1, fun _ _ hop => (meaning_singleton hop _).trans ih.1⟩
  | binary loc op left right ihleft ihright =>
    have hread : readTree atom apply (binary loc op left right).tree =
        (binary loc op left right).eval atom apply := by
      cases hop : logical op.tree with
      | none =>
        rw [tree_of_not_logical hop, readTree_naryTree, map_cons, map_singleton, ihleft.1,
          ihright.1]
        rfl
      | some o =>
        have hop' := logical_operatorTree hop
        rw [tree_of_logical hop, readTree_naryTree, map_append, map_append, meaning_append hop',
          ihleft.2 _ o hop', ihright.2 _ o hop']
        rfl
    refine ⟨hread, fun other o hother => ?_⟩
    unfold operands
    split_ifs with hsame
    · rw [map_append, map_append, meaning_append hother, ihleft.2 other o hother,
        ihright.2 other o hother, meaning_congr hother (logical_operatorTree hsame)]
      rfl
    · exact (meaning_singleton hother _).trans hread

/-- No operand is a pending expression of the operator itself. -/
theorem not_logical_of_mem_operands {e : Nesting} (hmem : binary loc op left right ∈ e.operands o) :
    logical op.tree ≠ some o := by
  induction e with
  | binary loc' op' left' right' ihleft ihright =>
    unfold operands at hmem
    split_ifs at hmem with hsame
    · exact (mem_append.mp hmem).elim ihleft ihright
    · obtain ⟨-, rfl, -⟩ := binary.inj (mem_singleton.mp hmem)
      exact hsame
  | _ => exact absurd (mem_singleton.mp hmem) (by simp)

end Nesting

/-- A part that is a node without children. -/
def Part.ofLeaf (node : Node) (hleaf : isLeaf node = true) (htype : node.nodeType ≠ .none) :
    Part where
  made := [.leaf node]
  term := .node ⟨node.label, false, false⟩ []
  tree := .node node.label []
  run_made t := by
    simp [run, step, hleaf, terms]
  kept_term := by
    rw [kept_node, if_neg]
    · rfl
    · rintro (hnone | ⟨-, hfalse⟩)
      · exact htype hnone
      · exact Bool.false_ne_true hfalse

def sign (offset : ℕ) (op : ExpressionOperator) : Part :=
  .ofLeaf { symbolSpan := ⟨offset, 1⟩, nodeType := .enumSqlExpressionOperator,
            childrenBeginOrValue := op.ctorIdx } rfl (by simp)

def literal (offset : ℕ) : Nesting :=
  .leaf (.ofLeaf { symbolSpan := ⟨offset, 1⟩, nodeType := .literalInteger } rfl (by simp))

/-- `1 and 2 and (3 or 4)`. -/
def threeOperands : Nesting :=
  .binary ⟨0, 9⟩ (sign 3 .and) (.binary ⟨0, 3⟩ (sign 1 .and) (literal 0) (literal 2))
    (.parens (.binary ⟨5, 3⟩ (sign 6 .or) (literal 5) (literal 7)))

end DashQL.Parser
