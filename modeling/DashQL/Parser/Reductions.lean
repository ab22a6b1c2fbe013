import DashQL.Library.RoseTrees
import DashQL.Parser.ParseContext

/-!
# Reductions

A parser keeps the values of the symbols that it has not reduced yet, and a grammar action
takes some of them and leaves a new one.  What the actions do is written once, over the
operations that they call (`Builder`): the parse context is one implementation of these,
and the trees that the actions describe are another one.

The values may be taken up in any order, but each of them once: no action drops a node or
uses it twice.
-/

namespace DashQL.Parser

open ScriptDiff (NodeType SymbolSpan hasChildren isObjectType)

/-- The operations that the grammar actions call, on a state, nodes and expressions. -/
structure Builder (σ N V : Type) where
  leaf : Node → N
  attr : ℕ → N → N
  variant : N → V
  array : σ → SymbolSpan → List N → Bool → Bool → σ × N
  object : σ → SymbolSpan → NodeType → List N → Bool → Bool → σ × N
  arrayOf : σ → SymbolSpan → List V → Bool → Bool → σ × N
  expression : σ → V → σ × N
  tryMerge : σ → SymbolSpan → N → List V → σ × Option V
  addStatement : σ → N → σ

inductive Value (N V : Type)
  | node (n : N)
  | list (ns : List N)
  | variant (v : V)

/-- What grammar actions are made of. -/
inductive Action
  | bring (i : ℕ)
  | leaf (node : Node)
  | attr (key : ℕ)
  | list
  | pushBack
  | pushFront
  | append
  | array (loc : SymbolSpan) (nullIfEmpty shrinkLocation : Bool)
  | object (loc : SymbolSpan) (type : NodeType) (nullIfEmpty shrinkLocation : Bool)
  | variant
  | arrayOf (count : ℕ) (loc : SymbolSpan) (nullIfEmpty shrinkLocation : Bool)
  | expression
  | tryMerge (count : ℕ) (loc : SymbolSpan)
  | addStatement

/-- A node that is made without children: NONE, a value, or the mark of a trailing dot. -/
def isLeaf (node : Node) : Bool :=
  node.childrenCount = 0 && (!hasChildren node.nodeType || node.childrenBeginOrValue = 0)

section Steps

variable {σ N V : Type}

def popNode : List (Value N V) → Option (N × List (Value N V))
  | .node n :: values => some (n, values)
  | _ => none

def popList : List (Value N V) → Option (List N × List (Value N V))
  | .list ns :: values => some (ns, values)
  | _ => none

def popVariant : List (Value N V) → Option (V × List (Value N V))
  | .variant v :: values => some (v, values)
  | _ => none

/-- A number of expressions, the last one on top. -/
def popVariants : ℕ → List (Value N V) → Option (List V × List (Value N V))
  | 0, values => some ([], values)
  | count + 1, values =>
    (popVariant values).bind fun top =>
      (popVariants count top.2).map fun popped => (popped.1 ++ [top.1], popped.2)

/-- A step of an action, if the values that it takes are there. -/
def step (b : Builder σ N V) (s : σ × List (Value N V)) : Action → Option (σ × List (Value N V))
  | .bring i => (s.2[i]?).map fun value => (s.1, value :: s.2.eraseIdx i)
  | .leaf node => if isLeaf node then some (s.1, .node (b.leaf node) :: s.2) else none
  | .attr key => (popNode s.2).map fun top => (s.1, .node (b.attr key top.1) :: top.2)
  | .list => some (s.1, .list [] :: s.2)
  | .pushBack =>
    (popNode s.2).bind fun top =>
      (popList top.2).map fun below => (s.1, .list (below.1 ++ [top.1]) :: below.2)
  | .pushFront =>
    (popNode s.2).bind fun top =>
      (popList top.2).map fun below => (s.1, .list (top.1 :: below.1) :: below.2)
  | .append =>
    (popList s.2).bind fun top =>
      (popList top.2).map fun below => (s.1, .list (below.1 ++ top.1) :: below.2)
  | .array loc nullIfEmpty shrinkLocation =>
    (popList s.2).map fun top =>
      let added := b.array s.1 loc top.1 nullIfEmpty shrinkLocation
      (added.1, .node added.2 :: top.2)
  | .object loc type nullIfEmpty shrinkLocation =>
    if isObjectType type then
      (popList s.2).map fun top =>
        let added := b.object s.1 loc type top.1 nullIfEmpty shrinkLocation
        (added.1, .node added.2 :: top.2)
    else none
  | .variant => (popNode s.2).map fun top => (s.1, .variant (b.variant top.1) :: top.2)
  | .arrayOf count loc nullIfEmpty shrinkLocation =>
    (popVariants count s.2).map fun popped =>
      let added := b.arrayOf s.1 loc popped.1 nullIfEmpty shrinkLocation
      (added.1, .node added.2 :: popped.2)
  | .expression =>
    (popVariant s.2).map fun top =>
      let added := b.expression s.1 top.1
      (added.1, .node added.2 :: top.2)
  | .tryMerge count loc =>
    (popNode s.2).bind fun top =>
      (popVariants count top.2).bind fun popped =>
        let merged := b.tryMerge s.1 loc top.1 popped.1
        merged.2.map fun v => (merged.1, .variant v :: popped.2)
  | .addStatement =>
    (popNode s.2).bind fun top =>
      if top.2.isEmpty then some (b.addStatement s.1 top.1, []) else none

def run (b : Builder σ N V) (s : σ × List (Value N V)) (actions : List Action) :
    Option (σ × List (Value N V)) :=
  actions.foldlM (step b) s

end Steps

/-! ## The parse context -/

def parseContext : Builder ParseContext Node ExpressionVariant where
  leaf := id
  attr := attr
  variant := .node
  array := ParseContext.array
  object := ParseContext.object
  arrayOf := ParseContext.arrayOf
  expression := ParseContext.expression
  tryMerge := ParseContext.tryMerge
  addStatement := ParseContext.addStatement

/-! ## The trees -/

/-- What a node is, but for its parent and the place of its children. -/
structure Label where
  symbolSpan : SymbolSpan
  nodeType : NodeType
  attributeKey : ℕ
  value : ℕ

def Node.label (n : Node) : Label where
  symbolSpan := n.symbolSpan
  nodeType := n.nodeType
  attributeKey := n.attributeKey
  value := if hasChildren n.nodeType then 0 else n.childrenBeginOrValue

/-- What an action asks for. -/
structure Request extends Label where
  nullIfEmpty : Bool := false
  shrinkLocation : Bool := false

/-- A tree as the actions build it, NONE nodes included. -/
abbrev Term := RoseTree Request

/-- An expression that may still be flattened. -/
inductive TermVariant
  | node (t : Term)
  | nary (location : SymbolSpan) (op : ℕ) (opTerm : Term) (args : List Term)

/-- A location that begins with the first tree and ends with the last one. -/
def shrunk (label : Label) (trees : List (RoseTree Label)) : Label :=
  match trees.head?, trees.getLast? with
  | some first, some last =>
    { label with
      symbolSpan := ⟨first.label.symbolSpan.offset,
        last.label.symbolSpan.offset + last.label.symbolSpan.length -
          first.label.symbolSpan.offset⟩ }
  | _, _ => label

mutual

/-- The tree without the NONE nodes in it, unless it is one. -/
def kept : Term → Option (RoseTree Label)
  | .node request children =>
    if request.nodeType = .none ∨ (keptAll children = [] ∧ request.nullIfEmpty) then none
    else
      some (.node
        (if request.shrinkLocation then shrunk request.toLabel (keptAll children)
          else request.toLabel)
        (keptAll children))

def keptAll : List Term → List (RoseTree Label)
  | [] => []
  | term :: terms => (kept term).toList ++ keptAll terms

end

/-- An array or object of terms. -/
def container (loc : SymbolSpan) (type : NodeType) (children : List Term)
    (nullIfEmpty shrinkLocation : Bool) : Term :=
  .node ⟨⟨loc, type, 0, 0⟩, nullIfEmpty, shrinkLocation⟩ children

def Term.attr (key : ℕ) (term : Term) : Term :=
  term.relabel fun request => { request with attributeKey := key }

namespace TermVariant

def expression : TermVariant → Term
  | .node t => t
  | .nary location _ opTerm args =>
    container location .objectSqlNaryExpression
      [.attr sqlExpressionOperator opTerm,
        .attr sqlExpressionArgs (container location .array args true false)] true false

/-- What an argument adds to the arguments of a conjunction or disjunction. -/
def merged (op : ℕ) : TermVariant → List Term
  | .node t => [t]
  | .nary location op' opTerm args =>
    if op' ≠ op then [(nary location op' opTerm args).expression] else args

end TermVariant

/-- The operator that a term stands for, if it is a conjunction or disjunction. -/
def mergeOperator (opTerm : Term) : Option ℕ :=
  (kept opTerm).bind fun tree =>
    if tree.label.nodeType = .enumSqlExpressionOperator ∧
        (tree.label.value = ExpressionOperator.and.ctorIdx ∨
          tree.label.value = ExpressionOperator.or.ctorIdx) then
      some tree.label.value
    else none

/-- The trees that the actions describe; the state has the trees of the statements. -/
def terms : Builder (List (RoseTree Label)) Term TermVariant where
  leaf node := .node ⟨node.label, false, false⟩ []
  attr := Term.attr
  variant := .node
  array s loc ts nullIfEmpty shrinkLocation :=
    (s, container loc .array ts nullIfEmpty shrinkLocation)
  object s loc type ts nullIfEmpty shrinkLocation :=
    (s, container loc type ts nullIfEmpty shrinkLocation)
  arrayOf s loc vs nullIfEmpty shrinkLocation :=
    (s, container loc .array (vs.map TermVariant.expression) nullIfEmpty shrinkLocation)
  expression s v := (s, v.expression)
  tryMerge s loc opTerm vs :=
    (s, (mergeOperator opTerm).map fun op =>
      .nary loc op opTerm (vs.flatMap (TermVariant.merged op)))
  addStatement s t := s ++ (kept t).toList

theorem keptAll_eq (ts : List Term) : keptAll ts = ts.filterMap kept := by
  induction ts with
  | nil => rfl
  | cons t ts ih =>
    show (kept t).toList ++ keptAll ts = _
    rw [ih, List.filterMap_cons]
    cases kept t <;> rfl

theorem kept_node (request : Request) (children : List Term) :
    kept (.node request children) =
      if request.nodeType = .none ∨ (keptAll children = [] ∧ request.nullIfEmpty) then none
      else
        some (.node
          (if request.shrinkLocation then shrunk request.toLabel (keptAll children)
            else request.toLabel)
          (keptAll children)) := rfl

end DashQL.Parser
