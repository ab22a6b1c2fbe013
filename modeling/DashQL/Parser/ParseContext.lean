import DashQL.ScriptDiff.Script

/-!
# The parse context

The grammar actions build the nodes of a script bottom-up.  A node that an action returns
is not in the buffer of nodes yet, only its children are: they are added when an array or
an object takes them over, and get their parent when that one is added in turn.

The buffer is the list of the nodes in its chunks.  Of the context, the pools of temporary
lists and what does not concern nodes (errors, names, vis spans) are left out.
-/

namespace DashQL.Parser

open ScriptDiff (NodeType SymbolSpan typeId)

def noParent : ℕ := 4294967295

/-- `buffers::parser::Node`. -/
structure Node extends ScriptDiff.Node where
  parent : ℕ := noParent

/-- `buffers::parser::ExpressionOperator`, in the order of its numeric values. -/
inductive ExpressionOperator
  | default | negate | not | typecast | collate | atTimezone | plus | minus | multiply | divide
  | modulus | and | or | xor | glob | notGlob | isNull | like | ilike | similarTo | notNull
  | notLike | notIlike | notSimilarTo | isTrue | isFalse | isUnknown | isDistinctFrom | isOf
  | isNotTrue | isNotFalse | isNotUnknown | isNotDistinctFrom | isNotOf | equal | notEqual
  | greaterEqual | greaterThan | lessEqual | lessThan | betweenSymmetric | betweenAsymmetric
  | notBetweenSymmetric | notBetweenAsymmetric | isIn | notIn | overlaps
  deriving DecidableEq

inductive StatementType
  | none | createTable | createTableAs | createView | select | set | visVisualise
  | createFunction | explain
  deriving DecidableEq

def sqlExpressionArgs : ℕ := 56

def sqlExpressionOperator : ℕ := 57

/-- `ParsedScript::Statement`. -/
structure Statement where
  type : StatementType := .none
  root : ℕ := 4294967295
  nodesBegin : ℕ := 0
  nodeCount : ℕ := 0

/-- An expression whose conjunction or disjunction may still be flattened. -/
structure NAryExpression where
  location : SymbolSpan
  op : ℕ
  opNode : Node
  args : List Node

inductive ExpressionVariant
  | node (n : Node)
  | nary (e : NAryExpression)

structure ParseContext where
  nodes : List Node := []
  statements : List Statement := []
  currentStatement : Statement := {}

def attr (key : ℕ) (node : Node) : Node := { node with attributeKey := key }

def null : Node := {}

/-- Whether `AddNode` links the children of a node.  The test also holds of the
`ENUM_VIS_*` types, whose nodes have no children. -/
def linksChildren (nodeType : NodeType) : Bool :=
  nodeType = .array || typeId .objectKeys < typeId nodeType

/-- `ChunkBuffer::ForEachIn`, with the values that the function leaves. -/
def forEachIn {α : Type} (begin count : ℕ) (fn : α → α) (values : List α) : List α :=
  values.mapIdx fun i value => if begin ≤ i ∧ i < begin + count then fn value else value

namespace ParseContext

def addNode (ctx : ParseContext) (node : Node) : ParseContext × ℕ :=
  let nodeId := ctx.nodes.length
  let nodes := ctx.nodes ++ [{ node with parent := nodeId }]
  if linksChildren node.nodeType then
    ({ ctx with
        nodes := forEachIn node.childrenBeginOrValue node.childrenCount
          (fun n => { n with parent := nodeId }) nodes }, nodeId)
  else ({ ctx with nodes }, nodeId)

/-- The loop of `Array` and `Object` over the new children. -/
def addChildren (ctx : ParseContext) (values : List Node) : ParseContext :=
  values.foldl (fun ctx node => if node.nodeType = .none then ctx else (ctx.addNode node).1) ctx

/-- From the begin of the first node on to the end of the last one. -/
def shrink (ctx : ParseContext) (begin : ℕ) (loc : SymbolSpan) : SymbolSpan :=
  match ctx.nodes[begin]?, ctx.nodes.getLast? with
  | some first, some last =>
    ⟨first.symbolSpan.offset,
      last.symbolSpan.offset + last.symbolSpan.length - first.symbolSpan.offset⟩
  | _, _ => loc

/-- What `Array` and `Object` do, but for the type of the node. -/
def addContainer (ctx : ParseContext) (loc : SymbolSpan) (type : NodeType) (values : List Node)
    (nullIfEmpty shrinkLocation : Bool) : ParseContext × Node :=
  let begin := ctx.nodes.length
  let ctx' := ctx.addChildren values
  let n := ctx'.nodes.length - begin
  if n = 0 ∧ nullIfEmpty then (ctx', null)
  else
    (ctx', { symbolSpan := if 0 < n ∧ shrinkLocation then ctx'.shrink begin loc else loc
             nodeType := type, childrenBeginOrValue := begin, childrenCount := n })

def array (ctx : ParseContext) (loc : SymbolSpan) (values : List Node)
    (nullIfEmpty shrinkLocation : Bool) : ParseContext × Node :=
  ctx.addContainer loc .array values nullIfEmpty shrinkLocation

def object (ctx : ParseContext) (loc : SymbolSpan) (type : NodeType) (attrs : List Node)
    (nullIfEmpty shrinkLocation : Bool) : ParseContext × Node :=
  ctx.addContainer loc type attrs nullIfEmpty shrinkLocation

def expression (ctx : ParseContext) : ExpressionVariant → ParseContext × Node
  | .node n => (ctx, n)
  | .nary e =>
    let args := ctx.array e.location e.args true false
    args.1.object e.location .objectSqlNaryExpression
      [attr sqlExpressionOperator e.opNode, attr sqlExpressionArgs args.2] true false

/-- The loop of `Array` over expressions. -/
def expressions (ctx : ParseContext) (exprs : List ExpressionVariant) : ParseContext × List Node :=
  exprs.foldl (fun done expr =>
    let added := done.1.expression expr
    (added.1, done.2 ++ [added.2])) (ctx, [])

def arrayOf (ctx : ParseContext) (loc : SymbolSpan) (exprs : List ExpressionVariant)
    (nullIfEmpty shrinkLocation : Bool) : ParseContext × Node :=
  let nodes := ctx.expressions exprs
  nodes.1.array loc nodes.2 nullIfEmpty shrinkLocation

/-- An argument in the loop of `TryMerge`. -/
def mergeArg (op : ℕ) (done : ParseContext × List Node) (arg : ExpressionVariant) :
    ParseContext × List Node :=
  match arg with
  | .node n => (done.1, done.2 ++ [n])
  | .nary child =>
    if child.op ≠ op then
      let added := done.1.expression (.nary child)
      (added.1, done.2 ++ [added.2])
    else (done.1, done.2 ++ child.args)

def tryMerge (ctx : ParseContext) (loc : SymbolSpan) (opNode : Node)
    (args : List ExpressionVariant) : ParseContext × Option ExpressionVariant :=
  let op := opNode.childrenBeginOrValue
  if opNode.nodeType = .enumSqlExpressionOperator ∧
      (op = ExpressionOperator.and.ctorIdx ∨ op = ExpressionOperator.or.ctorIdx) then
    let merged := args.foldl (mergeArg op) (ctx, [])
    (merged.1, some (.nary ⟨loc, op, opNode, merged.2⟩))
  else (ctx, none)

def statementType : NodeType → StatementType
  | .objectExtSet => .set
  | .objectSqlCreateAs => .createTableAs
  | .objectSqlCreate => .createTable
  | .objectSqlView => .createView
  | .objectSqlCreateFunction => .createFunction
  | .objectSqlSelect => .select
  | .objectVisVisualise => .visVisualise
  | .objectExtExplain => .explain
  | _ => .none

def addStatement (ctx : ParseContext) (node : Node) : ParseContext :=
  if node.nodeType = .none then ctx
  else
    let added := ctx.addNode node
    let current := ctx.currentStatement
    { nodes := added.1.nodes
      statements := ctx.statements ++
        [{ type := statementType node.nodeType, root := added.2, nodesBegin := current.nodesBegin
           nodeCount := added.1.nodes.length - current.nodesBegin }]
      currentStatement := { nodesBegin := added.1.nodes.length } }

end ParseContext

end DashQL.Parser
