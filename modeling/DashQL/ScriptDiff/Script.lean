import DashQL.Library.Branching

/-!
# Parsed scripts

The part of a parsed script that the statement diff reads: a flat buffer of
nodes in which the children of a node stand in one range in front of it, the
roots of the statements, and the scanned text with its symbols and names.

Spans of nodes count symbols and have to be resolved through the scanned script
before they say anything about the text.
-/

namespace DashQL.ScriptDiff

inductive NodeType
  | none | operator | name | bool | array | literalNull | literalInteger | literalFloat
  | literalString | literalInterval | enumKeys | enumSqlCharacterType | enumSqlColumnConstraint
  | enumSqlCombineModifier | enumSqlCombineOperation | enumSqlConstraintAttribute
  | enumSqlConstType | enumSqlExpressionOperator | enumSqlExtractTarget | enumSqlGroupByItemType
  | enumSqlIntervalType | enumSqlJoinType | enumSqlKeyActionCommand | enumSqlKeyActionTrigger
  | enumSqlKeyMatch | enumSqlKnownFunction | enumSqlNumericType | enumSqlOnCommitOption
  | enumSqlOrderDirection | enumSqlOrderNullRule | enumSqlRowLockingBlockBehavior
  | enumSqlRowLockingStrength | enumSqlSampleUnitType | enumSqlSubqueryQuantifier
  | enumSqlTableConstraint | enumSqlTempType | enumSqlTrimTarget | enumSqlWindowBoundDirection
  | enumSqlWindowBoundMode | enumSqlWindowExclusionMode | enumSqlWindowRangeMode | objectKeys
  | objectSqlAlias | objectSqlBitType | objectSqlCase | objectSqlCaseClause
  | objectSqlCharacterType | objectSqlColumnConstraint | objectSqlColumnDef | objectSqlColumnRef
  | objectSqlCombine | objectSqlConstFunctionCast | objectSqlConstIntervalCast
  | objectSqlConstTypeCast | objectSqlCreate | objectSqlCreateAs | objectSqlCte
  | objectSqlDefArg | objectSqlExistsExpression | objectSqlFunctionArg
  | objectSqlFunctionCastArgs | objectSqlFunctionExpression | objectSqlFunctionExtractArgs
  | objectSqlFunctionOverlayArgs | objectSqlFunctionPositionArgs
  | objectSqlFunctionSubstringArgs | objectSqlFunctionTable | objectSqlFunctionTreatArgs
  | objectSqlFunctionTrimArgs | objectSqlGenericOption | objectSqlGenericType
  | objectSqlGroupByItem | objectSqlIndirection | objectSqlIndirectionIndex
  | objectSqlIndirectionStar | objectSqlIntervalType | objectSqlInto | objectSqlJoinedTable
  | objectSqlKeyAction | objectSqlLambdaExpression | objectSqlNaryExpression
  | objectSqlNumericType | objectSqlOrder | objectSqlParameterRef | objectSqlQualifiedName
  | objectSqlQualifiedOperator | objectSqlRelationExpr | objectSqlResultTarget
  | objectSqlRowsfromItem | objectSqlRowLocking | objectSqlSelect | objectSqlSelectExpression
  | objectSqlSelectSample | objectSqlSubqueryExpression | objectSqlTableref
  | objectSqlTablerefSample | objectSqlTableConstraint | objectSqlTimestampType
  | objectSqlTimeType | objectSqlTypecastExpression | objectSqlTypename
  | objectSqlTypetestExpression | objectSqlView | objectSqlCreateFunction
  | objectSqlFunctionParam | objectSqlWindowBound | objectSqlWindowDef | objectSqlWindowFrame
  | objectSqlWith | objectExtExplain | objectExtSet | objectExtTrailingDot
  | objectExtVarargArray | objectExtVarargField | enumVisEncodingChannel | enumVisMarkType
  | enumVisFieldType | enumVisScaleType | visObjectKeys | objectVisVisualise | objectVisSpec
  | objectVisMark | objectVisEncoding | objectVisFieldDef | objectVisScale | objectVisAxis
  | objectVisLegend | objectVisUmapSpec
  deriving DecidableEq

structure SymbolSpan where
  offset : ℕ
  length : ℕ
  deriving DecidableEq

structure TextSpan where
  offset : ℕ
  length : ℕ
  deriving DecidableEq

/-- A node of the buffer.  The attribute key is kept by its numeric value, the
only thing the diff compares it by. -/
structure Node where
  symbolSpan : SymbolSpan := ⟨0, 0⟩
  nodeType : NodeType := .none
  attributeKey : ℕ := 0
  childrenBeginOrValue : ℕ := 0
  childrenCount : ℕ := 0

/-- What `switch (node_type)` of the traversals tells apart. -/
inductive NodeKind
  | none | bool | name | text | array | object | enum | marker
  deriving DecidableEq

/-! ## Classifying node types -/

/-- `typeId`: the numeric value of a node type. -/
def typeId (nodeType : NodeType) : ℕ := nodeType.ctorIdx

/-- `isEnumType`.  The `ENUM_VIS_*` values stand behind the objects. -/
def isEnumType (nodeType : NodeType) : Bool :=
  (typeId .enumKeys < typeId nodeType && typeId nodeType < typeId .objectKeys) ||
    (typeId .enumVisEncodingChannel ≤ typeId nodeType && typeId nodeType ≤ typeId .enumVisScaleType)

def isObjectType (nodeType : NodeType) : Bool :=
  (typeId .objectKeys < typeId nodeType && typeId nodeType < typeId .enumVisEncodingChannel) ||
    typeId .visObjectKeys < typeId nodeType

def hasChildren (nodeType : NodeType) : Bool :=
  nodeType = .array || isObjectType nodeType

def nodeKind : NodeType → NodeKind
  | .none => .none
  | .bool => .bool
  | .name => .name
  | .operator | .literalNull | .literalInteger | .literalFloat | .literalString
  | .literalInterval => .text
  | .array => .array
  | nodeType =>
    if isObjectType nodeType then .object
    else if isEnumType nodeType then .enum
    else .marker

theorem hasChildren_iff (nodeType : NodeType) :
    hasChildren nodeType = true ↔ nodeKind nodeType = .array ∨ nodeKind nodeType = .object := by
  cases nodeType <;> decide

/-! ## Scanned text -/

/-- The scanned script: the text buffer with its two trailing zero bytes, the
locations of the symbols, and the registered names by their id. -/
structure ScannedScript where
  textBuffer : List UInt8
  symbols : List TextSpan
  names : List (List UInt8)

namespace ScannedScript

variable (scan : ScannedScript)

def symbol (index : ℕ) : TextSpan := scan.symbols.getD index ⟨0, 0⟩

def resolveTextSpan (span : SymbolSpan) : TextSpan :=
  if span.length = 0 then
    if scan.symbols.length ≤ span.offset then
      ⟨if 2 < scan.textBuffer.length then scan.textBuffer.length - 2 else 0, 0⟩
    else ⟨(scan.symbol span.offset).offset, 0⟩
  else
    let first := scan.symbol span.offset
    let last := scan.symbol (span.offset + span.length - 1)
    ⟨first.offset, last.offset + last.length - first.offset⟩

def readTextAtTextSpan (span : TextSpan) : List UInt8 :=
  (scan.textBuffer.drop span.offset).take span.length

def readTextAtSymbolSpan (span : SymbolSpan) : List UInt8 :=
  scan.readTextAtTextSpan (scan.resolveTextSpan span)

end ScannedScript

/-! ## Parsed scripts -/

/-- A statement.  The root of a statement that error recovery left without a
tree is no node of the buffer. -/
structure Statement where
  root : ℕ

/-- A parsed script.  The parser adds the children of a node before the node, in
one range. -/
structure ParsedScript where
  scannedScript : ScannedScript
  nodes : List Node
  statements : List Statement
  children_below : ∀ id, (h : id < nodes.length) → hasChildren nodes[id].nodeType →
    nodes[id].childrenBeginOrValue + nodes[id].childrenCount ≤ id

namespace ParsedScript

variable (script : ParsedScript)

def node (id : ℕ) : Node := script.nodes.getD id {}

def keyId (id : ℕ) : ℕ := (script.node id).attributeKey

def nodeText (node : Node) : List UInt8 :=
  script.scannedScript.readTextAtSymbolSpan node.symbolSpan

def nameText (node : Node) : List UInt8 :=
  script.scannedScript.names.getD node.childrenBeginOrValue []

def resolveStatementSpan (statement : Statement) : TextSpan :=
  if script.nodes.length ≤ statement.root then ⟨0, 0⟩
  else script.scannedScript.resolveTextSpan (script.node statement.root).symbolSpan

def childRange (node : Node) : List ℕ :=
  List.range' node.childrenBeginOrValue node.childrenCount

def children (id : ℕ) : List ℕ :=
  if hasChildren (script.node id).nodeType then childRange (script.node id) else []

/-- `collectSortedChildren`: the children of an object by attribute key, with
duplicate keys in grammar order. -/
def collectSortedChildren (node : Node) : List ℕ :=
  (childRange node).insertionSort fun a b => script.keyId a ≤ script.keyId b

@[simp] theorem length_childRange (node : Node) :
    (childRange node).length = node.childrenCount := by
  simp [childRange]

theorem collectSortedChildren_perm (node : Node) :
    (script.collectSortedChildren node).Perm (childRange node) :=
  List.perm_insertionSort _ _

@[simp] theorem length_collectSortedChildren (node : Node) :
    (script.collectSortedChildren node).length = node.childrenCount := by
  rw [(script.collectSortedChildren_perm node).length_eq, length_childRange]

variable {script}

/-- Children stand in front of their node. -/
theorem lt_of_mem_children {id child : ℕ} (h : child ∈ script.children id) : child < id := by
  unfold children at h
  split at h
  · rename_i hchildren
    by_cases hid : id < script.nodes.length
    · have hnode : script.node id = script.nodes[id] := by
        simp [node, hid]
      rw [hnode] at h hchildren
      have hbelow := script.children_below id hid hchildren
      simp only [childRange, List.mem_range'_1] at h
      omega
    · have hnode : script.node id = {} := by
        simp [node, List.getElem?_eq_none (Nat.le_of_not_lt hid)]
      rw [hnode] at hchildren
      exact absurd hchildren (by decide)
  · simp at h

variable (script)

/-- The trees that the node buffer describes. -/
def tree : Branching ℕ where
  children := script.children
  rank := id
  rank_lt := lt_of_mem_children

/-- The number of nodes of a subtree. -/
def subtreeSize (id : ℕ) : ℕ := script.tree.size id

end ParsedScript

end DashQL.ScriptDiff
