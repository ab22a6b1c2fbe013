import DashQL.Parser.ParseContext

/-!
# Script snippets

A snippet is a copy of the tree of one node: the text of the node, its nodes with spans
that count bytes of that text, and the names that occur in it.

The nodes are copied from the root down, so that children stand behind their parents, and
the copy is reversed at the end.  Only the nodes that may have a range of children are
patched then, and by their types these are the ones from `OBJECT_KEYS_` on, the
`ENUM_VIS_*` types among them.
-/

namespace DashQL.Snippet

open DashQL.Parser (Node noParent)
open ScriptDiff (NodeType SymbolSpan TextSpan ParsedScript typeId hasChildren)

inductive SemanticNodeMarkerType
  | none | columnReference | literalNull | literalInteger | literalFloat | literalString
  | literalInterval | constantExpression | constantExpressionRoot | columnTransform
  | columnTransformRoot | columnRestriction | tableReference | resultTarget
  deriving DecidableEq

/-- A parsed script.  The grammar actions make leaves without children. -/
structure SourceScript extends ParsedScript where
  leaves : ∀ node ∈ nodes, hasChildren node.nodeType = false → node.childrenCount = 0

structure ScriptSnippet where
  text : List UInt8 := []
  names : List (List UInt8) := []
  nodes : List Node := []
  rootNodeId : ℕ := 0
  nodeMarkers : List SemanticNodeMarkerType := []

/-- The types whose nodes are taken to have a range of children. -/
def hasChildRange (nodeType : NodeType) : Bool :=
  typeId .objectKeys ≤ typeId nodeType || nodeType = .array

/-- The variables of `ScriptSnippet::Extract`; the stack has its top in front. -/
structure Extraction where
  nodes : List Node
  names : List (List UInt8) := []
  translatedNamesById : List (ℕ × ℕ) := []
  nodeMarkers : List (ℕ × SemanticNodeMarkerType) := []
  pending : List (ℕ × ℕ)

section Extract

variable (script : SourceScript) (markers : List SemanticNodeMarkerType) (root : ℕ)

def rootSpan : TextSpan := script.scannedScript.resolveTextSpan (script.node root).symbolSpan

def patchLocation (span : SymbolSpan) : SymbolSpan :=
  let textSpan := script.scannedScript.resolveTextSpan span
  ⟨textSpan.offset - (rootSpan script root).offset, textSpan.length⟩

def copyNode (node : ScriptDiff.Node) (attributeKey parent : ℕ) : Node :=
  { node with
    symbolSpan := patchLocation script root node.symbolSpan
    attributeKey := attributeKey
    parent := parent }

/-- The variables in front of the loop. -/
def startExtraction : Extraction where
  nodes := [copyNode script root (script.node root) 0 0]
  pending := [(root, 0)]

def mutateChildrenBeginOrValue (value index : ℕ) (nodes : List Node) : List Node :=
  nodes.modify index fun node => { node with childrenBeginOrValue := value }

/-- The children of a node in the order in which they are copied: the last one comes
first. -/
def reversedChildren (node : ScriptDiff.Node) : List ℕ :=
  (ParsedScript.childRange node).reverse

/-- A round of the loop, for the pair on top of the stack. -/
def visit (state : Extraction) (source output : ℕ) (pending : List (ℕ × ℕ)) : Extraction :=
  let marker := markers.getD source .none
  let nodeMarkers :=
    if marker ≠ .none then state.nodeMarkers ++ [(output, marker)] else state.nodeMarkers
  let node := script.node source
  if node.nodeType = .name then
    match state.translatedNamesById.lookup node.childrenBeginOrValue with
    | some translated =>
      { state with
        nodes := mutateChildrenBeginOrValue translated output state.nodes
        nodeMarkers := nodeMarkers
        pending := pending }
    | none =>
      { nodes := mutateChildrenBeginOrValue state.names.length output state.nodes
        names := state.names ++ [script.nameText node]
        translatedNamesById :=
          (node.childrenBeginOrValue, state.names.length) :: state.translatedNamesById
        nodeMarkers := nodeMarkers
        pending := pending }
  else if hasChildRange node.nodeType then
    let children := reversedChildren node
    let begin := state.nodes.length
    { state with
      nodes := mutateChildrenBeginOrValue begin output state.nodes ++
        children.map fun child =>
          copyNode script root (script.node child) (script.node child).attributeKey output
      nodeMarkers := nodeMarkers
      pending := (children.zip (List.range' begin children.length)).reverse ++ pending }
  else { state with nodeMarkers := nodeMarkers, pending := pending }

/-- The loop; without fuel it has not ended. -/
def extractLoop : ℕ → Extraction → Option Extraction
  | 0, _ => none
  | fuel + 1, state =>
    match state.pending with
    | [] => some state
    | entry :: pending =>
      extractLoop fuel (visit script markers root state entry.1 entry.2 pending)

end Extract

/-- What reversing the nodes does to a node that may have children. -/
def patchNode (size : ℕ) (node : Node) : Node :=
  if hasChildRange node.nodeType then
    { node with
      parent := size - 1 - node.parent
      childrenBeginOrValue := size - node.childrenBeginOrValue - node.childrenCount }
  else node

/-- A round of the loop that scans the nodes from both sides. -/
def reverseStep (nodes : List Node) (left : ℕ) : List Node :=
  let right := nodes.length - 1 - left
  match nodes[left]?, nodes[right]? with
  | some first, some last =>
    (nodes.set left (patchNode nodes.length last)).set right (patchNode nodes.length first)
  | _, _ => nodes

def reverseNodes (nodes : List Node) : List Node :=
  let swapped := (List.range (nodes.length / 2)).foldl reverseStep nodes
  if nodes.length % 2 = 1 then
    swapped.modify (nodes.length / 2) (patchNode nodes.length)
  else swapped

/-- What is done after the loop. -/
def finish (text : List UInt8) (state : Extraction) : ScriptSnippet :=
  let nodes := reverseNodes state.nodes
  { text := text
    names := state.names
    nodes := nodes.modify (nodes.length - 1) fun node => { node with parent := noParent }
    rootNodeId := nodes.length - 1
    nodeMarkers := state.nodeMarkers.foldl
      (fun markers entry => markers.set (nodes.length - 1 - entry.1) entry.2)
      (List.replicate nodes.length .none) }

def extract (text : List UInt8) (script : SourceScript) (markers : List SemanticNodeMarkerType)
    (root fuel : ℕ) : Option ScriptSnippet :=
  if script.nodes.length ≤ root then some {}
  else
    let span := rootSpan script root
    (extractLoop script markers root fuel (startExtraction script root)).map
      (finish ((text.drop span.offset).take span.length))

namespace ScriptSnippet

variable (snippet : ScriptSnippet)

def nodeText (node : Node) : List UInt8 :=
  (snippet.text.drop node.symbolSpan.offset).take node.symbolSpan.length

def nameText (node : Node) : List UInt8 := snippet.names.getD node.childrenBeginOrValue []

end ScriptSnippet

def childIndices (node : Node) : List ℕ :=
  if hasChildren node.nodeType then ParsedScript.childRange node.toNode else []

end DashQL.Snippet
