import DashQL.Library.Loops

/-!
# Parsing Hyper plans

A plan is a JSON document.  The parser goes through its values with an explicit stack: a value
stays on the stack while the values in it are visited, and an object with an operator is
emitted on the way up, as a child of the lowest operator that is still on the stack.

A reference to a value of the document is its address, the positions that lead to it from the
root, together with the value there.
-/

namespace DashQL.PlanView

abbrev Bytes := List UInt8

/-- A value of a parsed document.  Of a number, what `GetUint` reads. -/
inductive Json
  | null
  | bool (value : Bool)
  | number (uint : UInt32)
  | string (value : Bytes)
  | array (values : List Json)
  | object (members : List (Bytes × Json))

/-- Where a value stands in its document: from the outside to the inside, the index of an array
entry or of an object member. -/
abbrev Address := List ℕ

/-- A reference to a value of the document. -/
structure ValueRef where
  address : Address
  value : Json

inductive PathComponent
  | memberInObject (objectNode : ℕ) (name : Bytes)
  | entryInArray (arrayNode index : ℕ)
  | monostate

structure SymbolSpan where
  offset : UInt32
  length : UInt32
  deriving DecidableEq

/-- What `GetString` gives as a string view, which ends at the first zero. -/
def getString (string : Bytes) : Bytes := string.takeWhile (· ≠ 0)

def operatorKey : Bytes := "operator".toUTF8.toList
def debugNameKey : Bytes := "debugName".toUTF8.toList
def valueKey : Bytes := "value".toUTF8.toList
def sqlposKey : Bytes := "sqlpos".toUTF8.toList

/-- `ParsedOperatorNode`; the children are indices of the buffer of parsed operators. -/
structure ParsedOperatorNode where
  parentChildPath : List PathComponent
  sourceValue : ValueRef
  operatorType : Option Bytes
  operatorLabel : Option Bytes
  childOperators : List ℕ
  operatorAttributes : List (Bytes × ValueRef)
  sourceLocation : Option SymbolSpan

structure ParserDFSNode where
  jsonValue : ValueRef
  visited : Bool := false
  parentNodeIndex : Option ℕ
  parentPath : PathComponent
  operatorType : Option Bytes := none
  operatorLabel : Option Bytes := none
  attributes : List (Bytes × ValueRef) := []
  childOperators : List ℕ := []
  sourceLocation : Option SymbolSpan := none

/-- The loop of `findAncestor`; the fuel is the size of the stack. -/
def walkUpwards (nodes : List ParserDFSNode) :
    ℕ → ℕ → List PathComponent → Except String (Option ℕ × List PathComponent)
  | 0, _, _ => .error "the walk does not end"
  | fuel + 1, next, path =>
    match nodes[next]? with
    | none => .error "outside of the stack"
    | some node =>
      if node.operatorType.isSome then .ok (some next, path.reverse)
      else
        match node.parentNodeIndex with
        | none => .ok (none, path.reverse)
        | some parent => walkUpwards nodes fuel parent (path ++ [node.parentPath])

def findAncestor (nodes : List ParserDFSNode) (next : ℕ) :
    Except String (Option ℕ × List PathComponent) :=
  match nodes[next]? with
  | none => .error "outside of the stack"
  | some node =>
    match node.parentNodeIndex with
    | none => .ok (none, [])
    | some parent => walkUpwards nodes nodes.length parent [node.parentPath]

/-- `FindMember("value")` of a debug name, when it is a string. -/
def readDebugName (members : List (Bytes × Json)) : Option Bytes :=
  match members.lookup valueKey with
  | some (.string value) => some (getString value)
  | _ => none

/-- A position of `sqlpos`. -/
def readPosition : Json → UInt32
  | .number uint => uint
  | _ => 0

/-- The first range of `sqlpos`, when it is a pair. -/
def readSqlPos : List Json → Option SymbolSpan
  | .array [first, second] :: _ =>
    let posBegin := readPosition first
    let posEnd := readPosition second
    some ⟨posBegin, max posEnd posBegin - posBegin⟩
  | _ => none

/-- A member of the object at `currentIndex`: the node of the object, and the nodes that were
pushed for the members in front of it. -/
def readMember (currentIndex : ℕ) (address : Address)
    (state : ParserDFSNode × List ParserDFSNode) (member : (Bytes × Json) × ℕ) :
    ParserDFSNode × List ParserDFSNode :=
  let attributeName := getString member.1.1
  let descend :=
    ({ state.1 with
        attributes := state.1.attributes ++
          [(attributeName, ⟨address ++ [member.2], member.1.2⟩)] },
      state.2 ++
        [{ jsonValue := ⟨address ++ [member.2], member.1.2⟩
           parentNodeIndex := some currentIndex
           parentPath := .memberInObject currentIndex attributeName }])
  match member.1.2 with
  | .string value =>
    if attributeName = operatorKey then
      ({ state.1 with operatorType := some (getString value) }, state.2)
    else descend
  | .object members =>
    if attributeName = debugNameKey then
      ({ state.1 with
          operatorLabel := (readDebugName members).or state.1.operatorLabel }, state.2)
    else descend
  | .array values =>
    if attributeName = sqlposKey then
      ({ state.1 with
          sourceLocation := (readSqlPos values).or state.1.sourceLocation }, state.2)
    else descend
  | _ => descend

/-- The variables of `ParseHyperPlan`; the stack has its top at the end. -/
structure ParseState where
  pending : List ParserDFSNode
  parsedOperators : List ParsedOperatorNode := []
  rootOperators : List ℕ := []
  childEdgeCount : ℕ := 0

/-- The first visit of the node on top of the stack: what it becomes, and the nodes that are
pushed on it. -/
def expand (current : ParserDFSNode) (currentIndex : ℕ) : ParserDFSNode × List ParserDFSNode :=
  let current := { current with visited := true }
  let address := current.jsonValue.address
  match current.jsonValue.value with
  | .object members =>
    let state := members.zipIdx.foldl (readMember currentIndex address) (current, [])
    (state.1, state.2.reverse)
  | .array values =>
    (current, (values.zipIdx.map fun entry =>
      { jsonValue := ⟨address ++ [entry.2], entry.1⟩
        parentNodeIndex := some currentIndex
        parentPath := .entryInArray currentIndex entry.2 }).reverse)
  | _ => (current, [])

/-- The second visit of the node on top of the stack, which stays there. -/
def emit (state : ParseState) (current : ParserDFSNode) (currentIndex : ℕ) :
    Except String ParseState :=
  if current.operatorType.isSome then
    match findAncestor state.pending currentIndex with
    | .error error => .error error
    | .ok (ancestor, ancestorPath) =>
      let op := state.parsedOperators.length
      let emitted : ParseState := { state with
        parsedOperators := state.parsedOperators ++
          [{ parentChildPath := ancestorPath
             sourceValue := current.jsonValue
             operatorType := current.operatorType
             operatorLabel := current.operatorLabel
             childOperators := current.childOperators
             operatorAttributes := current.attributes
             sourceLocation := current.sourceLocation }]
        childEdgeCount := state.childEdgeCount + current.childOperators.length }
      match ancestor with
      | some ancestor =>
        .ok { emitted with
          pending := emitted.pending.modify ancestor fun node =>
            { node with childOperators := node.childOperators ++ [op] } }
      | none => .ok { emitted with rootOperators := emitted.rootOperators ++ [op] }
  else .ok state

/-- A round of the loop. -/
def parseStep (state : ParseState) : Except String ParseState :=
  match state.pending.getLast? with
  | none => .error "the stack is empty"
  | some current =>
    let currentIndex := state.pending.length - 1
    if current.visited then
      match emit state current currentIndex with
      | .error error => .error error
      | .ok state => .ok { state with pending := state.pending.dropLast }
    else
      let expanded := expand current currentIndex
      .ok { state with pending := state.pending.dropLast ++ [expanded.1] ++ expanded.2 }

/-- The condition of the loop. -/
def isPending (state : ParseState) : Bool := !state.pending.isEmpty

/-- The variables in front of the loop. -/
def startParse (document : Json) : ParseState where
  pending := [{ jsonValue := ⟨[], document⟩, parentNodeIndex := none, parentPath := .monostate }]

end DashQL.PlanView
