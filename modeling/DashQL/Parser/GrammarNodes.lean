import DashQL.Parser.NodeRanges

/-!
# The fields of a vararg path

`VarArgField` goes through a key path from its last key to the first one.  Every round adds a key
and a value below a new object; the value should be the object of the round before, and is the value
that the field was given.  So the objects of all keys but the first one are lost
(`buildsNested_iff`).

What the buffer holds is compared without the parents, which are set later.
-/

namespace DashQL.Parser

open List

open ScriptDiff (SymbolSpan hasChildren)

def extVarargFieldKey : ℕ := 224

def extVarargFieldValue : ℕ := 225

/-- `VarArgField`: the path is gone through from its back. -/
def varArgField (ctx : ParseContext) (loc : SymbolSpan) (path : List Node) (value : Node) :
    ParseContext × Node :=
  path.foldr (fun key done => done.1.object loc .objectExtVarargField
    [attr extVarargFieldKey key, attr extVarargFieldValue value] true false) (ctx, value)

/-! ## What is claimed -/

/-- The nodes of the buffer without their parents. -/
def ParseContext.bareNodes (ctx : ParseContext) : List ScriptDiff.Node := ctx.nodes.map Node.toNode

/-- Following the values from a node yields the keys of a path, and then a value. -/
def Follows (nodes : List ScriptDiff.Node) (value : ScriptDiff.Node) :
    List ScriptDiff.Node → ScriptDiff.Node → Prop
  | [], node => { node with attributeKey := value.attributeKey } = value
  | key :: path, node =>
    node.nodeType = .objectExtVarargField ∧ node.childrenCount = 2 ∧
      nodes[node.childrenBeginOrValue]? = some { key with attributeKey := extVarargFieldKey } ∧
      ∃ next, nodes[node.childrenBeginOrValue + 1]? = some next ∧
        next.attributeKey = extVarargFieldValue ∧ Follows nodes value path next

inductive Below (nodes : List ScriptDiff.Node) : ScriptDiff.Node → ℕ → Prop
  | child {node : ScriptDiff.Node} {i : ℕ} (hhas : hasChildren node.nodeType = true)
      (hi : i ∈ List.range' node.childrenBeginOrValue node.childrenCount) : Below nodes node i
  | next {node child : ScriptDiff.Node} {i j : ℕ} (h : Below nodes node j)
      (hchild : nodes[j]? = some child) (hi : Below nodes child i) : Below nodes node i

def isValueOf (value : Node) (node : ScriptDiff.Node) : Bool :=
  node.attributeKey = extVarargFieldValue && node.symbolSpan = value.symbolSpan &&
    node.nodeType = value.nodeType && node.childrenBeginOrValue = value.childrenBeginOrValue &&
    node.childrenCount = value.childrenCount

/-- The nested object of a path: the keys in order and then the value, every new node below the
result, and the value in one place. -/
def BuildsNested (ctx : ParseContext) (loc : SymbolSpan) (path : List Node) (value : Node) : Prop :=
  let built := varArgField ctx loc path value
  Follows built.1.bareNodes value.toNode (path.map Node.toNode) built.2.toNode ∧
    (∀ i, ctx.nodes.length ≤ i → i < built.1.nodes.length →
      Below built.1.bareNodes built.2.toNode i) ∧
    (built.1.bareNodes.drop ctx.nodes.length).countP (isValueOf value) = 1

/-! ## What a round adds -/

variable {ctx : ParseContext} {loc : SymbolSpan} {path : List Node} {key value : Node}

theorem bareNodes_addNode (ctx : ParseContext) (n : Node) :
    (ctx.addNode n).1.bareNodes = ctx.bareNodes ++ [n.toNode] := by
  unfold ParseContext.addNode ParseContext.bareNodes forEachIn
  dsimp only
  split
  · apply ext_getElem
    · simp
    · intro i hi hi'
      simp only [getElem_map, getElem_mapIdx, ← map_singleton (f := Node.toNode), ← map_append]
      split <;> simp [getElem_append] <;> split <;> rfl
  · simp

/-- What a round adds: the key, and the value unless it is NONE. -/
def addedBy (value key : Node) : List ScriptDiff.Node :=
  (attr extVarargFieldKey key).toNode ::
    if value.nodeType = .none then [] else [(attr extVarargFieldValue value).toNode]

theorem object_field (ctx : ParseContext) (loc : SymbolSpan) (hkey : key.nodeType ≠ .none) :
    let built := ctx.object loc .objectExtVarargField
      [attr extVarargFieldKey key, attr extVarargFieldValue value] true false
    built.1.bareNodes = ctx.bareNodes ++ addedBy value key ∧
      built.2 = { symbolSpan := loc, nodeType := .objectExtVarargField,
                  childrenBeginOrValue := ctx.nodes.length
                  childrenCount := (addedBy value key).length } := by
  have hkey' : (attr extVarargFieldKey key).nodeType ≠ .none := hkey
  by_cases hvalue : value.nodeType = .none
  · have hvalue' : (attr extVarargFieldValue value).nodeType = .none := hvalue
    simp only [ParseContext.object, ParseContext.addContainer, ParseContext.addChildren,
      foldl_cons, foldl_nil, if_neg hkey', if_pos hvalue', length_addNode, addedBy,
      if_pos hvalue]
    simp [bareNodes_addNode]
  · have hvalue' : (attr extVarargFieldValue value).nodeType ≠ .none := hvalue
    have htwo : ctx.nodes.length + 1 + 1 - ctx.nodes.length = 2 := by omega
    simp only [ParseContext.object, ParseContext.addContainer, ParseContext.addChildren,
      foldl_cons, foldl_nil, if_neg hkey', if_neg hvalue', length_addNode, addedBy,
      if_neg hvalue, htwo]
    simp [bareNodes_addNode]

/-- All rounds together, from the last key to the first one. -/
theorem bareNodes_varArgField (hkeys : ∀ key ∈ path, key.nodeType ≠ .none) :
    (varArgField ctx loc path value).1.bareNodes =
      ctx.bareNodes ++ path.reverse.flatMap (addedBy value) := by
  induction path with
  | nil => exact (append_nil _).symm
  | cons key path ih =>
    have hround := (@object_field key value (varArgField ctx loc path value).1 loc
      (hkeys key mem_cons_self)).1
    rw [ih fun other hother => hkeys other (mem_cons_of_mem _ hother)] at hround
    rw [reverse_cons, flatMap_append, flatMap_singleton, ← append_assoc]
    exact hround

theorem countP_addedBy (value key : Node) :
    (addedBy value key).countP (isValueOf value) = if value.nodeType = .none then 0 else 1 := by
  have hkey : isValueOf value (attr extVarargFieldKey key).toNode = false := by
    simp [isValueOf, attr, extVarargFieldKey, extVarargFieldValue]
  have hvalue : isValueOf value (attr extVarargFieldValue value).toNode = true := by
    simp [isValueOf, attr]
  unfold addedBy
  split_ifs <;> simp [hkey, hvalue]

/-- Every round attaches the value once more. -/
theorem countP_flatMap_addedBy (value : Node) (path : List Node) :
    (path.flatMap (addedBy value)).countP (isValueOf value) =
      if value.nodeType = .none then 0 else path.length := by
  rw [List.countP_flatMap]
  simp only [Function.comp_def, countP_addedBy]
  split_ifs <;> simp

/-! ## Where the object is nested rightly -/

/-- A field with one key is built as claimed. -/
theorem buildsNested_singleton (hkey : key.nodeType ≠ .none) (hvalue : value.nodeType ≠ .none) :
    BuildsNested ctx loc [key] value := by
  obtain ⟨hnodes, hobject⟩ := @object_field key value ctx loc hkey
  have hlength : ctx.bareNodes.length = ctx.nodes.length := length_map _
  have hadded : addedBy value key =
      [(attr extVarargFieldKey key).toNode, (attr extVarargFieldValue value).toNode] := by
    rw [addedBy, if_neg hvalue]
  have hcount := countP_addedBy value key
  rw [hadded] at hnodes hobject hcount
  rw [if_neg hvalue] at hcount
  have hbuilt : varArgField ctx loc [key] value = ctx.object loc .objectExtVarargField
      [attr extVarargFieldKey key, attr extVarargFieldValue value] true false := rfl
  unfold BuildsNested
  dsimp only
  rw [hbuilt, hnodes, hobject]
  refine ⟨⟨rfl, rfl, ?_, (attr extVarargFieldValue value).toNode, ?_, rfl, rfl⟩, ?_, ?_⟩
  · rw [getElem?_append_right hlength.le, hlength, Nat.sub_self]
    rfl
  · show (ctx.bareNodes ++ _)[ctx.nodes.length + 1]? = _
    rw [getElem?_append_right (by omega), hlength, Nat.add_sub_cancel_left]
    rfl
  · intro i hle hlt
    refine .child rfl (mem_range'_1.mpr ⟨hle, ?_⟩)
    have htotal := congrArg List.length hnodes
    rw [ParseContext.bareNodes, length_map, length_append, hlength] at htotal
    exact hlt.trans_le htotal.le
  · rw [← hlength, drop_left]
    exact hcount

/-- A vararg field is nested as claimed exactly if its path has one key and its value is a node. -/
theorem buildsNested_iff (ctx : ParseContext) (loc : SymbolSpan) (path : List Node) (value : Node)
    (hkeys : ∀ key ∈ path, key.nodeType ≠ .none) :
    BuildsNested ctx loc path value ↔ path.length = 1 ∧ value.nodeType ≠ .none := by
  constructor
  · rintro ⟨-, -, hcount⟩
    rw [bareNodes_varArgField hkeys, ← ctx.nodes.length_map (f := Node.toNode),
      ParseContext.bareNodes, drop_left, countP_flatMap_addedBy, length_reverse] at hcount
    split_ifs at hcount with hvalue
    exact ⟨hcount, hvalue⟩
  · intro h
    obtain ⟨key, rfl⟩ := length_eq_one_iff.mp h.1
    exact buildsNested_singleton (hkeys key mem_cons_self) h.2

/-- `a = 1`. -/
theorem field_of_one_key :
    BuildsNested {} ⟨0, 3⟩ [{ nodeType := .name, symbolSpan := ⟨0, 1⟩ }]
      { nodeType := .literalInteger, symbolSpan := ⟨2, 1⟩ } :=
  (buildsNested_iff _ _ _ _ (by decide)).mpr ⟨rfl, by decide⟩

/-- `a.b = 1`: the object of `b` is lost, and the value is attached twice. -/
theorem inner_field_lost :
    ¬ BuildsNested {} ⟨0, 5⟩
      [{ nodeType := .name, symbolSpan := ⟨0, 1⟩ },
        { nodeType := .name, symbolSpan := ⟨2, 1⟩, childrenBeginOrValue := 1 }]
      { nodeType := .literalInteger, symbolSpan := ⟨4, 1⟩ } := by
  rintro ⟨-, -, hcount⟩
  exact absurd hcount (by decide)

end DashQL.Parser
