import DashQL.Library.PostOrder
import DashQL.View.HyperPlanParser

/-!
# The operators of a document

The parsed operators are visited once more from the roots, and on the way up the children of an
operator are written as a block.  An operator stands outside of the flat array until its own
parent is visited: it is kept in an unordered map, with the block of its children, and the
operators that are left in the map at the end are the roots, which follow in the order in which
the map is iterated.

The contraction of a document onto its operators: the forest whose nodes are the objects with
an operator, in document order, each below the nearest one that encloses it.  The values of a
`debugName` object and of a `sqlpos` array describe the object they are in, and what is in them
is not looked at.
-/

namespace DashQL.PlanView

open List Option

open RoseTree

/-! ## Flattening the operators -/

/-- `OperatorNode`; the span of the children is a range of the flat array. -/
structure OperatorNode where
  operatorId : ℕ := 0
  operatorType : Option Bytes
  operatorLabel : Option Bytes
  parentOperatorId : Option ℕ := none
  parentPath : List PathComponent
  sourceLocation : Option SymbolSpan
  sourceValue : ValueRef
  childrenBegin : ℕ
  childCount : ℕ
  operatorAttributes : List (Bytes × ValueRef)

def OperatorNode.childOperators (op : OperatorNode) : List ℕ :=
  List.range' op.childrenBegin op.childCount

/-- `OperatorNode(ParsedOperatorNode&&)`, with the span of the children. -/
def flatNode (parsed : ParsedOperatorNode) (childrenBegin childCount : ℕ) : OperatorNode where
  operatorType := parsed.operatorType
  operatorLabel := parsed.operatorLabel
  parentPath := parsed.parentChildPath
  sourceLocation := parsed.sourceLocation
  sourceValue := parsed.sourceValue
  childrenBegin := childrenBegin
  childCount := childCount
  operatorAttributes := parsed.operatorAttributes

/-- The variables of `FlattenOperators`; the stack has its top at the end. -/
structure FlattenState where
  pending : List (ℕ × Bool)
  operators : List OperatorNode := []
  mapped : List (ℕ × OperatorNode) := []

def OperatorNode.adopted (parent : ℕ) (op : OperatorNode) : OperatorNode :=
  { op with parentOperatorId := some parent }

def OperatorNode.placed (id : ℕ) (op : OperatorNode) : OperatorNode := { op with operatorId := id }

/-- An operator is written to the flat array, and its children get their parent. -/
def placeOperator (operators : List OperatorNode) (op : OperatorNode) : List OperatorNode :=
  (operators ++ [op.placed operators.length]).mapIdx fun i node =>
    if i ∈ op.childOperators then node.adopted operators.length else node

/-- The loop over the children of a visited operator.  The flat array must not grow beyond what
was reserved for it. -/
def placeChildren (capacity : ℕ) :
    List ℕ → List OperatorNode → List (ℕ × OperatorNode) →
      Except String (List OperatorNode × List (ℕ × OperatorNode))
  | [], operators, mapped => .ok (operators, mapped)
  | child :: children, operators, mapped =>
    match mapped.lookup child with
    | none => .error "the child is not mapped"
    | some op =>
      if operators.length < capacity then
        placeChildren capacity children (placeOperator operators op)
          (mapped.eraseP fun entry => entry.1 = child)
      else .error "the array is full"

/-- A round of the loop. -/
def flattenStep (parsedOps : List ParsedOperatorNode) (state : FlattenState) :
    Except String FlattenState :=
  match state.pending.getLast? with
  | none => .error "the stack is empty"
  | some (index, visited) =>
    match parsedOps[index]? with
    | none => .error "not a parsed operator"
    | some op =>
      if visited then
        match placeChildren parsedOps.length op.childOperators state.operators
            state.mapped with
        | .error error => .error error
        | .ok (operators, mapped) =>
          let childrenBegin := state.operators.length
          let flat := flatNode op childrenBegin (operators.length - childrenBegin)
          .ok
            { pending := state.pending.dropLast
              operators := operators
              mapped :=
                if mapped.any fun entry => entry.1 = index then mapped
                else mapped ++ [(index, flat)] }
      else
        .ok { state with
          pending := state.pending.dropLast ++ [(index, true)] ++
            (op.childOperators.map fun child => (child, false)).reverse }

/-- The condition of the loop. -/
def isFlattening (state : FlattenState) : Bool := !state.pending.isEmpty

/-- The variables in front of the loop. -/
def startFlatten (parsedRoots : List ℕ) : FlattenState where
  pending := (parsedRoots.map fun root => (root, false)).reverse

structure PlanViewModel where
  operators : List OperatorNode
  rootOperators : List ℕ

/-- The loop over the operators that are left in the map.  The spans of children stay valid as
long as the flat array does not grow beyond what was reserved for it. -/
def placeRoots (capacity : ℕ) :
    List OperatorNode → List OperatorNode → List ℕ → Except String PlanViewModel
  | [], operators, rootOperators => .ok ⟨operators, rootOperators⟩
  | op :: ops, operators, rootOperators =>
    if operators.length < capacity then
      placeRoots capacity ops (placeOperator operators op) (rootOperators ++ [operators.length])
    else .error "the array is full"

/-- The order in which an unordered map is iterated: every entry comes once. -/
structure IterationOrder where
  iterate : List (ℕ × OperatorNode) → List (ℕ × OperatorNode)
  perm : ∀ mapped, (iterate mapped).Perm mapped

/-- `ParseHyperPlan` up to and with `FlattenOperators`: the view model of a document, for a map
that is iterated in the given order. -/
def Flattens (order : IterationOrder) (document : Json) (view : PlanViewModel) : Prop :=
  ∃ parsed flattened,
    LoopEnds isPending parseStep (startParse document) parsed ∧
      LoopEnds isFlattening (flattenStep parsed.parsedOperators)
        (startFlatten parsed.rootOperators) flattened ∧
      placeRoots parsed.parsedOperators.length ((order.iterate flattened.mapped).map Prod.snd)
        flattened.operators [] = .ok view

/-! ## Values in a document -/

def operatorMember (member : Bytes × Json) : Option Bytes :=
  match member.2 with
  | .string value => if getString member.1 = operatorKey then some (getString value) else none
  | _ => none

def labelMember (member : Bytes × Json) : Option Bytes :=
  match member.2 with
  | .object members => if getString member.1 = debugNameKey then readDebugName members else none
  | _ => none

/-- The source location that a member gives. -/
def locationMember (member : Bytes × Json) : Option SymbolSpan :=
  match member.2 with
  | .array values => if getString member.1 = sqlposKey then readSqlPos values else none
  | _ => none

/-- A member whose value is an attribute of the object. -/
def isAttribute (member : Bytes × Json) : Bool :=
  match member.2 with
  | .string _ => getString member.1 ≠ operatorKey
  | .object _ => getString member.1 ≠ debugNameKey
  | .array _ => getString member.1 ≠ sqlposKey
  | _ => true

namespace Json

/-- The values in a value, with their positions. -/
def entries : Json → List (Json × ℕ)
  | .array values => values.zipIdx
  | .object members => members.zipIdx.map fun member => (member.1.2, member.2)
  | _ => []

/-- The values in a value that are looked at. -/
def visible : Json → List (Json × ℕ)
  | .array values => values.zipIdx
  | .object members =>
    (members.zipIdx.filter fun member => isAttribute member.1).map fun member =>
      (member.1.2, member.2)
  | _ => []

/-- The operator of an object: the last of its members counts. -/
def operatorType : Json → Option Bytes
  | .object members => members.foldl (fun found member => (operatorMember member).or found) none
  | _ => none

/-- The value at an address, along the given entries of every value. -/
def follow (step : Json → List (Json × ℕ)) : Json → Address → Option Json
  | value, [] => some value
  | value, i :: rest =>
    ((step value).find? fun entry => entry.2 = i).bind fun entry => follow step entry.1 rest

/-- The value at an address, when it is looked at. -/
def visibleAt (document : Json) (address : Address) : Option Json :=
  document.follow visible address

/-- An object with an operator at an address. -/
def OperatorAt (document : Json) (address : Address) : Prop :=
  ∃ value, document.visibleAt address = some value ∧ value.operatorType.isSome

theorem sizeOf_visible {value : Json} {entry : Json × ℕ} (h : entry ∈ value.visible) :
    sizeOf entry.1 < sizeOf value := by
  cases value with
  | array values =>
    have hmem := sizeOf_lt_of_mem (fst_mem_of_mem_zipIdx h)
    simp only [array.sizeOf_spec]
    omega
  | object members =>
    obtain ⟨member, hmember, rfl⟩ := mem_map.mp h
    have hmem := sizeOf_lt_of_mem (fst_mem_of_mem_zipIdx (mem_of_mem_filter hmember))
    obtain ⟨⟨name, inner⟩, i⟩ := member
    simp only [Prod.mk.sizeOf_spec] at hmem
    simp only [object.sizeOf_spec]
    omega
  | null => exact absurd h not_mem_nil
  | bool _ => exact absurd h not_mem_nil
  | number _ => exact absurd h not_mem_nil
  | string _ => exact absurd h not_mem_nil

theorem visible_induction {motive : Json → Prop}
    (step : ∀ value : Json, (∀ entry ∈ value.visible, motive entry.1) → motive value)
    (value : Json) : motive value := by
  induction value using (measure (sizeOf : Json → ℕ)).wf.induction with
  | h value ih => exact step value fun entry hentry => ih entry.1 (sizeOf_visible hentry)

/-- Positions increase. -/
theorem zipIdx_pairwise {α : Type} (l : List α) (k : ℕ) :
    (l.zipIdx k).Pairwise fun a b => a.2 < b.2 := by
  induction l generalizing k with
  | nil => exact .nil
  | cons a l ih =>
    exact pairwise_cons.mpr ⟨fun b hb => le_snd_of_mem_zipIdx hb, ih (k + 1)⟩

theorem visible_pairwise (value : Json) :
    value.visible.Pairwise fun entry entry' => entry.2 < entry'.2 := by
  cases value with
  | array values => exact zipIdx_pairwise values 0
  | object members => exact pairwise_map.mpr ((zipIdx_pairwise members 0).filter _)
  | null => exact .nil
  | bool _ => exact .nil
  | number _ => exact .nil
  | string _ => exact .nil

variable {i : ℕ}

/-- An entry is found by its position. -/
theorem find_visible {value : Json} {entry : Json × ℕ} :
    (value.visible.find? fun entry => entry.2 = i) = some entry ↔
      entry ∈ value.visible ∧ entry.2 = i := by
  constructor
  · intro h
    exact ⟨mem_of_find?_eq_some h, by simpa using find?_some h⟩
  · rintro ⟨hmem, rfl⟩
    have hpairwise := value.visible_pairwise
    generalize value.visible = entries at hmem hpairwise ⊢
    induction entries with
    | nil => exact absurd hmem not_mem_nil
    | cons head entries ih =>
      obtain ⟨hhead, htail⟩ := pairwise_cons.mp hpairwise
      rcases mem_cons.mp hmem with rfl | hmem
      · simp
      · have hlt := hhead entry hmem
        rw [find?_cons_of_neg (by simpa using hlt.ne)]
        exact ih hmem htail

variable {rest : Address}

theorem visibleAt_cons {value inner : Json} :
    value.visibleAt (i :: rest) = some inner ↔
      ∃ entry ∈ value.visible, entry.2 = i ∧ entry.1.visibleAt rest = some inner := by
  simp only [visibleAt, follow, bind_eq_some_iff, find_visible, and_assoc]

theorem visibleAt_append (value : Json) (address rest : Address) :
    value.visibleAt (address ++ rest) =
      (value.visibleAt address).bind fun inner => inner.visibleAt rest := by
  induction address generalizing value with
  | nil => rfl
  | cons i address ih =>
    simp only [visibleAt, cons_append, follow, bind_assoc]
    exact Option.bind_congr fun entry _ => ih entry.1

theorem operatorAt_append {value inner : Json} {address : Address}
    (h : value.visibleAt address = some inner) :
    value.OperatorAt (address ++ rest) ↔ inner.OperatorAt rest := by
  simp only [OperatorAt, visibleAt_append, h, bind_some]

theorem operatorAt_cons {value : Json} :
    value.OperatorAt (i :: rest) ↔
      ∃ entry ∈ value.visible, entry.2 = i ∧ entry.1.OperatorAt rest := by
  constructor
  · rintro ⟨inner, hinner, hoperator⟩
    obtain ⟨entry, hentry, hi, hrest⟩ := visibleAt_cons.mp hinner
    exact ⟨entry, hentry, hi, inner, hrest, hoperator⟩
  · rintro ⟨entry, hentry, hi, inner, hinner, hoperator⟩
    exact ⟨inner, visibleAt_cons.mpr ⟨entry, hentry, hi, hinner⟩, hoperator⟩

/-- The object at an address has an operator, and no value that encloses it does. -/
structure Topmost (value : Json) (address : Address) (inner : Json) : Prop where
  visible : value.visibleAt address = some inner
  operator : inner.operatorType.isSome
  alone : ∀ front, value.OperatorAt front → front <+: address → front = address

theorem operatorAt_nil {value : Json} : value.OperatorAt [] ↔ value.operatorType.isSome := by
  constructor
  · rintro ⟨inner, hinner, hoperator⟩
    obtain rfl : value = inner := some.inj hinner
    exact hoperator
  · exact fun h => ⟨value, rfl, h⟩

theorem topmost_nil {value inner : Json} :
    value.Topmost [] inner ↔ inner = value ∧ value.operatorType.isSome := by
  constructor
  · intro h
    obtain rfl : value = inner := some.inj h.visible
    exact ⟨rfl, h.operator⟩
  · rintro ⟨rfl, hoperator⟩
    exact ⟨rfl, hoperator, fun front _ hbelow => List.prefix_nil.mp hbelow⟩

theorem not_topmost_cons {value inner : Json} (h : value.operatorType.isSome) :
    ¬ value.Topmost (i :: rest) inner := by
  intro htop
  have heq := htop.alone [] (operatorAt_nil.mpr h) List.nil_prefix
  exact cons_ne_nil i rest heq.symm

theorem topmost_cons {value inner : Json} (h : ¬ value.operatorType.isSome) :
    value.Topmost (i :: rest) inner ↔
      ∃ entry ∈ value.visible, entry.2 = i ∧ entry.1.Topmost rest inner := by
  constructor
  · intro htop
    obtain ⟨entry, hentry, rfl, hrest⟩ := visibleAt_cons.mp htop.visible
    refine ⟨entry, hentry, rfl, hrest, htop.operator, fun front hfront hbelow => ?_⟩
    have heq := htop.alone (entry.2 :: front)
      (operatorAt_cons.mpr ⟨entry, hentry, rfl, hfront⟩)
      (List.cons_prefix_cons.mpr ⟨rfl, hbelow⟩)
    exact tail_eq_of_cons_eq heq
  · rintro ⟨entry, hentry, rfl, htop⟩
    refine ⟨visibleAt_cons.mpr ⟨entry, hentry, rfl, htop.visible⟩, htop.operator, ?_⟩
    intro front hfront hbelow
    cases front with
    | nil => exact absurd (operatorAt_nil.mp hfront) h
    | cons j front =>
      obtain ⟨rfl, htail⟩ := List.cons_prefix_cons.mp hbelow
      obtain ⟨other, hother, hposition, hat⟩ := operatorAt_cons.mp hfront
      obtain rfl : other = entry := some.inj <|
        (find_visible.mpr ⟨hother, hposition⟩).symm.trans (find_visible.mpr ⟨hentry, rfl⟩)
      rw [htop.alone front hat htail]

end Json

open Json

/-! ## The contraction -/

/-- What a view has of an operator itself. -/
structure OperatorData where
  sourceValue : ValueRef
  operatorType : Option Bytes
  operatorLabel : Option Bytes
  operatorAttributes : List (Bytes × ValueRef)
  sourceLocation : Option SymbolSpan

/-- The members of an object at an address that are attributes, by their names. -/
def attributesOf (address : Address) (members : List ((Bytes × Json) × ℕ)) :
    List (Bytes × ValueRef) :=
  (members.filter fun member => isAttribute member.1).map fun member =>
    (getString member.1.1, ⟨address ++ [member.2], member.1.2⟩)

/-- What the value of a document says about itself as an operator. -/
def describe (ref : ValueRef) : OperatorData where
  sourceValue := ref
  operatorType := ref.value.operatorType
  operatorLabel :=
    match ref.value with
    | .object members => members.foldl (fun found member => (labelMember member).or found) none
    | _ => none
  operatorAttributes :=
    match ref.value with
    | .object members => attributesOf ref.address members.zipIdx
    | _ => []
  sourceLocation :=
    match ref.value with
    | .object members => members.foldl (fun found member => (locationMember member).or found) none
    | _ => none

def contract (address : Address) (value : Json) : List (RoseTree OperatorData) :=
  let below := value.visible.attach.flatMap fun entry =>
    contract (address ++ [entry.1.2]) entry.1.1
  if value.operatorType.isSome then [.node (describe ⟨address, value⟩) below] else below
termination_by value
decreasing_by exact sizeOf_visible entry.2

def contractBelow (address : Address) (value : Json) : List (RoseTree OperatorData) :=
  value.visible.flatMap fun entry => contract (address ++ [entry.2]) entry.1

def operatorTree (address : Address) (value : Json) : RoseTree OperatorData :=
  .node (describe ⟨address, value⟩) (contractBelow address value)

theorem contract_eq (address : Address) (value : Json) :
    contract address value =
      if value.operatorType.isSome then [operatorTree address value]
      else contractBelow address value := by
  have hbelow : (value.visible.attach.flatMap fun entry =>
      contract (address ++ [entry.1.2]) entry.1.1) = contractBelow address value := by
    conv_rhs => rw [contractBelow, ← attach_map_subtype_val value.visible]
    rw [flatMap_map]
  rw [contract, hbelow]
  rfl

variable {address : Address}

theorem mem_contractBelow {value : Json} {tree : RoseTree OperatorData} :
    tree ∈ contractBelow address value ↔
      ∃ entry ∈ value.visible, tree ∈ contract (address ++ [entry.2]) entry.1 :=
  mem_flatMap

theorem mem_contract {value : Json} {tree : RoseTree OperatorData} :
    tree ∈ contract address value ↔
      ∃ rest inner, value.Topmost rest inner ∧ tree = operatorTree (address ++ rest) inner := by
  induction value using visible_induction generalizing address with
  | step value ih =>
    rw [contract_eq]
    split_ifs with hoperator
    · rw [mem_singleton]
      constructor
      · rintro rfl
        exact ⟨[], value, topmost_nil.mpr ⟨rfl, hoperator⟩, by rw [append_nil]⟩
      · rintro ⟨rest, inner, htop, rfl⟩
        cases rest with
        | nil => rw [(topmost_nil.mp htop).1, append_nil]
        | cons i rest => exact absurd htop (not_topmost_cons hoperator)
    · rw [mem_contractBelow]
      constructor
      · rintro ⟨entry, hentry, htree⟩
        obtain ⟨rest, inner, htop, rfl⟩ := (ih entry hentry).mp htree
        refine ⟨entry.2 :: rest, inner, ?_, by rw [append_assoc, singleton_append]⟩
        exact (topmost_cons hoperator).mpr ⟨entry, hentry, rfl, htop⟩
      · rintro ⟨rest, inner, htop, rfl⟩
        cases rest with
        | nil => exact absurd (topmost_nil.mp htop).2 hoperator
        | cons i rest =>
          obtain ⟨entry, hentry, rfl, hrest⟩ := (topmost_cons hoperator).mp htop
          refine ⟨entry, hentry, (ih entry hentry).mpr ⟨rest, inner, hrest, ?_⟩⟩
          rw [append_assoc, singleton_append]

theorem labelsAll_contract (address : Address) (value : Json) :
    labelsAll (contract address value) = labelsAll (contractBelow address value) ++
      if value.operatorType.isSome then [describe ⟨address, value⟩] else [] := by
  rw [contract_eq]
  split_ifs
  · rw [operatorTree, labelsAll_cons, labelsAll_nil]
  · rw [append_nil]

theorem mem_labels_contractBelow {value : Json} {data : OperatorData} :
    data ∈ labelsAll (contractBelow address value) ↔
      ∃ entry ∈ value.visible, data ∈ labelsAll (contract (address ++ [entry.2]) entry.1) := by
  rw [contractBelow, labelsAll_flatMap, mem_flatMap]

/-- The operators of a contraction are the objects with an operator. -/
theorem mem_labels_contract {value : Json} {data : OperatorData} :
    data ∈ labelsAll (contract address value) ↔
      ∃ rest inner, value.visibleAt rest = some inner ∧ inner.operatorType.isSome ∧
        data = describe ⟨address ++ rest, inner⟩ := by
  induction value using visible_induction generalizing address with
  | step value ih =>
    rw [labelsAll_contract, mem_append, mem_labels_contractBelow]
    constructor
    · rintro (⟨entry, hentry, hdata⟩ | hdata)
      · obtain ⟨rest, inner, hinner, hoperator, rfl⟩ := (ih entry hentry).mp hdata
        refine ⟨entry.2 :: rest, inner, ?_, hoperator, ?_⟩
        · exact visibleAt_cons.mpr ⟨entry, hentry, rfl, hinner⟩
        · rw [append_assoc, singleton_append]
      · split_ifs at hdata with hoperator
        · refine ⟨[], value, rfl, hoperator, ?_⟩
          rw [mem_singleton.mp hdata, append_nil]
        · exact absurd hdata not_mem_nil
    · rintro ⟨rest, inner, hinner, hoperator, rfl⟩
      cases rest with
      | nil =>
        obtain rfl : value = inner := some.inj hinner
        rw [if_pos hoperator, append_nil]
        exact .inr (mem_singleton_self _)
      | cons i rest =>
        obtain ⟨entry, hentry, rfl, hrest⟩ := visibleAt_cons.mp hinner
        refine .inl ⟨entry, hentry, (ih entry hentry).mpr ⟨rest, inner, hrest, hoperator, ?_⟩⟩
        rw [append_assoc, singleton_append]

/-- What leads through a smaller position comes first in the document. -/
theorem lt_of_position {i j : ℕ} (h : i < j) (address rest rest' : Address) :
    address ++ i :: rest < address ++ j :: rest' := by
  induction address with
  | nil => exact cons_lt_cons_iff.mpr (.inl h)
  | cons k address ih => exact cons_lt_cons_iff.mpr (.inr ⟨rfl, ih⟩)

/-- The operators of two entries stand in the order of the entries. -/
theorem lt_of_entries {entry entry' : Json × ℕ} (h : entry.2 < entry'.2) {rest rest' : Address} :
    address ++ [entry.2] ++ rest < address ++ [entry'.2] ++ rest' := by
  simp only [append_assoc, singleton_append]
  exact lt_of_position h address rest rest'

theorem ordered_of_entries {value : Json}
    (h : ∀ entry ∈ value.visible, (contract (address ++ [entry.2]) entry.1).Pairwise
      fun tree tree' => tree.label.sourceValue.address < tree'.label.sourceValue.address) :
    (contractBelow address value).Pairwise fun tree tree' =>
      tree.label.sourceValue.address < tree'.label.sourceValue.address := by
  refine pairwise_flatMap.mpr ⟨h, ?_⟩
  refine value.visible_pairwise.imp fun hlt tree htree tree' htree' => ?_
  obtain ⟨rest, inner, -, rfl⟩ := mem_contract.mp htree
  obtain ⟨rest', inner', -, rfl⟩ := mem_contract.mp htree'
  exact lt_of_entries hlt

/-- The roots of a contraction are in document order. -/
theorem contract_ordered (address : Address) (value : Json) :
    (contract address value).Pairwise fun tree tree' =>
      tree.label.sourceValue.address < tree'.label.sourceValue.address := by
  induction value using visible_induction generalizing address with
  | step value ih =>
    rw [contract_eq]
    split_ifs with hoperator
    · exact pairwise_singleton _ _
    · exact ordered_of_entries fun entry hentry => ih entry hentry _

theorem contractBelow_ordered (address : Address) (value : Json) :
    (contractBelow address value).Pairwise fun tree tree' =>
      tree.label.sourceValue.address < tree'.label.sourceValue.address :=
  ordered_of_entries fun _ _ => contract_ordered _ _

/-- No operator occurs twice. -/
theorem contract_distinct (address : Address) (value : Json) :
    (labelsAll (contract address value)).Pairwise fun data data' =>
      data.sourceValue.address ≠ data'.sourceValue.address := by
  induction value using visible_induction generalizing address with
  | step value ih =>
    rw [labelsAll_contract, contractBelow, labelsAll_flatMap]
    refine pairwise_append.mpr ⟨?_, ?_, ?_⟩
    · refine pairwise_flatMap.mpr ⟨fun entry hentry => ih entry hentry _, ?_⟩
      refine value.visible_pairwise.imp fun hlt data hdata data' hdata' => ?_
      obtain ⟨rest, inner, -, -, rfl⟩ := mem_labels_contract.mp hdata
      obtain ⟨rest', inner', -, -, rfl⟩ := mem_labels_contract.mp hdata'
      exact (lt_of_entries hlt).ne
    · split_ifs
      · exact pairwise_singleton _ _
      · exact .nil
    · intro data hdata data' hdata'
      obtain ⟨entry, -, hdata⟩ := mem_flatMap.mp hdata
      obtain ⟨rest, inner, -, -, rfl⟩ := mem_labels_contract.mp hdata
      split_ifs at hdata'
      · rw [mem_singleton.mp hdata']
        intro heq
        have hlength := congrArg List.length heq
        simp [describe] at hlength
      · exact absurd hdata' not_mem_nil

end DashQL.PlanView
