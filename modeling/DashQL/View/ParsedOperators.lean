import DashQL.View.Contraction

/-!
# The parsed operators

The search visits a value, the values in it and the value again, and leaves the stack below as
it was, up to the operators it emitted: these are in post-order, and the topmost of them were
delivered to the lowest operator of the stack, or are roots.
-/

namespace DashQL.PlanView

open List

open RoseTree Json

/-- What the parsed operator says about itself. -/
def ParsedOperatorNode.data (op : ParsedOperatorNode) : OperatorData where
  sourceValue := op.sourceValue
  operatorType := op.operatorType
  operatorLabel := op.operatorLabel
  operatorAttributes := op.operatorAttributes
  sourceLocation := op.sourceLocation

/-! ## The ancestors on the stack -/

/-- The lowest operator from a node of the stack on upwards. -/
inductive Nearest (nodes : List ParserDFSNode) : Option ℕ → Option ℕ → Prop
  | outside : Nearest nodes none none
  | found {i : ℕ} {node : ParserDFSNode} (hnode : nodes[i]? = some node)
      (hoperator : node.operatorType.isSome) : Nearest nodes (some i) (some i)
  | climb {i : ℕ} {node : ParserDFSNode} {target : Option ℕ} (hnode : nodes[i]? = some node)
      (hoperator : ¬ node.operatorType.isSome)
      (hlt : ∀ j, node.parentNodeIndex = some j → j < i)
      (hup : Nearest nodes node.parentNodeIndex target) : Nearest nodes (some i) target

variable {nodes nodes' base : List ParserDFSNode} {parent target : Option ℕ}

/-- Only the operators and the links of the stack matter. -/
theorem Nearest.congr (h : Nearest nodes parent target)
    (hkept : ∀ (i : ℕ) (node : ParserDFSNode), nodes[i]? = some node →
      ∃ node' : ParserDFSNode, nodes'[i]? = some node' ∧
        node'.operatorType = node.operatorType ∧ node'.parentNodeIndex = node.parentNodeIndex) :
    Nearest nodes' parent target := by
  induction h with
  | outside => exact .outside
  | found hnode hoperator =>
    obtain ⟨node', hnode', htype, -⟩ := hkept _ _ hnode
    exact .found hnode' (htype ▸ hoperator)
  | climb hnode hoperator hlt _ ih =>
    obtain ⟨node', hnode', htype, hparent⟩ := hkept _ _ hnode
    exact .climb hnode' (htype ▸ hoperator) (hparent ▸ hlt) (hparent ▸ ih)

theorem Nearest.append (h : Nearest base parent target) (rest : List ParserDFSNode) :
    Nearest (base ++ rest) parent target := by
  refine h.congr fun i node hnode => ⟨node, ?_, rfl, rfl⟩
  rw [getElem?_append_left (List.getElem?_eq_some_iff.mp hnode).1, hnode]

theorem Nearest.parent_lt {i : ℕ} (h : Nearest nodes (some i) target) : i < nodes.length := by
  cases h with
  | found hnode _ => exact (List.getElem?_eq_some_iff.mp hnode).1
  | climb hnode _ _ _ => exact (List.getElem?_eq_some_iff.mp hnode).1

theorem Nearest.target_lt {i : ℕ} (h : Nearest nodes parent (some i)) : i < nodes.length := by
  generalize htarget : some i = target at h
  induction h with
  | outside => exact absurd htarget (Option.some_ne_none i)
  | found hnode _ =>
    obtain rfl := Option.some.inj htarget
    exact (List.getElem?_eq_some_iff.mp hnode).1
  | climb _ _ _ _ ih => exact ih htarget

/-- The walk finds the lowest operator, whatever the path. -/
theorem walkUpwards_ends {i fuel : ℕ} (h : Nearest nodes (some i) target) (hfuel : i < fuel)
    (path : List PathComponent) :
    ∃ path', walkUpwards nodes fuel i path = .ok (target, path') := by
  induction fuel generalizing i path with
  | zero => exact absurd hfuel (Nat.not_lt_zero i)
  | succ fuel ih =>
    cases h with
    | found hnode hoperator =>
      exact ⟨path.reverse, by simp only [walkUpwards, hnode, hoperator, if_true]⟩
    | @climb _ node _ hnode hoperator hlt hup =>
      cases hparent : node.parentNodeIndex with
      | none =>
        rw [hparent] at hup
        cases hup
        exact ⟨path.reverse, by simp only [walkUpwards, hnode, hoperator, hparent]; rfl⟩
      | some j =>
        rw [hparent] at hup
        have hj := hlt j hparent
        obtain ⟨path', hpath'⟩ := ih hup (by omega) (path ++ [node.parentPath])
        exact ⟨path', by simpa [walkUpwards, hnode, hoperator, hparent] using hpath'⟩

/-- The node on top of the stack finds the lowest operator below it. -/
theorem findAncestor_ends {node : ParserDFSNode} (h : Nearest base node.parentNodeIndex target) :
    ∃ path, findAncestor (base ++ [node]) base.length = .ok (target, path) := by
  have hnode : (base ++ [node])[base.length]? = some node := by simp
  cases hparent : node.parentNodeIndex with
  | none =>
    rw [hparent] at h
    cases h
    exact ⟨[], by simp only [findAncestor, hnode, hparent]⟩
  | some i =>
    rw [hparent] at h
    have hi := h.parent_lt
    obtain ⟨path, hpath⟩ := walkUpwards_ends (h.append [node])
      (show i < (base ++ [node]).length by simp; omega) [node.parentPath]
    exact ⟨path, by simpa only [findAncestor, hnode, hparent] using hpath⟩

/-! ## The first visit -/

/-- A value that has not been visited. -/
def unvisited (ref : ValueRef) (parent : Option ℕ) (path : PathComponent) : ParserDFSNode where
  jsonValue := ref
  parentNodeIndex := parent
  parentPath := path

/-- A value after its first visit, with the operators that were delivered to it. -/
def visited (ref : ValueRef) (parent : Option ℕ) (path : PathComponent) (ops : List ℕ) :
    ParserDFSNode where
  jsonValue := ref
  visited := true
  parentNodeIndex := parent
  parentPath := path
  operatorType := (describe ref).operatorType
  operatorLabel := (describe ref).operatorLabel
  attributes := (describe ref).operatorAttributes
  childOperators := ops
  sourceLocation := (describe ref).sourceLocation

/-- The attributes among the members, as they are pushed for the object at an index. -/
def pushedMembers (index : ℕ) (address : Address) (members : List ((Bytes × Json) × ℕ)) :
    List (ValueRef × PathComponent) :=
  (members.filter fun member => isAttribute member.1).map fun member =>
    (⟨address ++ [member.2], member.1.2⟩, .memberInObject index (getString member.1.1))

/-- The values in the value at an index of the stack, in the order in which they are visited. -/
def pushed (index : ℕ) (ref : ValueRef) : List (ValueRef × PathComponent) :=
  match ref.value with
  | .object members => pushedMembers index ref.address members.zipIdx
  | .array values =>
    values.zipIdx.map fun entry =>
      (⟨ref.address ++ [entry.2], entry.1⟩, .entryInArray index entry.2)
  | _ => []

/-- The nodes of values in the value at an index. -/
def pushedNodes (index : ℕ) (children : List (ValueRef × PathComponent)) : List ParserDFSNode :=
  children.map fun child => unvisited child.1 (some index) child.2

def readNode (address : Address) (node : ParserDFSNode) (members : List ((Bytes × Json) × ℕ)) :
    ParserDFSNode :=
  { node with
    operatorType :=
      members.foldl (fun found member => (operatorMember member.1).or found) node.operatorType
    operatorLabel :=
      members.foldl (fun found member => (labelMember member.1).or found) node.operatorLabel
    attributes := node.attributes ++ attributesOf address members
    sourceLocation :=
      members.foldl (fun found member => (locationMember member.1).or found) node.sourceLocation }

theorem readMember_eq (index : ℕ) (address : Address) (node : ParserDFSNode)
    (front : List ParserDFSNode) (member : (Bytes × Json) × ℕ) :
    readMember index address (node, front) member =
      (readNode address node [member],
        front ++ pushedNodes index (pushedMembers index address [member])) := by
  obtain ⟨⟨name, value⟩, i⟩ := member
  cases value with
  | string value =>
    by_cases h : getString name = operatorKey <;>
      simp [readMember, readNode, attributesOf, pushedMembers, pushedNodes, isAttribute,
        operatorMember, labelMember, locationMember, unvisited, h]
  | object members =>
    by_cases h : getString name = debugNameKey <;>
      simp [readMember, readNode, attributesOf, pushedMembers, pushedNodes, isAttribute,
        operatorMember, labelMember, locationMember, unvisited, h]
  | array values =>
    by_cases h : getString name = sqlposKey <;>
      simp [readMember, readNode, attributesOf, pushedMembers, pushedNodes, isAttribute,
        operatorMember, labelMember, locationMember, unvisited, h]
  | null =>
    simp [readMember, readNode, attributesOf, pushedMembers, pushedNodes, isAttribute,
      operatorMember, labelMember, locationMember, unvisited]
  | bool _ =>
    simp [readMember, readNode, attributesOf, pushedMembers, pushedNodes, isAttribute,
      operatorMember, labelMember, locationMember, unvisited]
  | number _ =>
    simp [readMember, readNode, attributesOf, pushedMembers, pushedNodes, isAttribute,
      operatorMember, labelMember, locationMember, unvisited]

theorem foldl_readMember (index : ℕ) (address : Address) (members : List ((Bytes × Json) × ℕ))
    (node : ParserDFSNode) (front : List ParserDFSNode) :
    members.foldl (readMember index address) (node, front) =
      (readNode address node members,
        front ++ pushedNodes index (pushedMembers index address members)) := by
  induction members generalizing node front with
  | nil => simp [readNode, attributesOf, pushedMembers, pushedNodes]
  | cons member members ih =>
    rw [foldl_cons, readMember_eq, ih, append_assoc]
    congr 1
    · simp only [readNode, attributesOf, foldl_cons, foldl_nil, filter_cons,
        filter_nil, append_assoc]
      split_ifs <;> simp
    · simp only [pushedNodes, pushedMembers, filter_cons]
      split_ifs <;> simp

theorem foldl_zipIdx {γ δ : Type} (f : γ → δ → γ) (init : γ) (l : List δ) (k : ℕ) :
    (l.zipIdx k).foldl (fun found member => f found member.1) init = l.foldl f init := by
  induction l generalizing init k with
  | nil => rfl
  | cons a l ih => rw [zipIdx_cons, foldl_cons, foldl_cons, ih]

theorem expand_unvisited (ref : ValueRef) (path : PathComponent) (index : ℕ) :
    expand (unvisited ref parent path) index =
      (visited ref parent path [], (pushedNodes index (pushed index ref)).reverse) := by
  obtain ⟨address, value⟩ := ref
  cases value with
  | object members =>
    simp only [expand, unvisited, foldl_readMember, nil_append, pushed]
    congr 1
    simp only [readNode, visited, describe, operatorType, foldl_zipIdx (fun found member =>
      (operatorMember member).or found), foldl_zipIdx (fun found member =>
      (labelMember member).or found), foldl_zipIdx (fun found member =>
      (locationMember member).or found), nil_append]
  | array values =>
    simp only [expand, unvisited, pushed, pushedNodes, map_map]
    rfl
  | null => rfl
  | bool _ => rfl
  | number _ => rfl
  | string _ => rfl

/-- The values that are pushed are the ones to look at. -/
theorem flatMap_pushed (index : ℕ) (ref : ValueRef) :
    ((pushed index ref).flatMap fun child => contract child.1.address child.1.value) =
      contractBelow ref.address ref.value := by
  obtain ⟨address, value⟩ := ref
  cases value with
  | object members =>
    simp only [pushed, pushedMembers, contractBelow, visible, flatMap_map]
  | array values => simp only [pushed, contractBelow, visible, flatMap_map]
  | null => rfl
  | bool _ => rfl
  | number _ => rfl
  | string _ => rfl

/-! ## Delivering operators -/

def ParserDFSNode.addChildren (ops : List ℕ) (node : ParserDFSNode) : ParserDFSNode :=
  { node with childOperators := node.childOperators ++ ops }

/-- The stack after operators were delivered. -/
def deliverPending (ops : List ℕ) (pending : List ParserDFSNode) : Option ℕ → List ParserDFSNode
  | none => pending
  | some index => pending.modify index (ParserDFSNode.addChildren ops)

/-- The roots after operators were delivered. -/
def deliverRoots (ops roots : List ℕ) : Option ℕ → List ℕ
  | none => roots ++ ops
  | some _ => roots

theorem modify_append_left {α : Type} (f : α → α) {l : List α} (l' : List α) {i : ℕ}
    (h : i < l.length) : (l ++ l').modify i f = l.modify i f ++ l' := by
  induction l generalizing i with
  | nil => exact absurd h (Nat.not_lt_zero i)
  | cons a l ih =>
    cases i with
    | zero => rfl
    | succ i =>
      rw [cons_append, modify_succ_cons, modify_succ_cons,
        ih (Nat.lt_of_succ_lt_succ h), cons_append]

theorem deliverPending_append (ops : List ℕ) (rest : List ParserDFSNode)
    (h : ∀ i, target = some i → i < base.length) :
    deliverPending ops (base ++ rest) target = deliverPending ops base target ++ rest := by
  cases target with
  | none => rfl
  | some i => exact modify_append_left _ _ (h i rfl)

theorem deliverPending_nil (pending : List ParserDFSNode) (target : Option ℕ) :
    deliverPending [] pending target = pending := by
  cases target with
  | none => rfl
  | some i =>
    have hid : ParserDFSNode.addChildren [] = id := by
      funext node
      simp [ParserDFSNode.addChildren]
    rw [deliverPending, hid, modify_id]

theorem deliverPending_deliverPending (ops ops' : List ℕ) (pending : List ParserDFSNode)
    (target : Option ℕ) :
    deliverPending ops' (deliverPending ops pending target) target =
      deliverPending (ops ++ ops') pending target := by
  cases target with
  | none => rfl
  | some i =>
    rw [deliverPending, deliverPending, modify_modify_eq]
    congr 1
    funext node
    simp [ParserDFSNode.addChildren]

theorem deliverRoots_nil (roots : List ℕ) (target : Option ℕ) :
    deliverRoots [] roots target = roots := by
  cases target with
  | none => exact append_nil roots
  | some _ => rfl

theorem deliverRoots_deliverRoots (ops ops' roots : List ℕ) (target : Option ℕ) :
    deliverRoots ops' (deliverRoots ops roots target) target =
      deliverRoots (ops ++ ops') roots target := by
  cases target with
  | none => exact append_assoc roots ops ops'
  | some _ => rfl

/-- Delivering operators changes no operator and no link of the stack. -/
theorem Nearest.deliver (h : Nearest nodes parent target) (ops : List ℕ) (owner : Option ℕ) :
    Nearest (deliverPending ops nodes owner) parent target := by
  refine h.congr fun i node hnode => ?_
  cases owner with
  | none => exact ⟨node, hnode, rfl, rfl⟩
  | some j =>
    rw [deliverPending, getElem?_modify, hnode]
    split_ifs with heq
    · exact ⟨node.addChildren ops, rfl, rfl, rfl⟩
    · exact ⟨node, rfl, rfl, rfl⟩

/-! ## Visiting values -/

abbrev ParsedOrder : ℕ → List (RoseTree OperatorData) → List ParsedOperatorNode → List ℕ → Prop :=
  PostOrder ParsedOperatorNode.data ParsedOperatorNode.childOperators

/-- The search comes from one state to another. -/
abbrev ParseReaches : ParseState → ParseState → Prop := LoopReaches isPending parseStep

variable {parsed : List ParsedOperatorNode} {roots : List ℕ} {count : ℕ}

theorem isPending_append (node : ParserDFSNode) :
    isPending ⟨base ++ [node], parsed, roots, count⟩ = true := by
  simp [isPending]

/-- A forest is emitted in post-order, and its roots are delivered. -/
def Emits (forest : List (RoseTree OperatorData)) (pending base : List ParserDFSNode)
    (target : Option ℕ) : Prop :=
  ∀ parsed roots count, ∃ nodes ops count', ParsedOrder parsed.length forest nodes ops ∧
    ParseReaches ⟨pending, parsed, roots, count⟩
      ⟨deliverPending ops base target, parsed ++ nodes, deliverRoots ops roots target, count'⟩

/-- What a visit of a value on top of the stack does. -/
def Visits (ref : ValueRef) : Prop :=
  ∀ base parent path target, Nearest base parent target →
    Emits (contract ref.address ref.value) (base ++ [unvisited ref parent path]) base target

/-- Values on top of the stack are visited one after the other. -/
theorem visits_all {children : List (ValueRef × PathComponent)} {index : ℕ}
    (hvisits : ∀ child ∈ children, Visits child.1) (h : Nearest base (some index) target) :
    Emits (children.flatMap fun child => contract child.1.address child.1.value)
      (base ++ (pushedNodes index children).reverse) base target := by
  intro parsed roots count
  induction children generalizing base parsed roots count with
  | nil =>
    refine ⟨[], [], count, .nil _, ?_⟩
    rw [deliverPending_nil, deliverRoots_nil, append_nil, pushedNodes, map_nil,
      reverse_nil, append_nil]
    exact loopReaches_refl _
  | cons child children ih =>
    have htarget : ∀ i, target = some i → i < base.length := by
      rintro i rfl
      exact h.target_lt
    obtain ⟨nodes, ops, count', horder, hfirst⟩ :=
      hvisits child mem_cons_self (base ++ (pushedNodes index children).reverse)
        (some index) child.2 target (h.append _) parsed roots count
    obtain ⟨nodes', ops', count'', horder', hrest⟩ :=
      ih (fun other hother => hvisits other (mem_cons_of_mem _ hother))
        (h.deliver ops target) (parsed ++ nodes) (deliverRoots ops roots target) count'
    refine ⟨nodes ++ nodes', ops ++ ops', count'', ?_, ?_⟩
    · rw [length_append] at horder'
      exact horder.append horder'
    · rw [deliverPending_append ops _ htarget] at hfirst
      rw [deliverPending_deliverPending, deliverRoots_deliverRoots, append_assoc] at hrest
      have hfront : base ++ (pushedNodes index (child :: children)).reverse =
          base ++ (pushedNodes index children).reverse ++
            [unvisited child.1 (some index) child.2] := by
        simp only [pushedNodes, map_cons, reverse_cons, append_assoc]
      rw [hfront]
      exact hfirst.trans hrest

/-- The first visit of a value puts the values in it on the stack. -/
theorem reaches_expand (ref : ValueRef) (parent : Option ℕ) (path : PathComponent)
    (base : List ParserDFSNode) (parsed : List ParsedOperatorNode) (roots : List ℕ) (count : ℕ) :
    ParseReaches ⟨base ++ [unvisited ref parent path], parsed, roots, count⟩
      ⟨base ++ [visited ref parent path []] ++
        (pushedNodes base.length (pushed base.length ref)).reverse, parsed, roots, count⟩ := by
  refine loopReaches_of_test (isPending_append _) ?_
  have hindex : (base ++ [unvisited ref parent path]).length - 1 = base.length := by simp
  simp only [parseStep, getLast?_concat, hindex, expand_unvisited, dropLast_concat]
  rfl

/-- The second visit of a value without an operator takes it from the stack. -/
theorem reaches_pop (ref : ValueRef) (parent : Option ℕ) (path : PathComponent) (ops : List ℕ)
    (h : ¬ ref.value.operatorType.isSome) (base : List ParserDFSNode)
    (parsed : List ParsedOperatorNode) (roots : List ℕ) (count : ℕ) :
    ParseReaches ⟨base ++ [visited ref parent path ops], parsed, roots, count⟩
      ⟨base, parsed, roots, count⟩ := by
  refine loopReaches_of_test (isPending_append _) ?_
  have hoperator : ¬ (visited ref parent path ops).operatorType.isSome = true := h
  have hvisited : (visited ref parent path ops).visited = true := rfl
  simp only [parseStep, getLast?_concat, hvisited, if_true, emit, if_neg hoperator, dropLast_concat]

def emitted (ref : ValueRef) (path : List PathComponent) (ops : List ℕ) : ParsedOperatorNode where
  parentChildPath := path
  sourceValue := ref
  operatorType := (describe ref).operatorType
  operatorLabel := (describe ref).operatorLabel
  childOperators := ops
  operatorAttributes := (describe ref).operatorAttributes
  sourceLocation := (describe ref).sourceLocation

theorem reaches_emit (ref : ValueRef) (path : PathComponent) (ops : List ℕ)
    (h : ref.value.operatorType.isSome) (hnearest : Nearest base parent target)
    (parsed : List ParsedOperatorNode) (roots : List ℕ) (count : ℕ) :
    ∃ ancestorPath count',
      ParseReaches ⟨base ++ [visited ref parent path ops], parsed, roots, count⟩
      ⟨deliverPending [parsed.length] base target, parsed ++ [emitted ref ancestorPath ops],
        deliverRoots [parsed.length] roots target, count'⟩ := by
  obtain ⟨ancestorPath, hancestor⟩ :=
    findAncestor_ends
      (show Nearest base (visited ref parent path ops).parentNodeIndex target from hnearest)
  have hindex : (base ++ [visited ref parent path ops]).length - 1 = base.length := by simp
  have hoperator : (visited ref parent path ops).operatorType.isSome = true := h
  have hvisited : (visited ref parent path ops).visited = true := rfl
  refine ⟨ancestorPath, count + ops.length, loopReaches_of_test (isPending_append _) ?_⟩
  cases target with
  | none =>
    simp only [parseStep, getLast?_concat, hindex, hvisited, emit, hoperator, hancestor,
      dropLast_concat, if_true]
    rfl
  | some i =>
    have hlt := hnearest.target_lt
    simp only [parseStep, getLast?_concat, hindex, hvisited, emit, hoperator, hancestor,
      if_true, modify_append_left _ _ hlt, dropLast_concat]
    rfl

theorem mem_pushed {index : ℕ} {ref : ValueRef} {child : ValueRef × PathComponent}
    (h : child ∈ pushed index ref) :
    ∃ entry ∈ ref.value.visible, child.1 = ⟨ref.address ++ [entry.2], entry.1⟩ := by
  obtain ⟨address, value⟩ := ref
  cases value with
  | object members =>
    obtain ⟨member, hmember, rfl⟩ := mem_map.mp h
    exact ⟨_, mem_map_of_mem hmember, rfl⟩
  | array values =>
    obtain ⟨entry, hentry, rfl⟩ := mem_map.mp h
    exact ⟨entry, hentry, rfl⟩
  | null => exact absurd h not_mem_nil
  | bool _ => exact absurd h not_mem_nil
  | number _ => exact absurd h not_mem_nil
  | string _ => exact absurd h not_mem_nil

/-- An operator on top of the stack is the lowest one there. -/
theorem nearest_operator {ref : ValueRef} (h : ref.value.operatorType.isSome)
    (base : List ParserDFSNode) (parent : Option ℕ) (path : PathComponent) :
    Nearest (base ++ [visited ref parent path []]) (some base.length) (some base.length) :=
  .found (show (base ++ [visited ref parent path []])[base.length]? =
    some (visited ref parent path []) by simp) h

/-- Another value on top of the stack leads on to its parent. -/
theorem nearest_value {ref : ValueRef} (h : ¬ ref.value.operatorType.isSome)
    (hnearest : Nearest base parent target) (path : PathComponent) :
    Nearest (base ++ [visited ref parent path []]) (some base.length) target := by
  refine .climb (show (base ++ [visited ref parent path []])[base.length]? =
    some (visited ref parent path []) by simp) h ?_ (hnearest.append _)
  rintro j rfl
  exact hnearest.parent_lt

theorem visits (address : Address) (value : Json) : Visits ⟨address, value⟩ := by
  induction value using visible_induction generalizing address with
  | step value ih =>
    intro base parent path target hnearest parsed roots count
    have hchildren : ∀ child ∈ pushed base.length ⟨address, value⟩, Visits child.1 := by
      intro child hchild
      obtain ⟨entry, hentry, heq⟩ := mem_pushed hchild
      exact heq ▸ ih entry hentry _
    have hexpand := reaches_expand ⟨address, value⟩ parent path base parsed roots count
    rw [contract_eq]
    split_ifs with hoperator
    · have hbelow := visits_all hchildren (nearest_operator hoperator base parent path)
      rw [flatMap_pushed] at hbelow
      obtain ⟨nodes, ops, count', horder, hreaches⟩ := hbelow parsed roots count
      have hdelivered : deliverPending ops (base ++ [visited ⟨address, value⟩ parent path []])
          (some base.length) = base ++ [visited ⟨address, value⟩ parent path ops] := by
        rw [deliverPending, modify_eq_set_getElem?]
        simp [ParserDFSNode.addChildren, visited]
      rw [hdelivered] at hreaches
      obtain ⟨ancestorPath, count'', hemit⟩ := reaches_emit ⟨address, value⟩ path ops hoperator
        hnearest (parsed ++ nodes) roots count'
      refine ⟨nodes ++ [emitted ⟨address, value⟩ ancestorPath ops],
        [(parsed ++ nodes).length], count'', ?_, ?_⟩
      · rw [length_append]
        exact horder.node (emitted ⟨address, value⟩ ancestorPath ops) rfl
      · rw [← append_assoc]
        exact hexpand.trans (hreaches.trans hemit)
    · have hbelow := visits_all hchildren (nearest_value hoperator hnearest path)
      rw [flatMap_pushed] at hbelow
      obtain ⟨nodes, ops, count', horder, hreaches⟩ := hbelow parsed roots count
      have htarget : ∀ i, target = some i → i < base.length := by
        rintro i rfl
        exact hnearest.target_lt
      rw [deliverPending_append ops _ htarget] at hreaches
      have hpop := reaches_pop ⟨address, value⟩ parent path [] hoperator
        (deliverPending ops base target) (parsed ++ nodes) (deliverRoots ops roots target) count'
      exact ⟨nodes, ops, count', horder, hexpand.trans (hreaches.trans hpop)⟩

theorem parse_ends (document : Json) :
    ∃ parsed, LoopEnds isPending parseStep (startParse document) parsed ∧
      ParsedOrder 0 (contract [] document) parsed.parsedOperators parsed.rootOperators := by
  obtain ⟨nodes, ops, count, horder, hreaches⟩ :=
    visits [] document [] none .monostate none .outside [] [] 0
  exact ⟨_, hreaches.ends rfl, horder⟩

end DashQL.PlanView
