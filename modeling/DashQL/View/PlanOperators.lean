import DashQL.View.FlatOperators

/-!
# The operators of a plan view

The flat operators of a view are the objects with an operator that the search looks at, in the
forest that the document makes of them.
-/

namespace DashQL.PlanView

open List

open RoseTree NodeBuffer Json

/-- An object with an operator anywhere in a document. -/
def CarriesOperator (document : Json) (address : Address) : Prop :=
  ∃ value, document.follow entries address = some value ∧ value.operatorType.isSome

/-- The operator at the second address is the nearest one that encloses the first address. -/
structure Encloses (document : Json) (address outer : Address) : Prop where
  operator : document.OperatorAt outer
  isPrefix : outer <+: address
  ne : outer ≠ address
  nearest : ∀ other, document.OperatorAt other → other <+: address → other ≠ address →
    other <+: outer

/-- The operators of a view are the contraction of a document onto its operators. -/
structure Contracts (document : Json) (view : PlanViewModel) : Prop where
  /-- The operators are the objects with an operator. -/
  operators : ∀ address, (∃ op ∈ view.operators, op.sourceValue.address = address) ↔
    document.OperatorAt address
  /-- Every object with an operator is one of them. -/
  distinct : (view.operators.map fun op => op.sourceValue.address).Nodup
  /-- An operator has what its object says. -/
  described : ∀ op ∈ view.operators,
    document.visibleAt op.sourceValue.address = some op.sourceValue.value ∧
      op.data = describe op.sourceValue
  /-- Ids are positions in the flat array. -/
  id : ∀ (i : ℕ) (op : OperatorNode), view.operators[i]? = some op → op.operatorId = i
  /-- The parent of an operator stands behind it and is the nearest operator that encloses it. -/
  parent : ∀ (i p : ℕ) (op : OperatorNode), view.operators[i]? = some op →
    op.parentOperatorId = some p → i < p ∧ ∃ outer : OperatorNode,
      view.operators[p]? = some outer ∧
        Encloses document op.sourceValue.address outer.sourceValue.address
  /-- No operator encloses one without a parent. -/
  outermost : ∀ (i : ℕ) (op : OperatorNode), view.operators[i]? = some op →
    op.parentOperatorId = none → ∀ address, document.OperatorAt address →
      address <+: op.sourceValue.address → address = op.sourceValue.address
  /-- The roots are the operators without a parent. -/
  roots : view.rootOperators.Nodup ∧ ∀ i, i ∈ view.rootOperators ↔
    ∃ op : OperatorNode, view.operators[i]? = some op ∧ op.parentOperatorId = none
  /-- The span of an operator has the operators whose parent it is. -/
  children : ∀ (i : ℕ) (op : OperatorNode), view.operators[i]? = some op → ∀ j,
    j ∈ op.childOperators ↔ ∃ child : OperatorNode, view.operators[j]? = some child ∧
      child.parentOperatorId = some i
  /-- The operators in a span are in document order. -/
  ordered : ∀ op ∈ view.operators, op.childOperators.Pairwise fun j k =>
    ∀ child child' : OperatorNode, view.operators[j]? = some child →
      view.operators[k]? = some child' → child.sourceValue.address < child'.sourceValue.address

variable {document : Json} {view : PlanViewModel}

variable {op : OperatorNode} {address : Address} {i : ℕ}

theorem sourceValue_of_representsAt {value : Json} (hop : view.operators[i]? = some op)
    (h : RepresentsAt OperatorNode.data OperatorNode.childOperators view.operators i
      (operatorTree address value)) : op.sourceValue = ⟨address, value⟩ := by
  obtain ⟨op', hop', hrep⟩ := h
  obtain rfl : op = op' := Option.some.inj (hop.symm.trans hop')
  exact congrArg OperatorData.sourceValue (represents_node.mp hrep).1

theorem exists_child_tree {p : ℕ} {outer : OperatorNode} {value : Json}
    (houter : view.operators[p]? = some outer)
    (h : RepresentsAt OperatorNode.data OperatorNode.childOperators view.operators p
      (operatorTree address value)) (hi : i ∈ outer.childOperators) :
    ∃ entry ∈ value.visible, ∃ rest inner, entry.1.Topmost rest inner ∧
      RepresentsAt OperatorNode.data OperatorNode.childOperators view.operators i
        (operatorTree (address ++ [entry.2] ++ rest) inner) := by
  obtain ⟨op', hop', hrep⟩ := h
  obtain rfl : outer = op' := Option.some.inj (houter.symm.trans hop')
  obtain ⟨tree, htree, hat⟩ := exists_of_forall₂ (represents_node.mp hrep).2 hi
  obtain ⟨entry, hentry, hmem⟩ := mem_contractBelow.mp htree
  obtain ⟨rest, inner, htop, rfl⟩ := mem_contract.mp hmem
  exact ⟨entry, hentry, rest, inner, htop, hat⟩

theorem encloses_of_topmost {rest : Address} {value inner : Json} {entry : Json × ℕ}
    (hvisible : document.visibleAt address = some value) (hoperator : value.operatorType.isSome)
    (hentry : entry ∈ value.visible) (htop : entry.1.Topmost rest inner) :
    Encloses document (address ++ [entry.2] ++ rest) address where
  operator := ⟨value, hvisible, hoperator⟩
  isPrefix := by
    rw [append_assoc]
    exact List.prefix_append _ _
  ne h := by
    have hlength := congrArg List.length h
    simp at hlength
  nearest other hother hfront hne := by
    rcases Nat.le_total other.length address.length with hle | hge
    · refine List.prefix_of_prefix_length_le hfront ?_ hle
      rw [append_assoc]
      exact List.prefix_append _ _
    · -- an operator below the outer one would enclose a topmost one
      obtain ⟨tail, rfl⟩ := List.prefix_of_prefix_length_le
        (by rw [append_assoc]; exact List.prefix_append _ _) hfront hge
      rw [append_assoc, singleton_append] at hfront hne
      have htail := (List.prefix_append_right_inj address).mp hfront
      cases tail with
      | nil => rw [append_nil]
      | cons j tail =>
        obtain ⟨rfl, hfront'⟩ := List.cons_prefix_cons.mp htail
        obtain ⟨other, hother', hposition, hat⟩ :=
          operatorAt_cons.mp ((operatorAt_append hvisible).mp hother)
        obtain rfl : other = entry := Option.some.inj <|
          (find_visible.mpr ⟨hother', hposition⟩).symm.trans (find_visible.mpr ⟨hentry, rfl⟩)
        exact absurd (by rw [htop.alone tail hat hfront']) hne

/-- A relation of lists takes an order of the second list back to the first one. -/
theorem pairwise_of_forall₂ {α β : Type} {r : α → β → Prop} {s : β → β → Prop} {as : List α}
    {bs : List β} (h : List.Forall₂ r as bs) (hs : bs.Pairwise s) :
    as.Pairwise fun a a' => ∃ b b', r a b ∧ r a' b' ∧ s b b' := by
  induction h with
  | nil => exact .nil
  | @cons a b as bs hab htail ih =>
    obtain ⟨hfirst, hrest⟩ := pairwise_cons.mp hs
    refine pairwise_cons.mpr ⟨fun a' ha' => ?_, ih hrest⟩
    obtain ⟨b', hb', hrel⟩ := exists_of_forall₂ htail ha'
    exact ⟨b, b', hab, hrel, hfirst b' hb'⟩

section View

variable (h : FlatForest view (contract [] document))
include h

theorem mem_data_iff {data : OperatorData} : (∃ op ∈ view.operators, op.data = data) ↔
    ∃ address value, document.visibleAt address = some value ∧ value.operatorType.isSome ∧
      data = describe ⟨address, value⟩ := by
  rw [← mem_map, h.labels.mem_iff, mem_labels_contract]
  simp only [nil_append]

theorem described_of_mem (hop : op ∈ view.operators) :
    document.visibleAt op.sourceValue.address = some op.sourceValue.value ∧
      op.sourceValue.value.operatorType.isSome ∧ op.data = describe op.sourceValue := by
  obtain ⟨address, value, hvisible, hoperator, hdata⟩ := (mem_data_iff h).mp ⟨op, hop, rfl⟩
  have hsource : op.sourceValue = ⟨address, value⟩ := congrArg OperatorData.sourceValue hdata
  rw [hsource]
  exact ⟨hvisible, hoperator, hdata⟩

theorem mem_roots_iff : i ∈ view.rootOperators ↔
    ∃ op : OperatorNode, view.operators[i]? = some op ∧ op.parentOperatorId = none := by
  constructor
  · intro hi
    have hop := getElem?_eq_getElem (h.assembly.linked.loose_lt i hi)
    exact ⟨_, hop, (h.assembly.linked.open_iff i _ hop).mpr (.inr hi)⟩
  · rintro ⟨op, hop, hparent⟩
    refine ((h.assembly.linked.open_iff i op hop).mp hparent).resolve_left ?_
    rintro ⟨_, hhead, _⟩
    exact not_mem_nil hhead

section

variable (hop : view.operators[i]? = some op)

include hop

theorem exists_operatorTree :
    RepresentsAt OperatorNode.data OperatorNode.childOperators view.operators i
      (operatorTree op.sourceValue.address op.sourceValue.value) := by
  -- from the roots down, which is from the end of the array to its start
  induction hn : view.operators.length - i using Nat.strongRecOn generalizing i op with
  | ind n ih =>
    cases hparent : op.parentOperatorId with
    | none =>
      obtain ⟨tree, htree, hat⟩ := h.root i ((mem_roots_iff h).mpr ⟨op, hop, hparent⟩)
      obtain ⟨rest, inner, -, rfl⟩ := mem_contract.mp htree
      rw [sourceValue_of_representsAt hop hat]
      exact hat
    | some p =>
      obtain ⟨outer, houter, hi⟩ := (h.assembly.linked.parent_iff i op hop p).mp hparent
      have hlt := h.assembly.linked.children_lt p outer houter i hi
      have hp := (List.getElem?_eq_some_iff.mp houter).1
      obtain ⟨entry, -, rest, inner, -, hat⟩ :=
        exists_child_tree houter (ih _ (by omega) houter rfl) hi
      rw [sourceValue_of_representsAt hop hat]
      exact hat

theorem parent_encloses {p : ℕ} (hparent : op.parentOperatorId = some p) :
    i < p ∧ ∃ outer : OperatorNode, view.operators[p]? = some outer ∧
      Encloses document op.sourceValue.address outer.sourceValue.address := by
  obtain ⟨outer, houter, hi⟩ := (h.assembly.linked.parent_iff i op hop p).mp hparent
  obtain ⟨hvisible, hoperator, -⟩ := described_of_mem h (List.mem_of_getElem? houter)
  obtain ⟨entry, hentry, rest, inner, htop, hat⟩ :=
    exists_child_tree houter (exists_operatorTree h houter) hi
  refine ⟨h.assembly.linked.children_lt p outer houter i hi, outer, houter, ?_⟩
  rw [sourceValue_of_representsAt hop hat]
  exact encloses_of_topmost hvisible hoperator hentry htop

theorem outermost_of_orphan (hparent : op.parentOperatorId = none)
    (hoperator : document.OperatorAt address) (hfront : address <+: op.sourceValue.address) :
    address = op.sourceValue.address := by
  obtain ⟨tree, htree, hat⟩ := h.root i ((mem_roots_iff h).mpr ⟨op, hop, hparent⟩)
  obtain ⟨rest, inner, htop, rfl⟩ := mem_contract.mp htree
  rw [sourceValue_of_representsAt hop hat] at hfront ⊢
  exact htop.alone address hoperator hfront

end

theorem children_ordered (hop : op ∈ view.operators) :
    op.childOperators.Pairwise fun j k =>
      ∀ child child' : OperatorNode, view.operators[j]? = some child →
        view.operators[k]? = some child' →
        child.sourceValue.address < child'.sourceValue.address := by
  obtain ⟨i, hi⟩ := mem_iff_getElem?.mp hop
  obtain ⟨op', hop', hrep⟩ := exists_operatorTree h hi
  obtain rfl : op = op' := Option.some.inj (hi.symm.trans hop')
  have hordered := contractBelow_ordered op.sourceValue.address op.sourceValue.value
  refine (pairwise_of_forall₂ (represents_node.mp hrep).2 hordered).imp ?_
  rintro j k ⟨tree, tree', ⟨child, hchild, hat⟩, ⟨child', hchild', hat'⟩, hlt⟩ c c' hc hc'
  obtain rfl : c = child := Option.some.inj (hc.symm.trans hchild)
  obtain rfl : c' = child' := Option.some.inj (hc'.symm.trans hchild')
  have hlabel := congrArg OperatorData.sourceValue (represents_iff_root.mp hat).1
  have hlabel' := congrArg OperatorData.sourceValue (represents_iff_root.mp hat').1
  rw [← hlabel, ← hlabel'] at hlt
  exact hlt

theorem contracts_of_flatForest : Contracts document view where
  operators address := by
    constructor
    · rintro ⟨op, hop, rfl⟩
      obtain ⟨hvisible, hoperator, -⟩ := described_of_mem h hop
      exact ⟨_, hvisible, hoperator⟩
    · rintro ⟨value, hvisible, hoperator⟩
      obtain ⟨op, hop, hdata⟩ := (mem_data_iff h).mpr ⟨address, value, hvisible, hoperator, rfl⟩
      have hsource : op.sourceValue = ⟨address, value⟩ := congrArg OperatorData.sourceValue hdata
      exact ⟨op, hop, by rw [hsource]⟩
  distinct := by
    have hpairwise := (h.labels.pairwise_iff fun hne => hne.symm).mpr
      (contract_distinct [] document)
    have hoperators := pairwise_map.mp hpairwise
    exact pairwise_map.mpr hoperators
  described op hop := by
    obtain ⟨hvisible, -, hdata⟩ := described_of_mem h hop
    exact ⟨hvisible, hdata⟩
  id := h.assembly.numbered
  parent i p op hop hparent := parent_encloses h hop hparent
  outermost i op hop hparent address := outermost_of_orphan h hop hparent
  roots := ⟨h.distinct, fun i => mem_roots_iff h⟩
  children i op hop j := by
    constructor
    · intro hj
      have hi := (List.getElem?_eq_some_iff.mp hop).1
      have hlt := h.assembly.linked.children_lt i op hop j hj
      have hchild := getElem?_eq_getElem (Nat.lt_trans hlt hi)
      exact ⟨_, hchild, (h.assembly.linked.parent_iff j _ hchild i).mpr ⟨op, hop, hj⟩⟩
    · rintro ⟨child, hchild, hparent⟩
      obtain ⟨op', hop', hj⟩ := (h.assembly.linked.parent_iff j child hchild i).mp hparent
      obtain rfl : op = op' := Option.some.inj (hop.symm.trans hop')
      exact hj
  ordered op hop := children_ordered h hop

end View

theorem exists_flattens (order : IterationOrder) (document : Json) :
    ∃ view, Flattens order document view ∧ FlatForest view (contract [] document) := by
  obtain ⟨parsed, hparsed, horder⟩ := parse_ends document
  obtain ⟨flattened, view, hflattened, hplaced, hview⟩ := flatten_ends horder order
  exact ⟨view, ⟨parsed, flattened, hparsed, hflattened, hplaced⟩, hview⟩

theorem Flattens.unique {order : IterationOrder} {view' : PlanViewModel}
    (h : Flattens order document view) (h' : Flattens order document view') : view = view' := by
  obtain ⟨parsed, flattened, hparsed, hflattened, hplaced⟩ := h
  obtain ⟨parsed', flattened', hparsed', hflattened', hplaced'⟩ := h'
  obtain rfl := hparsed.unique hparsed'
  obtain rfl := hflattened.unique hflattened'
  exact Except.ok.inj (hplaced.symm.trans hplaced')

/-- Every document has a view, and the view is the contraction of the document. -/
theorem flattens_contracts (order : IterationOrder) (document : Json) :
    (∃ view, Flattens order document view) ∧
      ∀ view, Flattens order document view → Contracts document view := by
  obtain ⟨view, hflattens, hview⟩ := exists_flattens order document
  refine ⟨⟨view, hflattens⟩, fun view' hflattens' => ?_⟩
  rw [← hflattens.unique hflattens']
  exact contracts_of_flatForest hview

/-- A map that is iterated in the order of its entries. -/
def entryOrder : IterationOrder where
  iterate := id
  perm _ := .rfl

/-- An operator with a debug name in which there is another one. -/
def nestedDebugName : Json :=
  .object [(operatorKey, .string "join".toUTF8.toList),
    (debugNameKey, .object [(valueKey, .object [(operatorKey, .string "scan".toUTF8.toList)])])]

/-- An object with an operator in a debug name is not among the operators. -/
theorem not_operators_nestedDebugName :
    ¬ ∀ view, Flattens entryOrder nestedDebugName view → ∀ address,
      (∃ op ∈ view.operators, op.sourceValue.address = address) ↔
        CarriesOperator nestedDebugName address := by
  intro hall
  obtain ⟨view, hflattens, hview⟩ := exists_flattens entryOrder nestedDebugName
  have hcarries : CarriesOperator nestedDebugName [1, 0] := ⟨_, rfl, by decide +kernel⟩
  have hnot : nestedDebugName.visibleAt [1, 0] = none :=
    Option.isNone_iff_eq_none.mp (by decide +kernel)
  obtain ⟨value, hvalue, -⟩ := ((contracts_of_flatForest hview).operators [1, 0]).mp
    ((hall view hflattens [1, 0]).mpr hcarries)
  exact Option.some_ne_none value (hvalue.symm.trans hnot)

end DashQL.PlanView
