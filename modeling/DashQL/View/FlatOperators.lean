import DashQL.Library.LinkedBuffers
import DashQL.Library.NodeBuffers
import DashQL.View.ParsedOperators

/-!
# The flat operators

A forest of parsed operators in post-order is flattened from the leaves on.  The operators that
are still in the map are the heads of the flat array: an operator that is written is the parent
of its block from then on, and the block that was written last becomes the one of the operator
that enters the map.
-/

namespace DashQL.PlanView

open List

open RoseTree NodeBuffer
open scoped List

/-- What a flat operator says about itself. -/
def OperatorNode.data (op : OperatorNode) : OperatorData where
  sourceValue := op.sourceValue
  operatorType := op.operatorType
  operatorLabel := op.operatorLabel
  operatorAttributes := op.operatorAttributes
  sourceLocation := op.sourceLocation

@[simp] theorem childOperators_flatNode (op : ParsedOperatorNode) (childrenBegin childCount : ℕ) :
    (flatNode op childrenBegin childCount).childOperators =
      List.range' childrenBegin childCount := rfl

@[simp] theorem data_placed (id : ℕ) (op : OperatorNode) : (op.placed id).data = op.data := rfl

/-! ## Placing operators -/

/-- Operators are written one after the other. -/
def placeAll (operators ops : List OperatorNode) : List OperatorNode :=
  ops.foldl placeOperator operators

variable {operators ops heads : List OperatorNode} {op : OperatorNode} {loose : List ℕ}

theorem length_placeOperator (operators : List OperatorNode) (op : OperatorNode) :
    (placeOperator operators op).length = operators.length + 1 := by
  simp [placeOperator]

theorem length_placeAll (operators ops : List OperatorNode) :
    (placeAll operators ops).length = operators.length + ops.length := by
  induction ops generalizing operators with
  | nil => rfl
  | cons op ops ih =>
    have hops := ih (placeOperator operators op)
    rw [length_placeOperator] at hops
    rw [placeAll, foldl_cons, length_cons]
    exact hops.trans (by omega)

/-- What was written before gets a parent at most. -/
theorem getElem?_placeOperator_kept {i : ℕ} {node : OperatorNode} (h : operators[i]? = some node) :
    (placeOperator operators op)[i]? =
      some (if i ∈ op.childOperators then node.adopted operators.length else node) := by
  have hi := (List.getElem?_eq_some_iff.mp h).1
  rw [placeOperator, getElem?_mapIdx, getElem?_append_left hi, h, Option.map_some]

theorem getElem?_placeOperator_last (hlt : ∀ c ∈ op.childOperators, c < operators.length) :
    (placeOperator operators op)[operators.length]? = some (op.placed operators.length) := by
  have hnot : operators.length ∉ op.childOperators := fun h => Nat.lt_irrefl _ (hlt _ h)
  rw [placeOperator, getElem?_mapIdx, getElem?_concat_length, Option.map_some, if_neg hnot]

theorem adopts_placeOperator (hlt : ∀ c ∈ op.childOperators, c < operators.length)
    (hparent : op.parentOperatorId = none) :
    Adopts OperatorNode.childOperators OperatorNode.parentOperatorId operators op
      (placeOperator operators op) where
  length_eq := length_placeOperator operators op
  kept i node hnode := by
    refine ⟨_, getElem?_placeOperator_kept hnode, ?_⟩
    split_ifs
    · exact ⟨rfl, rfl⟩
    · exact ⟨rfl, rfl⟩
  last := ⟨_, getElem?_placeOperator_last hlt, rfl, hparent⟩

theorem extends_placeOperator (operators : List OperatorNode) (op : OperatorNode) :
    Extends OperatorNode.data OperatorNode.childOperators operators
      (placeOperator operators op) := by
  intro i node hnode
  refine ⟨_, getElem?_placeOperator_kept hnode, ?_⟩
  split_ifs
  · exact ⟨rfl, rfl⟩
  · exact ⟨rfl, rfl⟩

theorem extends_placeAll (operators ops : List OperatorNode) :
    Extends OperatorNode.data OperatorNode.childOperators operators (placeAll operators ops) := by
  induction ops generalizing operators with
  | nil => exact extends_refl
  | cons op ops ih => exact (extends_placeOperator operators op).trans (ih _)

theorem map_data_placeOperator (operators : List OperatorNode) (op : OperatorNode) :
    (placeOperator operators op).map OperatorNode.data =
      operators.map OperatorNode.data ++ [op.data] := by
  refine ext_getElem? fun i => ?_
  rw [← map_singleton, ← map_append, placeOperator, getElem?_map,
    getElem?_mapIdx, getElem?_map, getElem?_append, getElem?_append]
  rcases Nat.lt_or_ge i operators.length with hlt | hge
  · simp only [hlt, if_true, Option.map_map]
    congr 1
    funext node
    simp only [Function.comp_apply]
    split_ifs <;> rfl
  · simp only [Nat.not_lt.mpr hge, if_false, Option.map_map]
    cases i - operators.length with
    | zero =>
      simp only [getElem?_cons_zero, Option.map_some, Function.comp_apply]
      split_ifs <;> rfl
    | succ k => rfl

theorem map_data_placeAll (operators ops : List OperatorNode) :
    (placeAll operators ops).map OperatorNode.data =
      operators.map OperatorNode.data ++ ops.map OperatorNode.data := by
  induction ops generalizing operators with
  | nil => exact (append_nil _).symm
  | cons op ops ih =>
    rw [placeAll, foldl_cons, ← placeAll, ih, map_data_placeOperator, map_cons,
      append_assoc, singleton_append]

/-- The flat array and the operators that are still in the map. -/
structure Assembly (operators heads : List OperatorNode) (loose : List ℕ) : Prop where
  linked : Linked OperatorNode.childOperators OperatorNode.parentOperatorId operators heads loose
  numbered : ∀ (i : ℕ) (node : OperatorNode), operators[i]? = some node → node.operatorId = i
  orphans : ∀ head ∈ heads, head.parentOperatorId = none

theorem assembly_nil : Assembly [] [] [] where
  linked := linked_nil
  numbered i node h := by simp at h
  orphans head h := absurd h not_mem_nil

theorem Assembly.perm {heads' : List OperatorNode} (h : Assembly operators heads loose)
    (hperm : heads.Perm heads') : Assembly operators heads' loose where
  linked := h.linked.perm hperm
  numbered := h.numbered
  orphans head hhead := h.orphans head (hperm.mem_iff.mpr hhead)

/-- An operator from the map is written. -/
theorem Assembly.place (h : Assembly operators (op :: heads) loose) :
    Assembly (placeOperator operators op) heads (loose ++ [operators.length]) where
  linked :=
    h.linked.adopt <| adopts_placeOperator (h.linked.head_lt op mem_cons_self)
      (h.orphans op mem_cons_self)
  numbered i node hnode := by
    have hi := (List.getElem?_eq_some_iff.mp hnode).1
    rw [length_placeOperator] at hi
    rcases Nat.lt_succ_iff_lt_or_eq.mp hi with hlt | rfl
    · rw [getElem?_placeOperator_kept (getElem?_eq_getElem hlt), Option.some_inj] at hnode
      have hid := h.numbered i _ (getElem?_eq_getElem hlt)
      rw [← hnode]
      split_ifs
      · exact hid
      · exact hid
    · rw [getElem?_placeOperator_last (h.linked.head_lt op mem_cons_self), Option.some_inj] at hnode
      rw [← hnode]
      rfl
  orphans head hhead := h.orphans head (mem_cons_of_mem _ hhead)

/-- A block is written. -/
theorem Assembly.placeAll (h : Assembly operators (ops ++ heads) loose) :
    Assembly (placeAll operators ops) heads (loose ++ List.range' operators.length ops.length) := by
  induction ops generalizing operators loose with
  | nil =>
    rw [length_nil, range'_zero, append_nil]
    exact h
  | cons op ops ih =>
    have hrest := ih h.place
    rw [length_placeOperator, append_assoc, singleton_append] at hrest
    rwa [length_cons, range'_succ]

/-- The block that was written last gets its operator. -/
theorem Assembly.gather (h : Assembly operators heads loose) (hchildren : op.childOperators = loose)
    (hparent : op.parentOperatorId = none) : Assembly operators (op :: heads) [] where
  linked := h.linked.gather hchildren
  numbered := h.numbered
  orphans head hhead := by
    rcases mem_cons.mp hhead with rfl | hhead
    · exact hparent
    · exact h.orphans head hhead

/-- A written operator describes the tree that it described in the map. -/
theorem representsAt_placeAll (hheads : ∀ head ∈ ops, ∀ c ∈ head.childOperators,
      c < operators.length) {k : ℕ} {tree : RoseTree OperatorData} (hk : ops[k]? = some op)
    (h : Represents OperatorNode.data OperatorNode.childOperators operators op tree) :
    RepresentsAt OperatorNode.data OperatorNode.childOperators (placeAll operators ops)
      (operators.length + k) tree := by
  induction ops generalizing operators k with
  | nil => simp at hk
  | cons first ops ih =>
    have hextends := extends_placeOperator operators first
    have hlength := length_placeOperator operators first
    cases k with
    | zero =>
      obtain rfl : first = op := Option.some.inj hk
      have hlast := getElem?_placeOperator_last (hheads first mem_cons_self)
      have hplaced : RepresentsAt OperatorNode.data OperatorNode.childOperators
          (placeOperator operators first) operators.length tree :=
        ⟨_, hlast, (represents_congr (data_placed operators.length first) rfl).mpr
          (h.extend hextends)⟩
      exact hplaced.extend (extends_placeAll _ ops)
    | succ k =>
      have hrest := ih
        (fun head hhead c hc => by
          have hlt := hheads head (mem_cons_of_mem _ hhead) c hc
          omega) hk (h.extend hextends)
      rw [hlength, Nat.add_right_comm] at hrest
      exact hrest

/-! ## The search -/

/-- Operators are found where they were parsed. -/
def Holds (parsedOps : List ParsedOperatorNode) (offset : ℕ) (nodes : List ParsedOperatorNode) :
    Prop :=
  ∀ (j : ℕ) (op : ParsedOperatorNode), nodes[j]? = some op → parsedOps[offset + j]? = some op

theorem holds_append {parsedOps nodes nodes' : List ParsedOperatorNode} {offset : ℕ} :
    Holds parsedOps offset (nodes ++ nodes') ↔
      Holds parsedOps offset nodes ∧ Holds parsedOps (offset + nodes.length) nodes' := by
  constructor
  · intro h
    refine ⟨fun j op hop => h j op ?_, fun j op hop => ?_⟩
    · rw [getElem?_append_left (List.getElem?_eq_some_iff.mp hop).1, hop]
    · rw [Nat.add_assoc]
      refine h _ op ?_
      rw [getElem?_append_right (Nat.le_add_right _ _), Nat.add_sub_cancel_left, hop]
  · rintro ⟨h, h'⟩ j op hop
    rcases Nat.lt_or_ge j nodes.length with hlt | hge
    · exact h j op (by rwa [getElem?_append_left hlt] at hop)
    · rw [getElem?_append_right hge] at hop
      have hfound := h' _ op hop
      rwa [Nat.add_assoc, Nat.add_sub_cancel' hge] at hfound

theorem holds_cons {parsedOps nodes : List ParsedOperatorNode} {op : ParsedOperatorNode}
    {offset : ℕ} :
    Holds parsedOps offset (op :: nodes) ↔
      parsedOps[offset]? = some op ∧ Holds parsedOps (offset + 1) nodes := by
  constructor
  · intro h
    refine ⟨h 0 op rfl, fun j op' hop => ?_⟩
    rw [Nat.add_assoc, Nat.add_comm 1]
    exact h (j + 1) op' hop
  · rintro ⟨h, h'⟩ j op' hop
    cases j with
    | zero => exact (Option.some.inj hop) ▸ h
    | succ j =>
      have hfound := h' j op' hop
      rwa [Nat.add_assoc, Nat.add_comm 1] at hfound

variable (operators) in
theorem placeChildren_eq (entries front : List (ℕ × OperatorNode)) (capacity : ℕ)
    (hfront : ∀ entry ∈ entries, entry.1 ∉ front.map Prod.fst)
    (hcapacity : operators.length + entries.length ≤ capacity) :
    placeChildren capacity (entries.map Prod.fst) operators (front ++ entries) =
      .ok (placeAll operators (entries.map Prod.snd), front) := by
  induction entries generalizing operators with
  | nil => rw [map_nil, placeChildren, append_nil]; rfl
  | cons entry entries ih =>
    obtain ⟨key, op⟩ := entry
    have hkey := hfront (key, op) mem_cons_self
    have hkeys : ∀ entry ∈ front, ¬ decide (entry.1 = key) = true := by
      intro entry hentry heq
      have hentry' : entry.1 ∈ front.map Prod.fst := mem_map_of_mem hentry
      exact hkey (of_decide_eq_true heq ▸ hentry')
    have hlookup : (front ++ (key, op) :: entries).lookup key = some op := by
      rw [lookup_append, lookup_eq_none_iff.mpr, lookup_cons_self]
      · rfl
      · intro entry hentry
        have hne : ¬ entry.1 = key := of_decide_eq_false (by simpa using hkeys entry hentry)
        exact bne_iff_ne.mpr (Ne.symm hne)
    have herase : ((front ++ (key, op) :: entries).eraseP fun entry => entry.1 = key) =
        front ++ entries := by
      rw [eraseP_append_right _ hkeys, eraseP_cons_of_pos (by simp)]
    have hlength := length_placeOperator operators op
    rw [length_cons] at hcapacity
    rw [map_cons, placeChildren, hlookup]
    simp only [herase]
    rw [if_pos (by omega), ih _
      (fun entry hentry => hfront entry (mem_cons_of_mem _ hentry)) (by omega)]
    rfl

variable {parsedOps : List ParsedOperatorNode} {base : List (ℕ × Bool)}
  {mapped : List (ℕ × OperatorNode)}

/-- The search comes from one state to another. -/
abbrev FlattenReaches (parsedOps : List ParsedOperatorNode) : FlattenState → FlattenState → Prop :=
  LoopReaches isFlattening (flattenStep parsedOps)

/-- Operators on the stack that have not been visited; the first one is on top. -/
def unvisitedOps (ops : List ℕ) : List (ℕ × Bool) := (ops.map fun op => (op, false)).reverse

variable (base operators mapped) in
/-- The first visit of an operator puts its children on the stack. -/
theorem reaches_children {op : ParsedOperatorNode} {index : ℕ} (h : parsedOps[index]? = some op) :
    FlattenReaches parsedOps ⟨base ++ [(index, false)], operators, mapped⟩
      ⟨base ++ [(index, true)] ++ unvisitedOps op.childOperators, operators, mapped⟩ := by
  refine loopReaches_of_test (by simp [isFlattening]) ?_
  simp only [flattenStep, getLast?_concat, h, dropLast_concat]
  rfl

variable (base operators mapped) in
/-- The second visit of an operator writes its children and takes it into the map. -/
theorem reaches_mapped {op : ParsedOperatorNode} {index : ℕ} {flats : List OperatorNode}
    (h : parsedOps[index]? = some op) (hlength : op.childOperators.length = flats.length)
    (hchildren : ∀ entry ∈ mapped, entry.1 ∉ op.childOperators)
    (hindex : ∀ entry ∈ mapped, entry.1 ≠ index)
    (hcapacity : operators.length + flats.length ≤ parsedOps.length) :
    FlattenReaches parsedOps
      ⟨base ++ [(index, true)], operators, mapped ++ op.childOperators.zip flats⟩
      ⟨base, placeAll operators flats,
        mapped ++ [(index, flatNode op operators.length flats.length)]⟩ := by
  refine loopReaches_of_test (by simp [isFlattening]) ?_
  have hfst := map_fst_zip hlength.le
  have hsnd := map_snd_zip hlength.ge
  have hplaced := placeChildren_eq operators
    (op.childOperators.zip flats) mapped parsedOps.length
    (fun entry hentry hmem => by
      obtain ⟨other, hother, heq⟩ := mem_map.mp hmem
      exact hchildren other hother (heq ▸ (of_mem_zip hentry).1))
    (by rw [length_zip, hlength, Nat.min_self]; exact hcapacity)
  rw [hfst, hsnd] at hplaced
  have hany : ¬ (mapped.any fun entry => entry.1 = index) = true := by
    rw [any_eq_true]
    rintro ⟨entry, hentry, heq⟩
    exact hindex entry hentry (of_decide_eq_true heq)
  have hcount : (placeAll operators flats).length - operators.length = flats.length := by
    rw [length_placeAll, Nat.add_sub_cancel_left]
  simp only [flattenStep, getLast?_concat, h, dropLast_concat, hplaced, if_true,
    if_neg hany, hcount]

/-- A list that is related to another one, by the positions of its elements. -/
theorem forall₂_range' {α β : Type} {r : α → β → Prop} {s : ℕ → β → Prop} {as : List α}
    {bs : List β} (h : List.Forall₂ r as bs) (start : ℕ)
    (hat : ∀ (k : ℕ) (a : α) (b : β), as[k]? = some a → r a b → s (start + k) b) :
    List.Forall₂ s (List.range' start as.length) bs := by
  induction h generalizing start with
  | nil => exact .nil
  | @cons a b as bs hab _ ih =>
    rw [length_cons, range'_succ]
    refine .cons (hat 0 a b rfl hab) (ih (start + 1) fun k a' b' ha' hab' => ?_)
    rw [Nat.add_assoc, Nat.add_comm 1]
    exact hat (k + 1) a' b' ha' hab'

/-- What the search has made of a forest: the operators below its roots are in the flat array,
and the roots themselves are heads. -/
structure Flattened (operators operators' heads flats : List OperatorNode)
    (forest : List (RoseTree OperatorData)) : Prop where
  grown : Extends OperatorNode.data OperatorNode.childOperators operators operators'
  assembly : Assembly operators' (heads ++ flats) []
  represents : List.Forall₂
    (Represents OperatorNode.data OperatorNode.childOperators operators') flats forest
  labels : (operators'.map OperatorNode.data ++ flats.map OperatorNode.data).Perm
    (operators.map OperatorNode.data ++ labelsAll forest)

theorem Flattened.root {operators' flats : List OperatorNode} {trees : List (RoseTree OperatorData)}
    (h : Flattened operators operators' heads flats trees) (op : ParsedOperatorNode) :
    Flattened operators (placeAll operators' flats) heads
      [flatNode op operators'.length flats.length] [.node op.data trees] where
  grown := h.grown.trans (extends_placeAll _ flats)
  assembly := by
    have hplaced := (h.assembly.perm perm_append_comm).placeAll
    rw [nil_append] at hplaced
    exact (hplaced.gather rfl rfl).perm (perm_append_singleton _ _).symm
  represents := by
    refine .cons (represents_node.mpr ⟨rfl, ?_⟩) .nil
    rw [childOperators_flatNode]
    refine forall₂_range' h.represents _ fun k flat tree hflat hrep => ?_
    refine representsAt_placeAll (fun head hhead => ?_) hflat hrep
    exact h.assembly.linked.head_lt head (mem_append_right _ hhead)
  labels := by
    rw [map_data_placeAll, labelsAll_cons, labelsAll_nil, ← append_assoc]
    exact h.labels.append_right _

/-- The operators of two forests, one after the other. -/
theorem Flattened.append {operators' operators'' flats flats' : List OperatorNode}
    {trees rest : List (RoseTree OperatorData)}
    (h : Flattened operators operators' heads flats trees)
    (h' : Flattened operators' operators'' (heads ++ flats) flats' rest) :
    Flattened operators operators'' heads (flats ++ flats') (trees ++ rest) where
  grown := h.grown.trans h'.grown
  assembly := by
    rw [← append_assoc]
    exact h'.assembly
  represents := by
    refine rel_append (h.represents.imp fun _ _ hrep => hrep.extend h'.grown) h'.represents
  labels := by
    rw [map_append, labelsAll_append]
    calc operators''.map OperatorNode.data ++
          (flats.map OperatorNode.data ++ flats'.map OperatorNode.data)
        ~ operators''.map OperatorNode.data ++ flats'.map OperatorNode.data ++
            flats.map OperatorNode.data := by
          rw [append_assoc]
          exact perm_append_comm.append_left _
      _ ~ operators'.map OperatorNode.data ++ labelsAll rest ++ flats.map OperatorNode.data :=
          h'.labels.append_right _
      _ ~ operators'.map OperatorNode.data ++ flats.map OperatorNode.data ++ labelsAll rest := by
          rw [append_assoc, append_assoc]
          exact perm_append_comm.append_left _
      _ ~ operators.map OperatorNode.data ++ (labelsAll trees ++ labelsAll rest) := by
          rw [← append_assoc]
          exact h.labels.append_right _

theorem Flattened.length_eq {operators' flats : List OperatorNode}
    {forest : List (RoseTree OperatorData)} {offset : ℕ} {nodes : List ParsedOperatorNode}
    {is : List ℕ} (h : Flattened operators operators' heads flats forest)
    (horder : ParsedOrder offset forest nodes is) :
    operators'.length + flats.length = operators.length + nodes.length := by
  have hlength := h.labels.length_eq
  rw [← horder.map_label] at hlength
  simpa using hlength

variable (base operators mapped) in
theorem reaches_flattened {offset : ℕ} {forest : List (RoseTree OperatorData)}
    {nodes : List ParsedOperatorNode} {is : List ℕ} (h : ParsedOrder offset forest nodes is)
    (hholds : Holds parsedOps offset nodes) (hmapped : ∀ entry ∈ mapped, entry.1 < offset)
    (hlength : operators.length + mapped.length ≤ offset)
    (hassembly : Assembly operators (mapped.map Prod.snd) []) :
    ∃ operators' flats, FlattenReaches parsedOps
        ⟨base ++ unvisitedOps is, operators, mapped⟩
        ⟨base, operators', mapped ++ is.zip flats⟩ ∧
      Flattened operators operators' (mapped.map Prod.snd) flats forest := by
  induction h generalizing base operators mapped with
  | nil offset =>
    refine ⟨operators, [], ?_, extends_refl, ?_, .nil, ?_⟩
    · rw [unvisitedOps, map_nil, reverse_nil, append_nil, zip_nil_left, append_nil]
      exact loopReaches_refl _
    · rwa [append_nil]
    · rfl
  | @cons offset trees rest nodes nodes' is is' op hbelow hchildren hbehind ih ih' =>
    subst hchildren
    obtain ⟨hnodes, hop⟩ := holds_append.mp hholds
    obtain ⟨hop, hnodes'⟩ := holds_cons.mp hop
    obtain ⟨operators₁, flats₁, hreaches₁, hflat₁⟩ :=
      ih _ (base ++ unvisitedOps is' ++ [(offset + nodes.length, true)]) _ hnodes hmapped
        hlength hassembly
    have hwritten := hflat₁.length_eq hbelow
    have hcount : op.childOperators.length = flats₁.length :=
      hbelow.length_eq.trans hflat₁.represents.length_eq.symm
    have hindex := (List.getElem?_eq_some_iff.mp hop).1
    have hroot := hflat₁.root op
    have htaken := reaches_mapped operators₁ (base ++ unvisitedOps is') mapped hop hcount
      (fun entry hentry hmem => by
        have hlt := hmapped entry hentry
        have hbounds := hbelow.index_bounds _ hmem
        omega)
      (fun entry hentry => by
        have hlt := hmapped entry hentry
        omega)
      (by omega)
    obtain ⟨operators₂, flats₂, hreaches₂, hflat₂⟩ :=
      ih' (placeAll operators₁ flats₁) base
        (mapped ++ [(offset + nodes.length, flatNode op operators₁.length flats₁.length)])
        hnodes' (by
          intro entry hentry
          rcases mem_append.mp hentry with hentry | hentry
          · have hlt := hmapped entry hentry
            omega
          · rw [mem_singleton.mp hentry]
            exact Nat.lt_succ_self _)
        (by
          rw [length_placeAll, length_append, length_singleton]
          omega)
        (by
          rw [map_append, map_singleton]
          exact hroot.assembly)
    have hvisit := reaches_children operators (base ++ unvisitedOps is') mapped hop
    refine ⟨operators₂, flatNode op operators₁.length flats₁.length :: flats₂, ?_, ?_⟩
    rotate_left
    · rw [map_append, map_singleton] at hflat₂
      exact hroot.append hflat₂
    · have hfront : base ++ unvisitedOps ((offset + nodes.length) :: is') =
          base ++ unvisitedOps is' ++ [(offset + nodes.length, false)] := by
        simp only [unvisitedOps, map_cons, reverse_cons, append_assoc]
      rw [hfront, zip_cons_cons, append_cons mapped]
      exact hvisit.trans (hreaches₁.trans (htaken.trans hreaches₂))

/-- The roots are written at the end. -/
theorem placeRoots_eq {capacity : ℕ} (hcapacity : operators.length + ops.length ≤ capacity)
    (roots : List ℕ) :
    placeRoots capacity ops operators roots =
      .ok ⟨placeAll operators ops, roots ++ List.range' operators.length ops.length⟩ := by
  induction ops generalizing operators roots with
  | nil => rw [placeRoots, length_nil, range'_zero, append_nil]; rfl
  | cons op ops ih =>
    have hlength := length_placeOperator operators op
    rw [length_cons] at hcapacity
    rw [placeRoots, if_pos (by omega), ih (by omega), hlength, length_cons,
      range'_succ, append_assoc, singleton_append]
    rfl

/-- What the flat array of a forest is: it has every operator once, children and parents agree,
and the operators without a parent are the roots, one for every tree. -/
structure FlatForest (view : PlanViewModel) (forest : List (RoseTree OperatorData)) : Prop where
  assembly : Assembly view.operators [] view.rootOperators
  labels : (view.operators.map OperatorNode.data).Perm (labelsAll forest)
  distinct : view.rootOperators.Nodup
  root : ∀ i ∈ view.rootOperators, ∃ tree ∈ forest,
    RepresentsAt OperatorNode.data OperatorNode.childOperators view.operators i tree

theorem exists_of_forall₂ {α β : Type} {r : α → β → Prop} {as : List α} {bs : List β}
    (h : List.Forall₂ r as bs) {a : α} (ha : a ∈ as) : ∃ b ∈ bs, r a b := by
  induction h with
  | nil => exact absurd ha not_mem_nil
  | @cons a' b as bs hab _ ih =>
    rcases mem_cons.mp ha with rfl | ha
    · exact ⟨b, mem_cons_self, hab⟩
    · obtain ⟨b', hb', hrel⟩ := ih ha
      exact ⟨b', mem_cons_of_mem _ hb', hrel⟩

theorem flatten_ends {forest : List (RoseTree OperatorData)} {roots : List ℕ}
    (h : ParsedOrder 0 forest parsedOps roots) (order : IterationOrder) :
    ∃ flattened view, LoopEnds isFlattening (flattenStep parsedOps) (startFlatten roots) flattened ∧
      placeRoots parsedOps.length ((order.iterate flattened.mapped).map Prod.snd)
        flattened.operators [] = .ok view ∧
      FlatForest view forest := by
  obtain ⟨operators, flats, hreaches, hflattened⟩ :=
    reaches_flattened [] [] [] h
      (fun j op hop => by rwa [Nat.zero_add]) (fun entry hentry => absurd hentry not_mem_nil)
      le_rfl assembly_nil
  have hlength := hflattened.length_eq h
  have hcount : roots.length = flats.length :=
    h.length_eq.trans hflattened.represents.length_eq.symm
  have hperm : ((order.iterate (roots.zip flats)).map Prod.snd).Perm flats := by
    have hmap := (order.perm (roots.zip flats)).map Prod.snd
    rwa [map_snd_zip hcount.ge] at hmap
  have hassembly := hflattened.assembly
  rw [map_nil, nil_append] at hassembly
  have hwritten := (hassembly.perm hperm.symm)
  rw [← append_nil ((order.iterate (roots.zip flats)).map Prod.snd)] at hwritten
  refine ⟨_, _, hreaches.ends rfl, placeRoots_eq ?_ [], hwritten.placeAll, ?_, ?_, ?_⟩
  · rw [nil_append, hperm.length_eq, hlength, length_nil, Nat.zero_add]
  · have hlabels := hflattened.labels
    rw [map_nil, nil_append] at hlabels
    rw [map_data_placeAll]
    exact ((hperm.map OperatorNode.data).append_left _).trans hlabels
  · exact nodup_range'
  · intro i hi
    obtain ⟨k, hk, rfl⟩ := mem_range'.mp hi
    have hflat := getElem?_eq_getElem hk
    have hmem := hperm.mem_iff.mp (getElem_mem hk)
    obtain ⟨tree, htree, hrep⟩ := exists_of_forall₂ hflattened.represents hmem
    refine ⟨tree, htree, ?_⟩
    rw [Nat.one_mul]
    refine representsAt_placeAll (fun head hhead => ?_) hflat hrep
    exact hassembly.linked.head_lt head (hperm.mem_iff.mp hhead)

end DashQL.PlanView
