import DashQL.Parser.BuiltTrees

/-!
# The nodes of a parsed script

Whatever order the actions of a parser are in, its values stand for the trees that the
actions describe (`Sound`).  When it is done, the buffer has the trees of the statements:
every node is linked to its parent, and the range of a statement has just the nodes below
its root (`Decoded`).
-/

namespace DashQL.Parser

open List Option

open NodeBuffer
open ScriptDiff (hasChildren)

/-- A value that stands for what the actions describe. -/
inductive ValueStands (nodes : List Node) :
    Value Node ExpressionVariant → Value Term TermVariant → Prop
  | node {n : Node} {t : Term} (h : Stands nodes n t) : ValueStands nodes (.node n) (.node t)
  | list {ns : List Node} {ts : List Term} (h : List.Forall₂ (Stands nodes) ns ts) :
      ValueStands nodes (.list ns) (.list ts)
  | variant {v : ExpressionVariant} {tv : TermVariant} (h : VariantStands nodes v tv) :
      ValueStands nodes (.variant v) (.variant tv)

/-- The nodes that a value holds. -/
def Value.held : Value Node ExpressionVariant → List Node
  | .node n => [n]
  | .list ns => ns
  | .variant v => v.held

/-- The range of a statement: its root is the last node, and the other nodes have their parents
in the range. -/
structure IsRange (nodes : List Node) (s : Statement) : Prop where
  begin_le : s.nodesBegin ≤ s.root
  root_eq : s.root + 1 = s.nodesBegin + s.nodeCount
  parent : ∀ (i : ℕ) (m : Node), nodes[i]? = some m → s.nodesBegin ≤ i → i ≤ s.root →
    (i = s.root ∧ m.parent = i) ∨ (i < m.parent ∧ m.parent ≤ s.root)

/-- The state of a parser stands for the trees that the actions describe. -/
structure Sound (s : ParseContext × List (Value Node ExpressionVariant))
    (t : List (RoseTree Label) × List (Value Term TermVariant)) : Prop where
  linked : Linked s.1 [] (s.2.flatMap Value.held)
  values : List.Forall₂ (ValueStands s.1.nodes) s.2 t.2
  statements : List.Forall₂ (fun statement tree =>
    RepresentsAt Node.label childIndices s.1.nodes statement.root tree) s.1.statements t.1
  ranges : ∀ statement ∈ s.1.statements, IsRange s.1.nodes statement ∧
    statement.root < s.1.currentStatement.nodesBegin
  ordered : s.1.statements.Pairwise fun first second => first.root < second.nodesBegin
  covered : ∀ i < s.1.currentStatement.nodesBegin, ∃ statement ∈ s.1.statements,
    statement.nodesBegin ≤ i ∧ i ≤ statement.root

variable {s s' : ParseContext × List (Value Node ExpressionVariant)}
  {t : List (RoseTree Label) × List (Value Term TermVariant)} {ctx ctx' : ParseContext}
  {nodes : List Node} {values values' : List (Value Node ExpressionVariant)}
  {tvalues tvalues' : List (Value Term TermVariant)}

theorem ValueStands.grow {value : Value Node ExpressionVariant} {tvalue : Value Term TermVariant}
    (h : ValueStands ctx.nodes value tvalue) (hgrown : Grown ctx ctx') :
    ValueStands ctx'.nodes value tvalue := by
  cases h with
  | node h => exact .node (h.grow hgrown)
  | list h => exact .list (forall₂_grow h hgrown)
  | variant h => exact .variant (h.grow hgrown)

theorem values_grow (h : List.Forall₂ (ValueStands ctx.nodes) values tvalues)
    (hgrown : Grown ctx ctx') : List.Forall₂ (ValueStands ctx'.nodes) values tvalues :=
  h.imp fun _ _ hstands => hstands.grow hgrown

theorem IsRange.congr {statement : Statement} {nodes' : List Node} (h : IsRange nodes statement)
    (hsame : ∀ i ≤ statement.root, nodes'[i]? = nodes[i]?) : IsRange nodes' statement where
  begin_le := h.begin_le
  root_eq := h.root_eq
  parent i m hm hbegin hroot := h.parent i m (hsame i hroot ▸ hm) hbegin hroot

/-- Between two statements only the values change. -/
theorem Sound.advance (h : Sound s t) (hgrown : Grown s.1 ctx')
    (hlinked : Linked ctx' [] (values'.flatMap Value.held))
    (hvalues : List.Forall₂ (ValueStands ctx'.nodes) values' tvalues') :
    Sound (ctx', values') (t.1, tvalues') where
  linked := hlinked
  values := hvalues
  statements := by
    show List.Forall₂ _ ctx'.statements t.1
    rw [hgrown.statements]
    exact h.statements.imp fun _ _ hat => hat.extend hgrown.extended
  ranges := by
    show ∀ statement ∈ ctx'.statements, IsRange ctx'.nodes statement ∧
      statement.root < ctx'.currentStatement.nodesBegin
    rw [hgrown.statements, hgrown.current]
    intro statement hmem
    obtain ⟨hrange, hroot⟩ := h.ranges statement hmem
    exact ⟨hrange.congr fun i hi => hgrown.old i (hi.trans_lt hroot), hroot⟩
  ordered := by
    show ctx'.statements.Pairwise _
    rw [hgrown.statements]
    exact h.ordered
  covered := by
    show ∀ i < ctx'.currentStatement.nodesBegin, ∃ statement ∈ ctx'.statements, _
    rw [hgrown.statements, hgrown.current]
    exact h.covered

/-! ## Taking values -/

theorem popNode_stands (h : List.Forall₂ (ValueStands nodes) values tvalues)
    {top : Node × List (Value Node ExpressionVariant)} (hpop : popNode values = some top) :
    ∃ ttop, popNode tvalues = some ttop ∧ values = .node top.1 :: top.2 ∧
      Stands nodes top.1 ttop.1 ∧ List.Forall₂ (ValueStands nodes) top.2 ttop.2 := by
  cases h with
  | nil => cases hpop
  | cons hhead htail =>
    cases hhead with
    | node h =>
      obtain rfl := some.inj hpop
      exact ⟨_, rfl, rfl, h, htail⟩
    | list h => cases hpop
    | variant h => cases hpop

theorem popList_stands (h : List.Forall₂ (ValueStands nodes) values tvalues)
    {top : List Node × List (Value Node ExpressionVariant)} (hpop : popList values = some top) :
    ∃ ttop, popList tvalues = some ttop ∧ values = .list top.1 :: top.2 ∧
      List.Forall₂ (Stands nodes) top.1 ttop.1 ∧
      List.Forall₂ (ValueStands nodes) top.2 ttop.2 := by
  cases h with
  | nil => cases hpop
  | cons hhead htail =>
    cases hhead with
    | node h => cases hpop
    | list h =>
      obtain rfl := some.inj hpop
      exact ⟨_, rfl, rfl, h, htail⟩
    | variant h => cases hpop

theorem popVariant_stands (h : List.Forall₂ (ValueStands nodes) values tvalues)
    {top : ExpressionVariant × List (Value Node ExpressionVariant)}
    (hpop : popVariant values = some top) :
    ∃ ttop, popVariant tvalues = some ttop ∧ values = .variant top.1 :: top.2 ∧
      VariantStands nodes top.1 ttop.1 ∧ List.Forall₂ (ValueStands nodes) top.2 ttop.2 := by
  cases h with
  | nil => cases hpop
  | cons hhead htail =>
    cases hhead with
    | node h => cases hpop
    | list h => cases hpop
    | variant h =>
      obtain rfl := some.inj hpop
      exact ⟨_, rfl, rfl, h, htail⟩

theorem popVariants_stands {count : ℕ} (h : List.Forall₂ (ValueStands nodes) values tvalues)
    {popped : List ExpressionVariant × List (Value Node ExpressionVariant)}
    (hpop : popVariants count values = some popped) :
    ∃ tpopped, popVariants count tvalues = some tpopped ∧
      (values.flatMap Value.held).Perm
        (popped.1.flatMap ExpressionVariant.held ++ popped.2.flatMap Value.held) ∧
      List.Forall₂ (VariantStands nodes) popped.1 tpopped.1 ∧
      List.Forall₂ (ValueStands nodes) popped.2 tpopped.2 := by
  induction count generalizing values tvalues popped with
  | zero =>
    obtain rfl := some.inj hpop
    exact ⟨_, rfl, List.Perm.refl _, .nil, h⟩
  | succ count ih =>
    unfold popVariants at hpop
    obtain ⟨top, htop, hrest⟩ := bind_eq_some_iff.mp hpop
    obtain ⟨below, hbelow, rfl⟩ := map_eq_some_iff.mp hrest
    obtain ⟨ttop, httop, rfl, hstands, htail⟩ := popVariant_stands h htop
    obtain ⟨tbelow, htbelow, hperm, hall, hlast⟩ := ih htail hbelow
    refine ⟨(tbelow.1 ++ [ttop.1], tbelow.2), ?_, ?_, rel_append hall (.cons hstands .nil), hlast⟩
    · unfold popVariants
      rw [httop, bind_some, htbelow, map_some]
    · rw [flatMap_cons, flatMap_append, append_assoc, flatMap_singleton]
      refine (hperm.append_left top.1.held).trans ?_
      rw [← append_assoc, ← append_assoc]
      exact perm_append_comm.append_right _

/-- Taking up a value from below. -/
theorem forall₂_bring {α β : Type*} {r : α → β → Prop} {xs : List α} {ys : List β} {i : ℕ} {x : α}
    (h : List.Forall₂ r xs ys) (hx : xs[i]? = some x) :
    ∃ y, ys[i]? = some y ∧ (x :: xs.eraseIdx i).Perm xs ∧
      List.Forall₂ r (x :: xs.eraseIdx i) (y :: ys.eraseIdx i) := by
  induction h generalizing i with
  | nil => exact absurd hx (by simp)
  | @cons head thead xs ys hhead htail ih =>
    cases i with
    | zero =>
      obtain rfl := some.inj hx
      exact ⟨thead, rfl, List.Perm.refl _, .cons hhead htail⟩
    | succ i =>
      obtain ⟨y, hy, hperm, hall⟩ := ih hx
      obtain ⟨hxy, hrest⟩ := forall₂_cons.mp hall
      refine ⟨y, hy, ?_, .cons hxy (.cons hhead hrest)⟩
      exact (List.Perm.swap head x _).trans (hperm.cons head)

/-! ## Steps -/

variable {n : Node}

theorem Sound.addStatement {term : Term} (h : Sound (ctx, [.node n]) t)
    (hstands : Stands ctx.nodes n term) :
    Sound (ctx.addStatement n, []) (t.1 ++ (kept term).toList, []) := by
  unfold ParseContext.addStatement
  cases hstands with
  | none hkept htype =>
    rw [if_pos htype, hkept, toList_none, append_nil]
    exact h.advance .refl (h.linked.drop (childIndices_of_none htype)) .nil
  | tree tree hkept htype htree =>
    rw [if_neg htype, hkept, toList_some]
    dsimp only
    rw [addNode_snd, length_addNode]
    have hlinkedBefore : Linked ctx [] (n :: []) := h.linked
    have hgrown := grown_addNode hlinkedBefore
    have hlinked := linked_addNode hlinkedBefore
    have hbegin := h.linked.begin_le
    have hopened : (openIndices (ctx.addNode n).1).Perm [ctx.nodes.length] :=
      hlinked.opened.symm
    have hget := getElem?_addNode ctx (fun _ => hlinkedBefore.lt_length)
    have hroot : RepresentsAt Node.label childIndices (ctx.addNode n).1.nodes ctx.nodes.length
        tree := by
      refine ⟨{ n with parent := ctx.nodes.length }, by rw [hget, if_pos rfl], ?_⟩
      exact (represents_congr (label_parent n _) (childIndices_parent n _)).mpr
        (htree.extend hgrown.extended)
    have hparent : ∀ (i : ℕ) (m : Node), (ctx.addNode n).1.nodes[i]? = some m →
        ctx.currentStatement.nodesBegin ≤ i →
        (i = ctx.nodes.length ∧ m.parent = i) ∨ (i < m.parent ∧ m.parent ≤ ctx.nodes.length) := by
      intro i m hm hi
      have hlength : i < (ctx.addNode n).1.nodes.length := (List.getElem?_eq_some_iff.mp hm).1
      rcases hlinked.parent i m hm with hself | ⟨hlt, hchild⟩
      · have hmem : i ∈ openIndices (ctx.addNode n).1 := by
          rw [mem_openIndices, currentStatement_addNode]
          exact ⟨hi, hlength, by rw [hm, map_some, hself]⟩
        exact .inl ⟨mem_singleton.mp (hopened.mem_iff.mp hmem), hself⟩
      · obtain ⟨p, hp, -⟩ := hchild
        have := (List.getElem?_eq_some_iff.mp hp).1
        rw [length_addNode] at this
        exact .inr ⟨hlt, Nat.le_of_lt_succ this⟩
    refine ⟨?_, .nil, ?_, ?_, ?_, ?_⟩
    · refine ⟨?_, ?_, hlinked.children, hlinked.parent, ?_, hlinked.range,
        fun m hm => (not_mem_nil hm).elim⟩
      · have hnone : (ctx.addNode n).1.nodes.length - (ctx.nodes.length + 1) = 0 := by
          rw [length_addNode]
          omega
        unfold openIndices
        dsimp only
        rw [hnone]
        exact .nil
      · show ctx.nodes.length + 1 ≤ (ctx.addNode n).1.nodes.length
        rw [length_addNode]
      · intro i m hm hi
        show m.parent < ctx.nodes.length + 1
        by_cases hold : i < ctx.currentStatement.nodesBegin
        · have hclosed := hlinked.closed i m hm (by rwa [currentStatement_addNode])
          rw [currentStatement_addNode] at hclosed
          exact hclosed.trans_le (hbegin.trans (Nat.le_succ _))
        · rcases hparent i m hm (Nat.not_lt.mp hold) with ⟨rfl, hself⟩ | ⟨-, hle⟩
          · omega
          · omega
    · refine rel_append (h.statements.imp fun _ _ hat => hat.extend hgrown.extended)
        (.cons hroot .nil)
    · intro statement hmem
      rcases mem_append.mp hmem with hmem | hmem
      · obtain ⟨hrange, hlt⟩ := h.ranges statement hmem
        exact ⟨hrange.congr fun i hi => hgrown.old i (hi.trans_lt hlt),
          hlt.trans_le (hbegin.trans (Nat.le_succ _))⟩
      · obtain rfl := mem_singleton.mp hmem
        refine ⟨⟨hbegin, ?_, fun i m hm hi _ => hparent i m hm hi⟩, Nat.lt_succ_self _⟩
        show ctx.nodes.length + 1 = ctx.currentStatement.nodesBegin +
          (ctx.nodes.length + 1 - ctx.currentStatement.nodesBegin)
        have hbegin' : ctx.currentStatement.nodesBegin ≤ ctx.nodes.length := hbegin
        omega
    · refine pairwise_append.mpr ⟨h.ordered, pairwise_singleton _ _, ?_⟩
      intro first hfirst second hsecond
      obtain rfl := mem_singleton.mp hsecond
      exact (h.ranges first hfirst).2
    · intro i hi
      by_cases hold : i < ctx.currentStatement.nodesBegin
      · obtain ⟨statement, hmem, hin⟩ := h.covered i hold
        exact ⟨statement, mem_append_left _ hmem, hin⟩
      · exact ⟨_, mem_append_right _ (mem_singleton_self _), Nat.not_lt.mp hold,
          Nat.le_of_lt_succ hi⟩

theorem childIndices_of_isLeaf (h : isLeaf n = true) : childIndices n = [] := by
  unfold isLeaf at h
  rw [Bool.and_eq_true, decide_eq_true_eq] at h
  unfold childIndices
  rw [h.1, range'_zero, ite_self]

theorem range_of_isLeaf (h : isLeaf n = true) (hhas : hasChildren n.nodeType = true) (bound : ℕ) :
    n.childrenBeginOrValue + n.childrenCount ≤ bound := by
  unfold isLeaf at h
  rw [hhas, Bool.and_eq_true, decide_eq_true_eq, Bool.not_true, Bool.false_or,
    decide_eq_true_eq] at h
  rw [h.1, h.2]
  exact Nat.zero_le _

theorem stands_of_isLeaf (h : isLeaf n = true) :
    Stands nodes n (.node ⟨n.label, false, false⟩ []) := by
  by_cases htype : n.nodeType = .none
  · exact .none (if_pos (.inl htype)) htype
  · have hnot : ¬ (n.label.nodeType = .none ∨ (keptAll [] = [] ∧ false = true)) := by
      rintro (hnone | ⟨-, hfalse⟩)
      · exact htype hnone
      · exact Bool.false_ne_true hfalse
    refine .tree (.node n.label []) ((kept_node _ _).trans (if_neg hnot)) htype
      (represents_node.mpr ⟨rfl, ?_⟩)
    rw [childIndices_of_isLeaf h]
    exact .nil

/-- An operation that leaves one node for what is on top. -/
theorem Sound.operate {term : Term} (h : Sound s t)
    (hout : Outcome s.1 ctx' [n] (values.flatMap Value.held) [term])
    (hvalues : List.Forall₂ (ValueStands s.1.nodes) values tvalues) :
    Sound (ctx', .node n :: values) (t.1, .node term :: tvalues) :=
  h.advance hout.grown hout.linked
    (.cons (.node (forall₂_cons.mp hout.stands).1) (values_grow hvalues hout.grown))

/-- An action does to the values of the parser what it does to the trees. -/
theorem Sound.step (h : Sound s t) {action : Action}
    (hstep : Parser.step parseContext s action = some s') :
    ∃ t', Parser.step terms t action = some t' ∧ Sound s' t' := by
  cases action with
  | bring i =>
    obtain ⟨value, hvalue, rfl⟩ := map_eq_some_iff.mp hstep
    obtain ⟨tvalue, htvalue, hperm, hall⟩ := forall₂_bring h.values hvalue
    refine ⟨(t.1, tvalue :: t.2.eraseIdx i), ?_, h.advance .refl ?_ hall⟩
    · show (t.2[i]?).map _ = _
      rw [htvalue, map_some]
    · exact h.linked.perm (hperm.symm.flatMap_right Value.held)
  | leaf node =>
    unfold Parser.step at hstep
    dsimp only at hstep
    split at hstep
    · next hleaf =>
        obtain rfl := some.inj hstep
        refine ⟨_, if_pos hleaf, h.advance .refl ?_
          (.cons (.node (stands_of_isLeaf hleaf)) h.values)⟩
        exact h.linked.hold (childIndices_of_isLeaf hleaf) fun hhas =>
          range_of_isLeaf hleaf hhas _
    · cases hstep
  | attr key =>
    obtain ⟨top, htop, rfl⟩ := map_eq_some_iff.mp hstep
    obtain ⟨ttop, httop, hvalues, hstands, htail⟩ := popNode_stands h.values htop
    refine ⟨(t.1, .node (Term.attr key ttop.1) :: ttop.2), ?_, h.advance .refl ?_
      (.cons (.node (hstands.attr key)) htail)⟩
    · show (popNode t.2).map _ = _
      rw [httop, map_some]
      rfl
    · have hlinked := h.linked
      rw [hvalues] at hlinked
      exact hlinked.attr key
  | list =>
    obtain rfl := some.inj hstep
    exact ⟨_, rfl, h.advance .refl h.linked (.cons (.list .nil) h.values)⟩
  | pushBack =>
    obtain ⟨top, htop, hrest⟩ := bind_eq_some_iff.mp hstep
    obtain ⟨below, hbelow, rfl⟩ := map_eq_some_iff.mp hrest
    obtain ⟨ttop, httop, hvalues, hstands, htail⟩ := popNode_stands h.values htop
    obtain ⟨tbelow, htbelow, hvalues', hall, hlast⟩ := popList_stands htail hbelow
    refine ⟨(t.1, .list (tbelow.1 ++ [ttop.1]) :: tbelow.2), ?_, h.advance .refl ?_
      (.cons (.list (rel_append hall (.cons hstands .nil))) hlast)⟩
    · show (popNode t.2).bind _ = _
      rw [httop, bind_some, htbelow, map_some]
    · have hlinked := h.linked
      rw [hvalues, hvalues'] at hlinked
      refine hlinked.perm ?_
      show (top.1 :: (below.1 ++ below.2.flatMap Value.held)).Perm
        ((below.1 ++ [top.1]) ++ below.2.flatMap Value.held)
      rw [append_assoc]
      exact perm_middle.symm
  | pushFront =>
    obtain ⟨top, htop, hrest⟩ := bind_eq_some_iff.mp hstep
    obtain ⟨below, hbelow, rfl⟩ := map_eq_some_iff.mp hrest
    obtain ⟨ttop, httop, hvalues, hstands, htail⟩ := popNode_stands h.values htop
    obtain ⟨tbelow, htbelow, hvalues', hall, hlast⟩ := popList_stands htail hbelow
    refine ⟨(t.1, .list (ttop.1 :: tbelow.1) :: tbelow.2), ?_, h.advance .refl ?_
      (.cons (.list (.cons hstands hall)) hlast)⟩
    · show (popNode t.2).bind _ = _
      rw [httop, bind_some, htbelow, map_some]
    · have hlinked := h.linked
      rw [hvalues, hvalues'] at hlinked
      exact hlinked
  | append =>
    obtain ⟨top, htop, hrest⟩ := bind_eq_some_iff.mp hstep
    obtain ⟨below, hbelow, rfl⟩ := map_eq_some_iff.mp hrest
    obtain ⟨ttop, httop, hvalues, hstands, htail⟩ := popList_stands h.values htop
    obtain ⟨tbelow, htbelow, hvalues', hall, hlast⟩ := popList_stands htail hbelow
    refine ⟨(t.1, .list (tbelow.1 ++ ttop.1) :: tbelow.2), ?_, h.advance .refl ?_
      (.cons (.list (rel_append hall hstands)) hlast)⟩
    · show (popList t.2).bind _ = _
      rw [httop, bind_some, htbelow, map_some]
    · have hlinked := h.linked
      rw [hvalues, hvalues'] at hlinked
      refine hlinked.perm ?_
      show (top.1 ++ (below.1 ++ below.2.flatMap Value.held)).Perm
        ((below.1 ++ top.1) ++ below.2.flatMap Value.held)
      rw [← append_assoc]
      exact perm_append_comm.append_right _
  | array loc nullIfEmpty shrinkLocation =>
    obtain ⟨top, htop, rfl⟩ := map_eq_some_iff.mp hstep
    obtain ⟨ttop, httop, hvalues, hstands, htail⟩ := popList_stands h.values htop
    have hlinked := h.linked
    rw [hvalues] at hlinked
    refine ⟨(t.1, .node (container loc .array ttop.1 nullIfEmpty shrinkLocation) :: ttop.2), ?_,
      h.operate (@outcome_addContainer _ _ _ _ .array rfl rfl hlinked hstands loc nullIfEmpty
        shrinkLocation) htail⟩
    show (popList t.2).map _ = _
    rw [httop, map_some]
    rfl
  | object loc type nullIfEmpty shrinkLocation =>
    unfold Parser.step at hstep
    dsimp only at hstep
    split at hstep
    · next htype =>
        obtain ⟨top, htop, rfl⟩ := map_eq_some_iff.mp hstep
        obtain ⟨ttop, httop, hvalues, hstands, htail⟩ := popList_stands h.values htop
        have hlinked := h.linked
        rw [hvalues] at hlinked
        have hhas : hasChildren type = true := by
          unfold hasChildren
          rw [htype, Bool.or_true]
        refine ⟨(t.1, .node (container loc type ttop.1 nullIfEmpty shrinkLocation) :: ttop.2), ?_,
          h.operate (outcome_addContainer (linksChildren_of_isObjectType htype) hhas hlinked
            hstands loc nullIfEmpty shrinkLocation) htail⟩
        refine (if_pos htype).trans ?_
        rw [httop, map_some]
        rfl
    · cases hstep
  | variant =>
    obtain ⟨top, htop, rfl⟩ := map_eq_some_iff.mp hstep
    obtain ⟨ttop, httop, hvalues, hstands, htail⟩ := popNode_stands h.values htop
    refine ⟨(t.1, .variant (.node ttop.1) :: ttop.2), ?_, h.advance .refl ?_
      (.cons (.variant (.node hstands)) htail)⟩
    · show (popNode t.2).map _ = _
      rw [httop, map_some]
      rfl
    · have hlinked := h.linked
      rw [hvalues] at hlinked
      exact hlinked
  | arrayOf count loc nullIfEmpty shrinkLocation =>
    obtain ⟨popped, hpopped, rfl⟩ := map_eq_some_iff.mp hstep
    obtain ⟨tpopped, htpopped, hperm, hall, hlast⟩ := popVariants_stands h.values hpopped
    refine ⟨(t.1, .node (container loc .array (tpopped.1.map TermVariant.expression) nullIfEmpty
        shrinkLocation) :: tpopped.2), ?_,
      h.operate (outcome_arrayOf (h.linked.perm hperm) hall loc nullIfEmpty shrinkLocation) hlast⟩
    show (popVariants count t.2).map _ = _
    rw [htpopped, map_some]
    rfl
  | expression =>
    obtain ⟨top, htop, rfl⟩ := map_eq_some_iff.mp hstep
    obtain ⟨ttop, httop, hvalues, hstands, htail⟩ := popVariant_stands h.values htop
    have hlinked := h.linked
    rw [hvalues] at hlinked
    refine ⟨(t.1, .node ttop.1.expression :: ttop.2), ?_,
      h.operate (outcome_expression hlinked hstands) htail⟩
    show (popVariant t.2).map _ = _
    rw [httop, map_some]
    rfl
  | tryMerge count loc =>
    obtain ⟨top, htop, hrest⟩ := bind_eq_some_iff.mp hstep
    obtain ⟨popped, hpopped, hmerge⟩ := bind_eq_some_iff.mp hrest
    obtain ⟨v, hv, rfl⟩ := map_eq_some_iff.mp hmerge
    obtain ⟨ttop, httop, hvalues, hstands, htail⟩ := popNode_stands h.values htop
    obtain ⟨tpopped, htpopped, hperm, hall, hlast⟩ := popVariants_stands htail hpopped
    have hlinked := h.linked
    rw [hvalues] at hlinked
    obtain ⟨op, hop, hlinked', hgrown, hvariant⟩ :=
      tryMerge_stands (hlinked.perm (hperm.cons top.1)) hstands hall hv
    refine ⟨(t.1, .variant (.nary loc op ttop.1 (tpopped.1.flatMap (TermVariant.merged op))) ::
        tpopped.2), ?_, h.advance hgrown hlinked'
      (.cons (.variant hvariant) (values_grow hlast hgrown))⟩
    show (popNode t.2).bind _ = _
    rw [httop, bind_some, htpopped, bind_some]
    show ((mergeOperator ttop.1).map _).map _ = _
    rw [hop, map_some, map_some]
    rfl
  | addStatement =>
    obtain ⟨top, htop, hrest⟩ := bind_eq_some_iff.mp hstep
    obtain ⟨ttop, httop, hvalues, hstands, htail⟩ := popNode_stands h.values htop
    split at hrest
    · next hempty =>
        obtain rfl := some.inj hrest
        have hnil : top.2 = [] := List.isEmpty_iff.mp hempty
        rw [hnil] at hvalues htail
        have htnil : ttop.2 = [] := by
          cases hlast : ttop.2 with
          | nil => rfl
          | cons tvalue tvalues =>
            rw [hlast] at htail
            cases htail
        have hs : Sound (s.1, [.node top.1]) t := hvalues ▸ h
        refine ⟨(t.1 ++ (kept ttop.1).toList, []), ?_, hs.addStatement hstands⟩
        show (popNode t.2).bind _ = _
        rw [httop, bind_some, htnil]
        rfl
    · cases hrest

theorem Sound.run (h : Sound s t) {actions : List Action}
    (hrun : Parser.run parseContext s actions = some s') :
    ∃ t', Parser.run terms t actions = some t' ∧ Sound s' t' := by
  induction actions generalizing s t with
  | nil =>
    obtain rfl := some.inj hrun
    exact ⟨t, rfl, h⟩
  | cons action actions ih =>
    unfold Parser.run at hrun ⊢
    rw [foldlM_cons] at hrun
    obtain ⟨next, hnext, hrest⟩ := bind_eq_some_iff.mp hrun
    obtain ⟨tnext, htnext, hsound⟩ := h.step hnext
    obtain ⟨t', ht', hsound'⟩ := ih hsound hrest
    refine ⟨t', ?_, hsound'⟩
    rw [foldlM_cons, htnext]
    exact ht'

theorem sound_start : Sound ({}, []) ([], []) where
  linked :=
    { opened := .nil
      begin_le := le_rfl
      children := fun _ _ h => absurd h (by simp)
      parent := fun _ _ h => absurd h (by simp)
      closed := fun _ _ h => absurd h (by simp)
      range := fun _ _ h => absurd h (by simp)
      held_range := fun _ h => (not_mem_nil h).elim }
  values := .nil
  statements := .nil
  ranges := fun _ h => (not_mem_nil h).elim
  ordered := .nil
  covered := fun _ h => absurd h (Nat.not_lt_zero _)

/-! ## The buffer of a script -/

/-- The buffer has the trees of the statements, each in a range of its own, and every node but a
root is linked to the node that has it as a child. -/
structure Decoded (ctx : ParseContext) (trees : List (RoseTree Label)) : Prop where
  trees : List.Forall₂ (fun statement tree =>
    RepresentsAt Node.label childIndices ctx.nodes statement.root tree) ctx.statements trees
  children_below : ∀ (j : ℕ) (n : Node), ctx.nodes[j]? = some n → hasChildren n.nodeType →
    n.childrenBeginOrValue + n.childrenCount ≤ j
  parent : ∀ (i : ℕ) (n : Node), ctx.nodes[i]? = some n →
    (∀ statement ∈ ctx.statements, statement.root ≠ i) →
    IsChild childIndices ctx.nodes n.parent i
  parent_eq : ∀ (i j : ℕ) (n : Node), ctx.nodes[i]? = some n →
    IsChild childIndices ctx.nodes j i → n.parent = j
  range : ∀ statement ∈ ctx.statements,
    statement.root + 1 = statement.nodesBegin + statement.nodeCount ∧
    ∀ i, (statement.nodesBegin ≤ i ∧ i < statement.nodesBegin + statement.nodeCount) ↔
      IsBelow childIndices ctx.nodes statement.root i
  ordered : ctx.statements.Pairwise fun first second =>
    first.nodesBegin + first.nodeCount ≤ second.nodesBegin

/-- Two statements are the same one, or one of them is in front of the other one. -/
theorem Sound.compare (h : Sound s t) {first second : Statement} (hfirst : first ∈ s.1.statements)
    (hsecond : second ∈ s.1.statements) :
    first = second ∨ first.root < second.nodesBegin ∨ second.root < first.nodesBegin := by
  by_cases hsame : first = second
  · exact .inl hsame
  · have hboth : s.1.statements.Pairwise fun first second =>
        first.root < second.nodesBegin ∨ second.root < first.nodesBegin := h.ordered.imp Or.inl
    have hsymm : Std.Symm fun first second : Statement =>
        first.root < second.nodesBegin ∨ second.root < first.nodesBegin :=
      ⟨fun _ _ hor => hor.symm⟩
    exact .inr (hboth.forall hfirst hsecond hsame)

theorem Sound.mem_range_iff (h : Sound s t) {statement : Statement}
    (hmem : statement ∈ s.1.statements) (i : ℕ) :
    (statement.nodesBegin ≤ i ∧ i ≤ statement.root) ↔
      IsBelow childIndices s.1.nodes statement.root i := by
  obtain ⟨hrange, hroot⟩ := h.ranges statement hmem
  constructor
  · rintro ⟨hbegin, hle⟩
    -- The parents lead from a node up to the root.
    induction hdistance : statement.root - i using Nat.strong_induction_on generalizing i with
    | _ distance ih =>
      have hlength : i < s.1.nodes.length := (hle.trans_lt hroot).trans_le h.linked.begin_le
      have hm := getElem?_eq_getElem hlength
      rcases hrange.parent i _ hm hbegin hle with ⟨rfl, -⟩ | ⟨hlt, hparent⟩
      · exact .refl
      · have habove := ih (statement.root - s.1.nodes[i].parent) (by omega) s.1.nodes[i].parent
          (by omega) hparent rfl
        rcases h.linked.parent i _ hm with hself | ⟨-, hchild⟩
        · exact absurd hself (by omega)
        · exact habove.tail hchild
  · intro hbelow
    induction hbelow with
    | refl => exact ⟨hrange.begin_le, le_rfl⟩
    | @tail above i habove hchild ih =>
      obtain ⟨n, hn, hi⟩ := hchild
      obtain ⟨hlt, hparent⟩ := h.linked.children above n hn i hi
      obtain ⟨m, hm, hparent'⟩ := map_eq_some_iff.mp hparent
      refine ⟨?_, (Nat.le_of_lt hlt).trans ih.2⟩
      by_contra hbefore
      -- A node in front of the range is in another one, and so is its parent.
      obtain ⟨other, hother, hin⟩ := h.covered i (by
        have hcurrent : statement.root < s.1.currentStatement.nodesBegin := hroot
        have hbegin := hrange.begin_le
        omega)
      have hcompare := h.compare hmem hother
      have hotherRange := (h.ranges other hother).1.parent i m hm hin.1 hin.2
      have hbegin := hrange.begin_le
      have hotherBegin := (h.ranges other hother).1.begin_le
      rcases hcompare with rfl | hcompare
      · exact hbefore hin.1
      · omega

/-- The run of a parser decodes to the trees that its actions describe. -/
theorem parse_decodes (actions : List Action) {ctx : ParseContext}
    (hrun : run parseContext ({}, []) actions = some (ctx, [])) :
    ∃ trees, run terms ([], []) actions = some (trees, []) ∧ Decoded ctx trees := by
  obtain ⟨t, ht, hsound⟩ := sound_start.run hrun
  have hvalues : t.2 = [] := by
    cases hlast : t.2 with
    | nil => rfl
    | cons tvalue tvalues =>
      have hall := hsound.values
      rw [hlast] at hall
      cases hall
  have hopened : ∀ i, i ∉ openIndices ctx := by
    intro i hi
    exact not_mem_nil (hsound.linked.opened.mem_iff.mpr hi)
  have hparentEq : ∀ (i j : ℕ) (n : Node), ctx.nodes[i]? = some n →
      IsChild childIndices ctx.nodes j i → n.parent = j := by
    rintro i j n hn ⟨p, hp, hi⟩
    have hparent := (hsound.linked.children j p hp i hi).2
    rw [hn] at hparent
    exact some.inj hparent
  refine ⟨t.1, by rw [ht, ← hvalues], hsound.statements, hsound.linked.range, ?_, hparentEq, ?_, ?_⟩
  · intro i n hn hnotRoot
    rcases hsound.linked.parent i n hn with hself | ⟨-, hchild⟩
    · have hlength : i < ctx.nodes.length := (List.getElem?_eq_some_iff.mp hn).1
      by_cases hi : i < ctx.currentStatement.nodesBegin
      · obtain ⟨statement, hmem, hbegin, hroot⟩ := hsound.covered i hi
        rcases (hsound.ranges statement hmem).1.parent i n hn hbegin hroot with ⟨heq, -⟩ | ⟨hlt, -⟩
        · exact absurd heq.symm (hnotRoot statement hmem)
        · exact absurd hself (Nat.ne_of_gt hlt)
      · refine absurd (mem_openIndices.mpr ⟨Nat.not_lt.mp hi, hlength, ?_⟩) (hopened i)
        rw [hn, map_some, hself]
    · exact hchild
  · intro statement hmem
    have heq := (hsound.ranges statement hmem).1.root_eq
    refine ⟨heq, fun i => ?_⟩
    rw [← hsound.mem_range_iff hmem i]
    show _ ↔ statement.nodesBegin ≤ i ∧ i ≤ statement.root
    omega
  · refine hsound.ordered.imp_of_mem fun {first second} hfirst _ hlt => ?_
    have heq := (hsound.ranges first hfirst).1.root_eq
    omega

/-- `1 and 2 and 3` in a select statement, and an empty statement behind it. -/
def conjunction : List Action :=
  [.leaf { symbolSpan := ⟨1, 1⟩, nodeType := .literalInteger }, .variant,
    .leaf { symbolSpan := ⟨3, 1⟩, nodeType := .literalInteger }, .variant,
    .leaf { symbolSpan := ⟨2, 1⟩, nodeType := .enumSqlExpressionOperator,
            childrenBeginOrValue := ExpressionOperator.and.ctorIdx },
    .tryMerge 2 ⟨1, 3⟩,
    .leaf { symbolSpan := ⟨5, 1⟩, nodeType := .literalInteger }, .variant,
    .leaf { symbolSpan := ⟨4, 1⟩, nodeType := .enumSqlExpressionOperator,
            childrenBeginOrValue := ExpressionOperator.and.ctorIdx },
    .tryMerge 2 ⟨1, 5⟩, .expression, .attr 1, .list, .bring 1, .pushBack,
    .object ⟨0, 6⟩ .objectSqlSelect true false, .addStatement, .leaf null, .addStatement]

def conjunctionContext : ParseContext :=
  ((run parseContext ({}, []) conjunction).getD ({}, [])).1

theorem parse_decodes_conjunction :
    ∃ trees, run terms ([], []) conjunction = some (trees, []) ∧ Decoded conjunctionContext trees :=
  parse_decodes conjunction rfl

/-! ## The statements of references -/

def Statement.nodesEnd (s : Statement) : ℕ := s.nodesBegin + s.nodeCount

/-- The loops of `assign_statment_ids` from a statement on, over the nodes of all chunks.  There
is no result if they read behind the last statement. -/
def assignStatementIds : List (Statement × ℕ) → List ℕ → Option (List (Option ℕ))
  | _, [] => some []
  | statements, ref :: refs =>
    match statements.dropWhile fun s => s.1.nodesEnd ≤ ref with
    | [] => none
    | s :: rest => (assignStatementIds (s :: rest) refs).map
        ((if s.1.nodesBegin ≤ ref then some s.2 else none) :: ·)

variable {statements : List (Statement × ℕ)}

theorem mem_dropWhile_iff
    (hordered : statements.Pairwise fun s later => s.1.nodesEnd ≤ later.1.nodesBegin)
    (ref : ℕ) (s : Statement × ℕ) :
    s ∈ statements.dropWhile (fun s => s.1.nodesEnd ≤ ref) ↔
      s ∈ statements ∧ ref < s.1.nodesEnd := by
  induction statements with
  | nil => simp
  | cons first rest ih =>
    rw [pairwise_cons] at hordered
    by_cases hpassed : first.1.nodesEnd ≤ ref
    · rw [dropWhile_cons, if_pos (decide_eq_true hpassed), ih hordered.2]
      grind
    · rw [dropWhile_cons, if_neg (by simpa using hpassed)]
      grind [Statement.nodesEnd]

/-- For statements in the order of a parsed script (`Decoded`), the loops read nothing behind the
last one exactly if no reference is behind it.  A reference gets the statement that has its node,
unless an earlier reference is behind that statement. -/
theorem assignStatementIds_iff
    (hordered : statements.Pairwise fun s later => s.1.nodesEnd ≤ later.1.nodesBegin)
    (refs : List ℕ) :
    ((assignStatementIds statements refs).isSome ↔
      ∀ ref ∈ refs, ∃ s ∈ statements, ref < s.1.nodesEnd) ∧
    ∀ ids, assignStatementIds statements refs = some ids → ∀ i id : ℕ, ids[i]? = some (some id) ↔
      ∃ s ∈ statements, s.2 = id ∧ (∃ ref, refs[i]? = some ref ∧ s.1.nodesBegin ≤ ref) ∧
        ∀ ref ∈ refs.take (i + 1), ref < s.1.nodesEnd := by
  induction refs generalizing statements with
  | nil => simp [assignStatementIds]
  | cons ref refs ih =>
    have hmem := mem_dropWhile_iff hordered ref
    have hafter := hordered.sublist (dropWhile_sublist fun s => s.1.nodesEnd ≤ ref)
    rw [assignStatementIds]
    -- the loops go on with the statements that are not passed yet
    generalize statements.dropWhile _ = after at hmem hafter
    obtain ⟨hsome, hids⟩ := ih hafter
    cases after with
    | nil =>
      refine ⟨iff_of_false Bool.false_ne_true fun h => ?_, fun ids hnone => nomatch hnone⟩
      obtain ⟨s, hs⟩ := h ref (mem_cons_self ..)
      exact not_mem_nil ((hmem s).mpr hs)
    | cons s rest =>
      refine ⟨by rw [isSome_map, hsome]; grind, fun ids hassigned i id => ?_⟩
      obtain ⟨ids', hids', rfl⟩ := map_eq_some_iff.mp hassigned
      cases i with
      | zero =>
        have hlater := (pairwise_cons.mp hafter).1
        simp only [getElem?_cons_zero, take_succ_cons, take_zero, mem_singleton, forall_eq]
        grind
      | succ i =>
        rw [getElem?_cons_succ, hids ids' hids']
        simp only [hmem, getElem?_cons_succ, take_succ_cons, mem_cons, forall_eq_or_imp]
        exact exists_congr fun s => by tauto

theorem assignStatementIds_iff_two :
    (assignStatementIds [({ nodeCount := 2 }, 0), ({ nodesBegin := 3, nodeCount := 2 }, 1)]
      [1, 4, 2]).isSome :=
  (assignStatementIds_iff (by decide) _).1.mpr (by decide)

end DashQL.Parser
