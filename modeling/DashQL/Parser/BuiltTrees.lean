import DashQL.Parser.NodeRanges

/-!
# The trees of the parse context

What the operations of the parse context return stands for the trees that the actions
describe: `Outcome` says so of the nodes that an operation leaves, and that the buffer is
linked and has what it had before.
-/

namespace DashQL.Parser

open List Option

open NodeBuffer
open ScriptDiff (NodeType SymbolSpan hasChildren)

/-- A node that is NONE, as its term is, or has the tree of the term below it. -/
inductive Stands (nodes : List Node) (n : Node) (t : Term) : Prop
  | none (hkept : kept t = none) (htype : n.nodeType = .none)
  | tree (tree : RoseTree Label) (hkept : kept t = some tree) (htype : n.nodeType ≠ .none)
      (htree : Represents Node.label childIndices nodes n tree)

inductive VariantStands (nodes : List Node) : ExpressionVariant → TermVariant → Prop
  | node {n : Node} {t : Term} (h : Stands nodes n t) : VariantStands nodes (.node n) (.node t)
  | nary {e : NAryExpression} {opTerm : Term} {args : List Term}
      (hop : Stands nodes e.opNode opTerm) (hleaf : childIndices e.opNode = [])
      (hargs : List.Forall₂ (Stands nodes) e.args args) :
      VariantStands nodes (.nary e) (.nary e.location e.op opTerm args)

/-- The nodes that an expression holds. -/
def ExpressionVariant.held : ExpressionVariant → List Node
  | .node n => [n]
  | .nary e => e.opNode :: e.args

/-- The effect of an operation that leaves nodes for terms. -/
structure Outcome (ctx ctx' : ParseContext) (ns held : List Node) (ts : List Term) : Prop where
  linked : Linked ctx' [] (ns ++ held)
  grown : Grown ctx ctx'
  stands : List.Forall₂ (Stands ctx'.nodes) ns ts

variable {ctx ctx' ctx'' : ParseContext} {loose : List ℕ} {held ns : List Node} {ts : List Term}
  {n : Node} {t : Term} {nodes : List Node}

theorem Stands.grow (h : Stands ctx.nodes n t) (hgrown : Grown ctx ctx') :
    Stands ctx'.nodes n t := by
  cases h with
  | none hkept htype => exact .none hkept htype
  | tree tree hkept htype htree =>
    exact .tree tree hkept htype (htree.extend hgrown.extended)

theorem forall₂_grow (h : List.Forall₂ (Stands ctx.nodes) ns ts) (hgrown : Grown ctx ctx') :
    List.Forall₂ (Stands ctx'.nodes) ns ts :=
  h.imp fun _ _ hstands => hstands.grow hgrown

variable {v : ExpressionVariant}

theorem VariantStands.grow {tv : TermVariant} (h : VariantStands ctx.nodes v tv)
    (hgrown : Grown ctx ctx') : VariantStands ctx'.nodes v tv := by
  cases h with
  | node h => exact .node (h.grow hgrown)
  | nary hop hleaf hargs => exact .nary (hop.grow hgrown) hleaf (forall₂_grow hargs hgrown)

theorem kept_attr (key : ℕ) (t : Term) :
    kept (t.attr key) =
      (kept t).map (RoseTree.relabel fun label => { label with attributeKey := key }) := by
  cases t with
  | node request children =>
    have hattr : kept (Term.attr key (.node request children)) =
        if request.nodeType = .none ∨ (keptAll children = [] ∧ request.nullIfEmpty) then none
        else
          some (.node
            (if request.shrinkLocation then
              shrunk { request.toLabel with attributeKey := key } (keptAll children)
            else { request.toLabel with attributeKey := key })
            (keptAll children)) := kept_node _ children
    rw [hattr, kept_node]
    split
    · rfl
    · rw [map_some]
      unfold shrunk RoseTree.relabel
      split
      · split <;> rfl
      · rfl

theorem Stands.attr (h : Stands nodes n t) (key : ℕ) : Stands nodes (attr key n) (t.attr key) := by
  cases h with
  | none hkept htype => exact .none (by rw [kept_attr, hkept]; rfl) htype
  | tree tree hkept htype htree =>
    obtain ⟨hlabel, hall⟩ := represents_iff_root.mp htree
    refine .tree _ (by rw [kept_attr, hkept]; rfl) htype (represents_iff_root.mpr ⟨?_, ?_⟩)
    · rw [RoseTree.label_relabel, ← hlabel]
      rfl
    · rw [RoseTree.children_relabel]
      exact hall

/-! ## Arrays and objects -/

/-- The loop over the new children makes them loose, in order. -/
theorem linked_addChildren (h : Linked ctx loose (ns ++ held))
    (hstands : List.Forall₂ (Stands ctx.nodes) ns ts) :
    Linked (ctx.addChildren ns)
        (loose ++ List.range' ctx.nodes.length
          ((ctx.addChildren ns).nodes.length - ctx.nodes.length)) held ∧
      Grown ctx (ctx.addChildren ns) ∧
      List.Forall₂ (RepresentsAt Node.label childIndices (ctx.addChildren ns).nodes)
        (List.range' ctx.nodes.length
          ((ctx.addChildren ns).nodes.length - ctx.nodes.length)) (ts.filterMap kept) := by
  induction ns generalizing ctx loose ts with
  | nil =>
    cases hstands
    have hnone : (ctx.addChildren []).nodes.length - ctx.nodes.length = 0 := Nat.sub_self _
    rw [hnone, range'_zero, append_nil]
    exact ⟨h, .refl, .nil⟩
  | cons n ns ih =>
    cases hstands with
    | @cons _ t _ ts hhead htail =>
      have hfold : ctx.addChildren (n :: ns) =
          (if n.nodeType = .none then ctx else (ctx.addNode n).1).addChildren ns := rfl
      cases hhead with
      | none hkept htype =>
        rw [hfold, if_pos htype, filterMap_cons_none hkept]
        exact ih (h.drop (childIndices_of_none htype)) htail
      | tree tree hkept htype htree =>
        rw [hfold, if_neg htype, filterMap_cons_some hkept]
        have hadded := linked_addNode h
        have hgrown := grown_addNode h
        obtain ⟨hlinked, hgrown', hall⟩ := ih hadded (forall₂_grow htail hgrown)
        have hlength := hgrown'.length_le
        rw [length_addNode] at hlinked hall hlength
        have hcount : ((ctx.addNode n).1.addChildren ns).nodes.length - ctx.nodes.length =
            ((ctx.addNode n).1.addChildren ns).nodes.length - (ctx.nodes.length + 1) + 1 := by
          omega
        rw [hcount, range'_succ]
        refine ⟨?_, hgrown.trans hgrown', .cons ?_ hall⟩
        · rw [append_assoc, singleton_append] at hlinked
          exact hlinked
        · have hat : RepresentsAt Node.label childIndices (ctx.addNode n).1.nodes
              ctx.nodes.length tree := by
            refine ⟨{ n with parent := ctx.nodes.length }, ?_,
              (represents_congr (label_parent n _) (childIndices_parent n _)).mpr
                (htree.extend hgrown.extended)⟩
            rw [getElem?_addNode ctx (fun _ => h.lt_length), if_pos rfl]
          exact hat.extend hgrown'.extended

/-- The location of a container that shrinks to its children. -/
theorem shrink_eq {b count : ℕ} {trees : List (RoseTree Label)}
    (hlength : ctx.nodes.length = b + count)
    (hall : List.Forall₂ (RepresentsAt Node.label childIndices ctx.nodes) (List.range' b count)
      trees) (label : Label) (hpos : 0 < count) :
    ({ label with symbolSpan := ctx.shrink b label.symbolSpan } : Label) = shrunk label trees := by
  have hcount : trees.length = count := by rw [← hall.length_eq, length_range']
  have hspan : ∀ i < count, ∃ n tree, ctx.nodes[b + i]? = some n ∧ trees[i]? = some tree ∧
      n.symbolSpan = tree.label.symbolSpan := by
    intro i hi
    have hi' : i < (List.range' b count).length := by rwa [length_range']
    have hi'' : i < trees.length := by rwa [hcount]
    obtain ⟨n, hn, htree⟩ := hall.get hi' hi''
    rw [get_eq_getElem, getElem_range'_1] at hn
    refine ⟨n, trees[i], hn, getElem?_eq_getElem hi'', ?_⟩
    have hlabel := (represents_iff_root.mp htree).1
    exact congrArg Label.symbolSpan hlabel
  obtain ⟨first, tree, hfirst, htree, hspanFirst⟩ := hspan 0 hpos
  obtain ⟨last, tree', hlast, htree', hspanLast⟩ := hspan (count - 1) (by omega)
  have hgetLast : ctx.nodes.getLast? = some last := by
    rw [getLast?_eq_getElem?, ← hlast]
    congr 1
    omega
  have hhead : trees.head? = some tree := by
    rw [head?_eq_getElem?]
    exact htree
  have hgetLast' : trees.getLast? = some tree' := by
    rw [getLast?_eq_getElem?, hcount]
    exact htree'
  unfold ParseContext.shrink shrunk
  rw [Nat.add_zero] at hfirst
  simp only [hfirst, hgetLast, hhead, hgetLast', hspanFirst, hspanLast]

/-- What `Array` and `Object` leave. -/
theorem outcome_addContainer {type : NodeType} (htype : linksChildren type = true)
    (hhas : hasChildren type = true) (h : Linked ctx [] (ns ++ held))
    (hstands : List.Forall₂ (Stands ctx.nodes) ns ts) (loc : SymbolSpan)
    (nullIfEmpty shrinkLocation : Bool) :
    Outcome ctx (ctx.addContainer loc type ns nullIfEmpty shrinkLocation).1
      [(ctx.addContainer loc type ns nullIfEmpty shrinkLocation).2] held
      [container loc type ts nullIfEmpty shrinkLocation] := by
  obtain ⟨hlinked, hgrown, hall⟩ := linked_addChildren h hstands
  obtain ⟨count, hcount⟩ : ∃ count,
      (ctx.addChildren ns).nodes.length - ctx.nodes.length = count := ⟨_, rfl⟩
  have hlength := hgrown.length_le
  have htypeNone : type ≠ .none := by
    rintro rfl
    exact absurd htype (by decide)
  rw [hcount, nil_append] at hlinked
  rw [hcount] at hall
  have hkeptLength : (ts.filterMap kept).length = count := by
    rw [← hall.length_eq, length_range']
  have hkept := kept_node ⟨⟨loc, type, 0, 0⟩, nullIfEmpty, shrinkLocation⟩ ts
  rw [keptAll_eq] at hkept
  unfold ParseContext.addContainer
  dsimp only
  rw [hcount]
  by_cases hempty : count = 0 ∧ nullIfEmpty = true
  · rw [if_pos hempty]
    have hnil : ts.filterMap kept = [] := length_eq_zero_iff.mp (hkeptLength.trans hempty.1)
    refine ⟨?_, hgrown, .cons (.none ?_ rfl) .nil⟩
    · rw [hempty.1] at hlinked
      refine ⟨hlinked.opened, hlinked.begin_le, hlinked.children, hlinked.parent, hlinked.closed,
        hlinked.range, fun m hm hhasm => ?_⟩
      rcases mem_cons.mp hm with rfl | hm
      · exact absurd (show hasChildren NodeType.none = true from hhasm) (by decide)
      · exact hlinked.held_range m hm hhasm
    · exact hkept.trans (if_pos (.inr ⟨hnil, hempty.2⟩))
  · rw [if_neg hempty]
    have hnot : ¬ (type = .none ∨ (ts.filterMap kept = [] ∧ nullIfEmpty = true)) := by
      rintro (hnone | ⟨hnil, hnull⟩)
      · exact htypeNone hnone
      · exact hempty ⟨by rw [← hkeptLength, hnil]; rfl, hnull⟩
    have hchildren : ∀ span, childIndices
        { symbolSpan := span, nodeType := type, childrenBeginOrValue := ctx.nodes.length,
          childrenCount := count } = List.range' ctx.nodes.length count := by
      intro span
      exact if_pos htype
    refine ⟨?_, hgrown, .cons (.tree _ (hkept.trans (if_neg hnot)) htypeNone
      (represents_node.mpr ⟨?_, ?_⟩)) .nil⟩
    · refine ⟨?_, hlinked.begin_le, hlinked.children, hlinked.parent, hlinked.closed,
        hlinked.range, fun m hm hhasm => ?_⟩
      · rw [singleton_append, flatMap_cons, hchildren]
        exact hlinked.opened
      · rcases mem_cons.mp hm with rfl | hm
        · show ctx.nodes.length + count ≤ (ctx.addChildren ns).nodes.length
          omega
        · exact hlinked.held_range m hm hhasm
    · unfold Node.label
      simp only [hhas, if_true]
      cases shrinkLocation with
      | false => simp
      | true =>
        by_cases hpos : 0 < count
        · have hshrink := shrink_eq (by omega) hall ⟨loc, type, 0, 0⟩ hpos
          simpa [hpos] using hshrink
        · have hnil : ts.filterMap kept = [] :=
            length_eq_zero_iff.mp (hkeptLength.trans (by omega))
          rw [hnil]
          simp [hpos, shrunk]
    · rw [hchildren]
      exact hall

/-! ## Expressions -/

/-- Nodes that are not touched, after an operation on others. -/
theorem Outcome.andThen {ms ms' : List Node} {us us' : List Term}
    (h : Outcome ctx ctx' ns (ms ++ held) ts) (hms : List.Forall₂ (Stands ctx.nodes) ms us)
    (h' : Linked ctx' [] (ns ++ (ms ++ held)) →
      List.Forall₂ (Stands ctx'.nodes) (ns ++ ms) (ts ++ us) → Outcome ctx' ctx'' ms' held us') :
    Outcome ctx ctx'' ms' held us' := by
  have hnext := h' h.linked (rel_append h.stands (forall₂_grow hms h.grown))
  exact ⟨hnext.linked, h.grown.trans hnext.grown, hnext.stands⟩

theorem outcome_expression {tv : TermVariant} (h : Linked ctx [] (v.held ++ held))
    (hv : VariantStands ctx.nodes v tv) :
    Outcome ctx (ctx.expression v).1 [(ctx.expression v).2] held [tv.expression] := by
  cases hv with
  | node hstands => exact ⟨h, .refl, .cons hstands .nil⟩
  | @nary e opTerm args hop hleaf hargs =>
    have harray : Outcome ctx (ctx.array e.location e.args true false).1
        [(ctx.array e.location e.args true false).2] ([e.opNode] ++ held)
        [container e.location .array args true false] :=
      outcome_addContainer rfl rfl (h.perm (by
        show (e.opNode :: (e.args ++ held)).Perm (e.args ++ e.opNode :: held)
        exact perm_middle.symm)) hargs e.location true false
    refine harray.andThen (.cons hop .nil) fun hlinked hstands => ?_
    obtain ⟨hargsNode, hopNode⟩ := forall₂_cons.mp hstands
    have hattr : Linked (ctx.array e.location e.args true false).1 []
        ([attr sqlExpressionOperator e.opNode,
          attr sqlExpressionArgs (ctx.array e.location e.args true false).2] ++ held) := by
      have hswapped := (hlinked.attr sqlExpressionArgs).perm (List.Perm.swap e.opNode _ held)
      exact hswapped.attr sqlExpressionOperator
    exact outcome_addContainer rfl rfl hattr
      (.cons ((forall₂_cons.mp hopNode).1.attr sqlExpressionOperator)
        (.cons (hargsNode.attr sqlExpressionArgs) .nil)) e.location true false

/-- A step that takes an expression and adds nodes to a list. -/
def Adds (f : ParseContext × List Node → ExpressionVariant → ParseContext × List Node)
    (g : TermVariant → List Term) : Prop :=
  ∀ (ctx : ParseContext) (done : List Node) (v : ExpressionVariant) (tv : TermVariant)
    (held : List Node), Linked ctx [] (v.held ++ held) → VariantStands ctx.nodes v tv →
    ∃ added, (f (ctx, done) v).2 = done ++ added ∧ Outcome ctx (f (ctx, done) v).1 added held (g tv)

theorem adds_expression :
    Adds (fun done expr => ((done.1.expression expr).1, done.2 ++ [(done.1.expression expr).2]))
      fun tv => [tv.expression] :=
  fun _ _ _ _ _ h hv => ⟨_, rfl, outcome_expression h hv⟩

theorem adds_mergeArg (op : ℕ) : Adds (ParseContext.mergeArg op) (TermVariant.merged op) := by
  intro ctx done v tv held h hv
  cases hv with
  | node hstands => exact ⟨_, rfl, h, .refl, .cons hstands .nil⟩
  | @nary e opTerm args hop hleaf hargs =>
    unfold ParseContext.mergeArg TermVariant.merged
    dsimp only
    by_cases hsame : e.op ≠ op
    · rw [if_pos hsame, if_pos hsame]
      exact ⟨_, rfl, outcome_expression h (.nary hop hleaf hargs)⟩
    · rw [if_neg hsame, if_neg hsame]
      exact ⟨e.args, rfl, h.drop hleaf, .refl, hargs⟩

variable {vs : List ExpressionVariant} {tvs : List TermVariant}

theorem outcome_foldl {f : ParseContext × List Node → ExpressionVariant → ParseContext × List Node}
    {g : TermVariant → List Term} (hadds : Adds f g) {done : List Node} {us : List Term}
    (h : Linked ctx [] (done ++ (vs.flatMap ExpressionVariant.held ++ held)))
    (hdone : List.Forall₂ (Stands ctx.nodes) done us)
    (hvs : List.Forall₂ (VariantStands ctx.nodes) vs tvs) :
    Outcome ctx (vs.foldl f (ctx, done)).1 (vs.foldl f (ctx, done)).2 held
      (us ++ tvs.flatMap g) := by
  induction vs generalizing ctx done us tvs with
  | nil =>
    cases hvs
    rw [flatMap_nil, append_nil]
    exact ⟨h, .refl, hdone⟩
  | cons v vs ih =>
    cases hvs with
    | @cons _ tv _ tvs hhead htail =>
      have hfront : Linked ctx [] (v.held ++ (done ++
          (vs.flatMap ExpressionVariant.held ++ held))) := by
        refine h.perm ?_
        rw [flatMap_cons, append_assoc, ← append_assoc, ← append_assoc v.held]
        exact perm_append_comm.append_right _
      obtain ⟨added, hadded, hout⟩ := hadds ctx done v tv _ hfront hhead
      have hnext := @ih (f (ctx, done) v).1 tvs (done ++ added) (us ++ g tv) (by
          rw [append_assoc]
          refine hout.linked.perm ?_
          rw [← append_assoc, ← append_assoc done]
          exact perm_append_comm.append_right _)
        (rel_append (forall₂_grow hdone hout.grown) hout.stands)
        (htail.imp fun _ _ hstands => hstands.grow hout.grown)
      have hstep : (v :: vs).foldl f (ctx, done) =
          vs.foldl f ((f (ctx, done) v).1, done ++ added) := by
        rw [foldl_cons, ← hadded]
      rw [hstep, flatMap_cons, ← append_assoc]
      exact ⟨hnext.linked, hout.grown.trans hnext.grown, hnext.stands⟩

theorem outcome_arrayOf (h : Linked ctx [] (vs.flatMap ExpressionVariant.held ++ held))
    (hvs : List.Forall₂ (VariantStands ctx.nodes) vs tvs) (loc : SymbolSpan)
    (nullIfEmpty shrinkLocation : Bool) :
    Outcome ctx (ctx.arrayOf loc vs nullIfEmpty shrinkLocation).1
      [(ctx.arrayOf loc vs nullIfEmpty shrinkLocation).2] held
      [container loc .array (tvs.map TermVariant.expression) nullIfEmpty shrinkLocation] := by
  have hfold := outcome_foldl adds_expression h (.nil) hvs
  rw [nil_append, ← map_eq_flatMap] at hfold
  have harray := @outcome_addContainer _ _ _ _ .array rfl rfl hfold.linked hfold.stands loc
    nullIfEmpty shrinkLocation
  exact ⟨harray.linked, hfold.grown.trans harray.grown, harray.stands⟩

theorem tryMerge_stands {opTerm : Term} {loc : SymbolSpan}
    (h : Linked ctx [] (n :: (vs.flatMap ExpressionVariant.held ++ held)))
    (hop : Stands ctx.nodes n opTerm) (hvs : List.Forall₂ (VariantStands ctx.nodes) vs tvs)
    (hmerge : (ctx.tryMerge loc n vs).2 = some v) :
    ∃ op, mergeOperator opTerm = some op ∧
      Linked (ctx.tryMerge loc n vs).1 [] (v.held ++ held) ∧
      Grown ctx (ctx.tryMerge loc n vs).1 ∧
      VariantStands (ctx.tryMerge loc n vs).1.nodes v
        (.nary loc op opTerm (tvs.flatMap (TermVariant.merged op))) := by
  unfold ParseContext.tryMerge at hmerge ⊢
  dsimp only at hmerge ⊢
  by_cases hcase : n.nodeType = .enumSqlExpressionOperator ∧
      (n.childrenBeginOrValue = ExpressionOperator.and.ctorIdx ∨
        n.childrenBeginOrValue = ExpressionOperator.or.ctorIdx)
  · rw [if_pos hcase] at hmerge ⊢
    obtain rfl := some.inj hmerge
    have hleaf : childIndices n = [] :=
      childIndices_of_not_linksChildren (by rw [hcase.1]; rfl)
    have hrange : hasChildren n.nodeType →
        n.childrenBeginOrValue + n.childrenCount ≤
          (vs.foldl (ParseContext.mergeArg n.childrenBeginOrValue) (ctx, [])).1.nodes.length := by
      rw [hcase.1]
      exact fun hhas => absurd hhas (by decide)
    have hfold := outcome_foldl (adds_mergeArg n.childrenBeginOrValue) (h.drop hleaf) .nil hvs
    refine ⟨n.childrenBeginOrValue, ?_, hfold.linked.hold hleaf hrange, hfold.grown,
      .nary (hop.grow hfold.grown) hleaf hfold.stands⟩
    cases hop with
    | none hkept htype =>
      rw [hcase.1] at htype
      exact absurd htype (by decide)
    | tree tree hkept htype htree =>
      have hlabel := (represents_iff_root.mp htree).1
      have htypeEq : tree.label.nodeType = n.nodeType := congrArg Label.nodeType hlabel.symm
      have hvalue : tree.label.value = n.childrenBeginOrValue := by
        refine (congrArg Label.value hlabel.symm).trans (if_neg ?_)
        rw [hcase.1]
        decide
      unfold mergeOperator
      rw [hkept, bind_some, htypeEq, hvalue, if_pos hcase]
  · rw [if_neg hcase] at hmerge
    exact absurd hmerge (by simp)

end DashQL.Parser
