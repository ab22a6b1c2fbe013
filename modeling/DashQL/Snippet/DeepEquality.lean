import DashQL.Snippet.Mirrors

/-!
# Equal snippets

Two snippets are compared node by node, and the signature is a hash of what is compared.
What is read of a node depends on its type: the name of a name, the text of a literal, and
the value and the number of children of all other nodes.

The text of a span is read with `substr`, which throws behind the end of the text.

Two snippets are deep-equal if they describe one tree, with what the deep equality of the
statement diff compares at its nodes (`Content`).  `Equals` compares the text of literals,
but not of operators: snippets that differ in an operator only are merged
(`sound_iff`).  What it compares decides the signature.
-/

namespace DashQL.Snippet

open List Option

open NodeBuffer

open DashQL.Parser (Node)

open ScriptDiff (NodeType nodeKind hasChildren ParsedScript typeId)

/-! ## The comparison -/

/-- What the switch over the node type tells apart. -/
inductive ComparedAs
  | name | literal | other
  deriving DecidableEq

def comparedAs : NodeType → ComparedAs
  | .name => .name
  | .literalNull | .literalFloat | .literalInteger | .literalInterval | .literalString => .literal
  | _ => .other

/-- `std::string_view::substr`. -/
def substr (text : List UInt8) (offset count : ℕ) : Option (List UInt8) :=
  if offset ≤ text.length then some ((text.drop offset).take count) else none

namespace ScriptSnippet

def literalText (snippet : ScriptSnippet) (node : Node) : Option (List UInt8) :=
  substr snippet.text node.symbolSpan.offset node.symbolSpan.length

def nodesAreEqual (left right : ScriptSnippet) (skipNamesAndLiterals : Bool)
    (nodeLeft nodeRight : Node) : Option Bool :=
  let equal := decide (nodeLeft.nodeType = nodeRight.nodeType) &&
    decide (nodeLeft.attributeKey = nodeRight.attributeKey)
  match comparedAs nodeLeft.nodeType with
  | .name =>
    if skipNamesAndLiterals then some equal
    else some (equal && decide (left.nameText nodeLeft = right.nameText nodeRight))
  | .literal =>
    if skipNamesAndLiterals then some equal
    else
      (left.literalText nodeLeft).bind fun valueLeft =>
        (right.literalText nodeRight).map fun valueRight =>
          equal && decide (valueLeft = valueRight)
  | .other =>
    some (equal && decide (nodeLeft.childrenBeginOrValue = nodeRight.childrenBeginOrValue) &&
      decide (nodeLeft.childrenCount = nodeRight.childrenCount))

/-- The loop of `ScriptsAreEqualImpl`, which ends with the first difference. -/
def scriptsAreEqual (left right : ScriptSnippet) (skipNamesAndLiterals : Bool) :
    List Node → List Node → Option Bool
  | nodeLeft :: leftAst, nodeRight :: rightAst =>
    (left.nodesAreEqual right skipNamesAndLiterals nodeLeft nodeRight).bind fun equal =>
      if equal then left.scriptsAreEqual right skipNamesAndLiterals leftAst rightAst
      else some false
  | _, _ => some true

def equals (left right : ScriptSnippet) (skipNamesAndLiterals : Bool) : Option Bool :=
  if left.nodes.length ≠ right.nodes.length then some false
  else left.scriptsAreEqual right skipNamesAndLiterals left.nodes right.nodes

section Signature

variable (hasher : ℕ → UInt64) (stringHash : List UInt8 → ℕ)

def hashCombine (seed : UInt64) (value : ℕ) : UInt64 :=
  seed ^^^
    (hasher value + (0x9e3779b9 : UInt64) + (seed <<< (6 : UInt64)) + (seed >>> (2 : UInt64)))

/-- A round of the loop of `ComputeScriptSignatureImpl`. -/
def hashNode (snippet : ScriptSnippet) (skipNamesAndLiterals : Bool) (seed : UInt64)
    (node : Node) : Option UInt64 :=
  let typed := hashCombine hasher (hashCombine hasher seed (typeId node.nodeType % 2 ^ 16))
    (node.attributeKey % 2 ^ 16)
  match comparedAs node.nodeType with
  | .name =>
    if skipNamesAndLiterals then some typed
    else some (hashCombine hasher typed (stringHash (snippet.nameText node)))
  | .literal =>
    if skipNamesAndLiterals then some typed
    else
      (snippet.literalText node).map fun value => hashCombine hasher typed (stringHash value)
  | .other =>
    if typeId .objectKeys ≤ typeId node.nodeType then
      some (hashCombine hasher typed (node.childrenCount % 2 ^ 32))
    else
      some (hashCombine hasher
        (hashCombine hasher typed (node.childrenBeginOrValue % 2 ^ 16))
        (node.childrenCount % 2 ^ 32))

def computeSignature (snippet : ScriptSnippet) (skipNamesAndLiterals : Bool) : Option UInt64 :=
  snippet.nodes.foldlM (snippet.hashNode hasher stringHash skipNamesAndLiterals) 0

end Signature

end ScriptSnippet

/-! ## Contents -/

/-- What is compared at a node. -/
structure Content where
  nodeType : NodeType
  attributeKey : ℕ
  value : ℕ
  text : List UInt8

/-- The content of a node, by the cases of `CheckDeepEquality`. -/
def content (snippet : ScriptSnippet) (n : Node) : Content where
  nodeType := n.nodeType
  attributeKey := n.attributeKey
  value :=
    match nodeKind n.nodeType with
    | .bool | .enum => n.childrenBeginOrValue
    | _ => 0
  text :=
    match nodeKind n.nodeType with
    | .name => snippet.nameText n
    | .text => snippet.nodeText n
    | _ => []

/-- Snippets without a root, or with roots that have one tree. -/
def DeepEqual (a b : ScriptSnippet) : Prop :=
  (a.nodes.length ≤ a.rootNodeId ∧ b.nodes.length ≤ b.rootNodeId) ∨
    ∃ tree, RepresentsAt (content a) childIndices a.nodes a.rootNodeId tree ∧
      RepresentsAt (content b) childIndices b.nodes b.rootNodeId tree

/-- What is asked of the comparison of two snippets. -/
structure Sound (hasher : ℕ → UInt64) (stringHash : List UInt8 → ℕ) (a b : ScriptSnippet) :
    Prop where
  equals : a.equals b false = some true → DeepEqual a b
  signature : ∀ skipNamesAndLiterals, a.equals b skipNamesAndLiterals = some true →
    a.computeSignature hasher stringHash skipNamesAndLiterals =
      b.computeSignature hasher stringHash skipNamesAndLiterals

/-- Nodes of one type and key that have one name, or one text that is there if they are literals,
and else one value and one number of children. -/
structure Alike (a b : ScriptSnippet) (n m : Node) : Prop where
  nodeType : n.nodeType = m.nodeType
  attributeKey : n.attributeKey = m.attributeKey
  name : comparedAs n.nodeType = .name → a.nameText n = b.nameText m
  literal : comparedAs n.nodeType = .literal →
    a.literalText n = b.literalText m ∧ (a.literalText n).isSome
  other : comparedAs n.nodeType = .other →
    n.childrenBeginOrValue = m.childrenBeginOrValue ∧ n.childrenCount = m.childrenCount

/-- The operators of two snippets have the same texts. -/
def OperatorsAgree (a b : ScriptSnippet) : Prop :=
  List.Forall₂ (fun n m => n.nodeType = .operator → a.nodeText n = b.nodeText m) a.nodes b.nodes

variable {a b : ScriptSnippet} {n m : Node}

theorem nodesAreEqual_iff : a.nodesAreEqual b false n m = some true ↔ Alike a b n m := by
  unfold ScriptSnippet.nodesAreEqual
  constructor
  · intro h
    split at h
    · next hcase =>
        simp only [Bool.false_eq_true, if_false, some.injEq, Bool.and_eq_true,
          decide_eq_true_eq] at h
        refine ⟨h.1.1, h.1.2, fun _ => h.2, fun hne => ?_, fun hne => ?_⟩ <;>
          exact absurd (hcase.symm.trans hne) (by decide)
    · next hcase =>
        simp only [Bool.false_eq_true, if_false] at h
        obtain ⟨valueLeft, hleft, h⟩ := bind_eq_some_iff.mp h
        obtain ⟨valueRight, hright, h⟩ := map_eq_some_iff.mp h
        simp only [Bool.and_eq_true, decide_eq_true_eq] at h
        refine ⟨h.1.1, h.1.2, fun hne => ?_, fun _ => ?_, fun hne => ?_⟩
        · exact absurd (hcase.symm.trans hne) (by decide)
        · rw [hleft, hright, h.2]
          exact ⟨rfl, rfl⟩
        · exact absurd (hcase.symm.trans hne) (by decide)
    · next hcase =>
        simp only [some.injEq, Bool.and_eq_true, decide_eq_true_eq] at h
        refine ⟨h.1.1.1, h.1.1.2, fun hne => ?_, fun hne => ?_, fun _ => ⟨h.1.2, h.2⟩⟩ <;>
          exact absurd (hcase.symm.trans hne) (by decide)
  · intro h
    split
    · next hcase => simp [h.nodeType, h.attributeKey, h.name hcase]
    · next hcase =>
        obtain ⟨hsame, hsome⟩ := h.literal hcase
        obtain ⟨value, hvalue⟩ := isSome_iff_exists.mp hsome
        rw [← hsame, hvalue]
        simp [h.nodeType, h.attributeKey]
    · next hcase => simp [h.nodeType, h.attributeKey, (h.other hcase).1, (h.other hcase).2]

variable {skip : Bool}

/-- The loop goes on as long as the nodes are equal. -/
theorem scriptsAreEqual_iff {ns ms : List Node} (hlength : ns.length = ms.length) :
    a.scriptsAreEqual b skip ns ms = some true ↔
      List.Forall₂ (fun n m => a.nodesAreEqual b skip n m = some true) ns ms := by
  induction ns generalizing ms with
  | nil =>
    cases ms with
    | nil => exact ⟨fun _ => .nil, fun _ => rfl⟩
    | cons m ms => cases hlength
  | cons n ns ih =>
    cases ms with
    | nil => cases hlength
    | cons m ms =>
      rw [forall₂_cons]
      unfold ScriptSnippet.scriptsAreEqual
      rw [bind_eq_some_iff]
      constructor
      · rintro ⟨equal, hnode, hrest⟩
        cases equal with
        | false => exact absurd hrest (by simp)
        | true =>
          rw [if_pos rfl] at hrest
          exact ⟨hnode, (ih (Nat.succ.inj hlength)).mp hrest⟩
      · rintro ⟨hnode, hrest⟩
        refine ⟨true, hnode, ?_⟩
        rw [if_pos rfl]
        exact (ih (Nat.succ.inj hlength)).mpr hrest

theorem equals_iff :
    a.equals b skip = some true ↔
      List.Forall₂ (fun n m => a.nodesAreEqual b skip n m = some true) a.nodes b.nodes := by
  unfold ScriptSnippet.equals
  by_cases hlength : a.nodes.length = b.nodes.length
  · rw [if_neg (not_not.mpr hlength), scriptsAreEqual_iff hlength]
  · rw [if_pos hlength]
    exact ⟨fun h => absurd h (by simp), fun h => absurd h.length_eq hlength⟩

theorem equals_false_iff :
    a.equals b false = some true ↔ List.Forall₂ (Alike a b) a.nodes b.nodes := by
  rw [equals_iff]
  simp only [nodesAreEqual_iff]

/-! ## Signatures -/

section Signature

variable {hasher : ℕ → UInt64} {stringHash : List UInt8 → ℕ}

theorem hashNode_eq (h : a.nodesAreEqual b skip n m = some true) (seed : UInt64) :
    a.hashNode hasher stringHash skip seed n = b.hashNode hasher stringHash skip seed m := by
  unfold ScriptSnippet.nodesAreEqual at h
  unfold ScriptSnippet.hashNode
  cases hcase : comparedAs n.nodeType with
  | name =>
    rw [hcase] at h
    cases skip with
    | true =>
      simp only [if_true, some.injEq, Bool.and_eq_true, decide_eq_true_eq] at h
      rw [← h.1, ← h.2, hcase]
      simp only [if_true]
    | false =>
      simp only [Bool.false_eq_true, if_false, some.injEq, Bool.and_eq_true, decide_eq_true_eq] at h
      rw [← h.1.1, ← h.1.2, hcase, h.2]
  | literal =>
    rw [hcase] at h
    cases skip with
    | true =>
      simp only [if_true, some.injEq, Bool.and_eq_true, decide_eq_true_eq] at h
      rw [← h.1, ← h.2, hcase]
      simp only [if_true]
    | false =>
      simp only [Bool.false_eq_true, if_false] at h
      obtain ⟨valueLeft, hleft, h⟩ := bind_eq_some_iff.mp h
      obtain ⟨valueRight, hright, h⟩ := map_eq_some_iff.mp h
      simp only [Bool.and_eq_true, decide_eq_true_eq] at h
      rw [← h.1.1, ← h.1.2, hcase, hleft, hright, h.2]
  | other =>
    rw [hcase] at h
    simp only [some.injEq, Bool.and_eq_true, decide_eq_true_eq] at h
    rw [← h.1.1.1, ← h.1.1.2, hcase, h.1.2, h.2]

theorem foldlM_congr {σ α β : Type} {f : σ → α → Option σ} {g : σ → β → Option σ}
    {as : List α} {bs : List β} (h : List.Forall₂ (fun x y => ∀ s, f s x = g s y) as bs) (s : σ) :
    as.foldlM f s = bs.foldlM g s := by
  induction h generalizing s with
  | nil => rfl
  | cons hhead _ ih =>
    rw [foldlM_cons, foldlM_cons, hhead]
    congr 1
    funext next
    exact ih next

theorem computeSignature_eq (h : a.equals b skip = some true) :
    a.computeSignature hasher stringHash skip = b.computeSignature hasher stringHash skip :=
  foldlM_congr ((equals_iff.mp h).imp fun _ _ hnodes seed => hashNode_eq hnodes seed) 0

end Signature

/-! ## Deep equality -/

/-- A snippet that was extracted from a parsed script. -/
def Extracted (snippet : ScriptSnippet) : Prop :=
  ∃ text script markers root fuel, extract text script markers root fuel = some snippet

/-- The trees of a snippet: the root is the last node, and every other node stands in front of
its parent. -/
structure Rooted (snippet : ScriptSnippet) : Prop where
  root_last : snippet.rootNodeId + 1 = snippet.nodes.length
  children_before : ∀ (i : ℕ) (n : Node), snippet.nodes[i]? = some n → ∀ c ∈ childIndices n, c < i
  linked : ∀ i < snippet.nodes.length, i ≠ snippet.rootNodeId →
    ∃ j, IsChild childIndices snippet.nodes j i

theorem Extracted.rooted (h : Extracted a) : a.nodes = [] ∨ Rooted a := by
  obtain ⟨text, script, markers, root, fuel, hextract⟩ := h
  by_cases hroot : root < script.nodes.length
  · obtain ⟨source, hmirrors⟩ := mirrors_of_extract hroot hextract
    exact .inr ⟨hmirrors.root_last, hmirrors.children_before,
      fun i hi hne => (hmirrors.linked i hi hne).exists⟩
  · unfold extract at hextract
    rw [if_pos (Nat.not_lt.mp hroot)] at hextract
    obtain rfl := some.inj hextract
    exact .inl rfl

variable {nodeType : NodeType}

theorem comparedAs_of_value (h : nodeKind nodeType = .bool ∨ nodeKind nodeType = .enum) :
    comparedAs nodeType = .other := by
  revert h
  cases nodeType <;> decide

theorem comparedAs_of_name (h : nodeKind nodeType = .name) : comparedAs nodeType = .name := by
  revert h
  cases nodeType <;> decide

theorem comparedAs_of_text (h : nodeKind nodeType = .text) :
    comparedAs nodeType = .literal ∨ nodeType = .operator := by
  revert h
  cases nodeType <;> decide

theorem comparedAs_of_hasChildren (h : hasChildren nodeType = true) :
    comparedAs nodeType = .other := by
  revert h
  cases nodeType <;> decide

theorem nodeText_of_literalText {text : List UInt8} (h : a.literalText n = some text) :
    a.nodeText n = text := by
  unfold ScriptSnippet.literalText substr at h
  split at h
  · exact some.inj h
  · cases h

theorem Alike.childIndices_eq (h : Alike a b n m) : childIndices m = childIndices n := by
  unfold childIndices ParsedScript.childRange
  rw [← h.nodeType]
  by_cases hhas : hasChildren n.nodeType = true
  · obtain ⟨hvalue, hcount⟩ := h.other (comparedAs_of_hasChildren hhas)
    rw [if_pos hhas, if_pos hhas, hvalue, hcount]
  · rw [if_neg hhas, if_neg hhas]

theorem Alike.content_eq (h : Alike a b n m)
    (hoperator : n.nodeType = .operator → a.nodeText n = b.nodeText m) :
    content b m = content a n := by
  unfold content
  rw [← h.nodeType, ← h.attributeKey]
  cases hkind : nodeKind n.nodeType with
  | bool => rw [(h.other (comparedAs_of_value (.inl hkind))).1]
  | enum => rw [(h.other (comparedAs_of_value (.inr hkind))).1]
  | name => rw [h.name (comparedAs_of_name hkind)]
  | text =>
    rcases comparedAs_of_text hkind with hliteral | hop
    · obtain ⟨hsame, hsome⟩ := h.literal hliteral
      obtain ⟨text, htext⟩ := isSome_iff_exists.mp hsome
      rw [nodeText_of_literalText htext, nodeText_of_literalText (hsame ▸ htext)]
    · rw [hoperator hop]
  | none => rfl
  | array => rfl
  | object => rfl
  | marker => rfl

theorem forall₂_getElem? {α β : Type} {r : α → β → Prop} {as : List α} {bs : List β}
    (h : List.Forall₂ r as bs) {i : ℕ} {x : α} (hx : as[i]? = some x) :
    ∃ y, bs[i]? = some y ∧ r x y := by
  obtain ⟨hi, rfl⟩ := List.getElem?_eq_some_iff.mp hx
  have hi' : i < bs.length := h.length_eq ▸ hi
  exact ⟨bs[i], getElem?_eq_getElem hi', h.get hi hi'⟩

theorem deepEqual_of_alike (ha : Rooted a) (hb : Rooted b)
    (halike : List.Forall₂ (Alike a b) a.nodes b.nodes) (hoperators : OperatorsAgree a b) :
    DeepEqual a b := by
  have hroot : a.rootNodeId = b.rootNodeId := by
    have := ha.root_last
    have := hb.root_last
    have := halike.length_eq
    omega
  obtain ⟨tree, htree⟩ := @exists_representsAt _ _ (content a) _ _ ha.children_before
    a.rootNodeId (by have := ha.root_last; omega)
  refine .inr ⟨tree, htree, htree.simulate (r := Eq) ?_ hroot⟩
  rintro i _ n rfl hn
  obtain ⟨m, hm, hnm⟩ := forall₂_getElem? halike hn
  obtain ⟨m', hm', hop⟩ := forall₂_getElem? hoperators hn
  obtain rfl : m = m' := some.inj (hm.symm.trans hm')
  exact ⟨m, hm, hnm.content_eq hop, hnm.childIndices_eq ▸ forall₂_refl _⟩

theorem exists_tree_of_deepEqual (ha : Rooted a) (hb : Rooted b)
    (halike : List.Forall₂ (Alike a b) a.nodes b.nodes) (hdeep : DeepEqual a b) {i : ℕ}
    (hi : i < a.nodes.length) :
    ∃ tree, RepresentsAt (content a) childIndices a.nodes i tree ∧
      RepresentsAt (content b) childIndices b.nodes i tree := by
  have hlength := halike.length_eq
  have hlastA := ha.root_last
  have hlastB := hb.root_last
  induction hdistance : a.nodes.length - i using Nat.strong_induction_on generalizing i with
  | _ distance ih =>
    by_cases hroot : i = a.rootNodeId
    · rcases hdeep with hnone | ⟨tree, htreeA, htreeB⟩
      · omega
      · have hroots : i = b.rootNodeId := by omega
        exact ⟨tree, hroot ▸ htreeA, hroots ▸ htreeB⟩
    · obtain ⟨j, n, hn, hchild⟩ := ha.linked i hi hroot
      have hbefore := ha.children_before j n hn i hchild
      have hj := (List.getElem?_eq_some_iff.mp hn).1
      obtain ⟨tree, ⟨n', hn', htreeA⟩, m, hm, htreeB⟩ := ih (a.nodes.length - j) (by omega) hj rfl
      obtain rfl : n = n' := some.inj (hn.symm.trans hn')
      obtain ⟨m', hm', hnm⟩ := forall₂_getElem? halike hn
      obtain rfl : m = m' := some.inj (hm.symm.trans hm')
      have hallA := (represents_iff_root.mp htreeA).2
      have hallB := (represents_iff_root.mp htreeB).2
      rw [hnm.childIndices_eq] at hallB
      obtain ⟨k, hk⟩ := mem_iff_getElem?.mp hchild
      obtain ⟨below, hbelow, hatA⟩ := forall₂_getElem? hallA hk
      obtain ⟨below', hbelow', hatB⟩ := forall₂_getElem? hallB hk
      obtain rfl : below = below' := some.inj (hbelow.symm.trans hbelow')
      exact ⟨below, hatA, hatB⟩

theorem operatorsAgree_of_deepEqual (ha : Rooted a) (hb : Rooted b)
    (halike : List.Forall₂ (Alike a b) a.nodes b.nodes) (hdeep : DeepEqual a b) :
    OperatorsAgree a b := by
  refine forall₂_iff_get.mpr ⟨halike.length_eq, fun i hi hi' hoperator => ?_⟩
  obtain ⟨tree, ⟨n, hn, htreeA⟩, m, hm, htreeB⟩ := exists_tree_of_deepEqual ha hb halike hdeep hi
  obtain rfl : a.nodes[i] = n := (List.getElem?_eq_some_iff.mp hn).2
  obtain rfl : b.nodes[i] = m := (List.getElem?_eq_some_iff.mp hm).2
  have hcontent : content a a.nodes[i] = content b b.nodes[i] :=
    (represents_iff_root.mp htreeA).1.trans (represents_iff_root.mp htreeB).1.symm
  have htype := congrArg Content.nodeType hcontent
  have htext := congrArg Content.text hcontent
  have hoperator' : a.nodes[i].nodeType = .operator := hoperator
  have hoperatorB : b.nodes[i].nodeType = .operator := htype.symm.trans hoperator'
  unfold content at htext
  simp only [hoperator', hoperatorB] at htext
  exact htext

/-- The comparison of two extracted snippets is sound exactly if they do not differ in the texts
of operators only. -/
theorem sound_iff (hasher : ℕ → UInt64) (stringHash : List UInt8 → ℕ) {a b : ScriptSnippet}
    (ha : Extracted a) (hb : Extracted b) :
    Sound hasher stringHash a b ↔
      (List.Forall₂ (Alike a b) a.nodes b.nodes → OperatorsAgree a b) := by
  constructor
  · intro hsound halike
    have hdeep := hsound.equals (equals_false_iff.mpr halike)
    rcases ha.rooted with hnil | hrootedA
    · have hnil' : b.nodes = [] :=
        length_eq_zero_iff.mp (halike.length_eq ▸ length_eq_zero_iff.mpr hnil)
      unfold OperatorsAgree
      rw [hnil, hnil']
      exact .nil
    · rcases hb.rooted with hnil | hrootedB
      · have := hrootedA.root_last
        have := halike.length_eq
        rw [hnil, length_nil] at this
        omega
      · exact operatorsAgree_of_deepEqual hrootedA hrootedB halike hdeep
  · intro hagree
    refine ⟨fun hequals => ?_, fun skip hequals => computeSignature_eq hequals⟩
    have halike := equals_false_iff.mp hequals
    have hlength := halike.length_eq
    rcases ha.rooted with hnil | hrootedA
    · rw [hnil, length_nil] at hlength
      exact .inl ⟨by rw [hnil]; exact Nat.zero_le _, by omega⟩
    · rcases hb.rooted with hnil | hrootedB
      · rw [hnil, length_nil] at hlength
        have := hrootedA.root_last
        omega
      · exact deepEqual_of_alike hrootedA hrootedB halike (hagree halike)

/-! ## An operator that is merged -/

/-- The parsed script of `select 1 @@ 2`, for an operator of two characters. -/
def selectOperator (op : String) : SourceScript where
  scannedScript :=
    { textBuffer := ("select 1 " ++ op ++ " 2\x00\x00").toUTF8.toList
      symbols := [⟨0, 6⟩, ⟨7, 1⟩, ⟨9, 2⟩, ⟨12, 1⟩]
      names := [] }
  nodes :=
    [{ symbolSpan := ⟨1, 1⟩, nodeType := .literalInteger },
      { symbolSpan := ⟨3, 1⟩, nodeType := .literalInteger },
      { symbolSpan := ⟨2, 1⟩, nodeType := .operator, attributeKey := 57 },
      { symbolSpan := ⟨1, 3⟩, nodeType := .array, attributeKey := 56, childrenCount := 2 },
      { symbolSpan := ⟨1, 3⟩, nodeType := .objectSqlNaryExpression, attributeKey := 133,
        childrenBeginOrValue := 2, childrenCount := 2 },
      { symbolSpan := ⟨1, 3⟩, nodeType := .objectSqlResultTarget, childrenBeginOrValue := 4,
        childrenCount := 1 },
      { symbolSpan := ⟨1, 3⟩, nodeType := .array, attributeKey := 160, childrenBeginOrValue := 5,
        childrenCount := 1 },
      { symbolSpan := ⟨0, 4⟩, nodeType := .objectSqlSelect, childrenBeginOrValue := 6,
        childrenCount := 1 }]
  statements := [⟨7⟩]
  children_below := by decide
  leaves := by decide

def operatorSnippet (op : String) : ScriptSnippet :=
  (extract ("select 1 " ++ op ++ " 2").toUTF8.toList (selectOperator op) [] 4 6).getD {}

theorem extracted_operatorSnippet (op : String)
    (h : (extract ("select 1 " ++ op ++ " 2").toUTF8.toList (selectOperator op) [] 4 6).isSome) :
    Extracted (operatorSnippet op) := by
  obtain ⟨snippet, hsnippet⟩ := isSome_iff_exists.mp h
  refine ⟨_, _, _, _, _, hsnippet.trans ?_⟩
  unfold operatorSnippet
  rw [hsnippet]
  rfl

theorem sound_iff_operatorSnippet :
    Sound (fun _ => 0) (fun _ => 0) (operatorSnippet "@@") (operatorSnippet "||") ↔
      (List.Forall₂ (Alike (operatorSnippet "@@") (operatorSnippet "||"))
          (operatorSnippet "@@").nodes (operatorSnippet "||").nodes →
        OperatorsAgree (operatorSnippet "@@") (operatorSnippet "||")) :=
  sound_iff (fun _ => 0) (fun _ => 0) (extracted_operatorSnippet "@@" (by decide +kernel))
    (extracted_operatorSnippet "||" (by decide +kernel))

/-- `1 @@ 2` and `1 || 2` are taken for equal, and their trees are not. -/
theorem not_sound_operatorSnippet :
    ¬ Sound (fun _ => 0) (fun _ => 0) (operatorSnippet "@@") (operatorSnippet "||") := by
  intro h
  have hequals : (operatorSnippet "@@").equals (operatorSnippet "||") false = some true := by
    decide +kernel
  have hrooted : ∀ op, (operatorSnippet op).nodes ≠ [] → Extracted (operatorSnippet op) →
      Rooted (operatorSnippet op) := fun op hne hextracted =>
    hextracted.rooted.resolve_left hne
  have hfirst := hrooted "@@" (by decide +kernel)
    (extracted_operatorSnippet "@@" (by decide +kernel))
  have hsecond := hrooted "||" (by decide +kernel)
    (extracted_operatorSnippet "||" (by decide +kernel))
  have hagree := operatorsAgree_of_deepEqual hfirst hsecond (equals_false_iff.mp hequals)
    (h.equals hequals)
  have htext := hagree.get (i := 2) (by decide +kernel) (by decide +kernel) (by decide +kernel)
  revert htext
  decide +kernel

end DashQL.Snippet
