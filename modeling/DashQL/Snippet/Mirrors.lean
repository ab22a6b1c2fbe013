import DashQL.Library.NodeBuffers
import DashQL.Snippet.Copying

/-!
# What a snippet keeps

A snippet mirrors the tree of its root: its nodes have their sources in the script, and
the children of a node have the children of its source as their sources, in order
(`Mirrors`).  The attribute key of the root is dropped.

What is not said of all nodes: the parents of leaves are those of the copy before it is
reversed, the value of an `ENUM_VIS_*` node is taken for a begin of children, and the text
of a node is there if it lies in the text of the root.
-/

namespace DashQL.Snippet

open List Option

open DashQL.Parser (Node noParent)
open ScriptDiff (TextSpan ParsedScript hasChildren)

/-! ## Reversing the nodes -/

section Reverse

variable {nodes : List Node}

/-- The nodes after some rounds of the loop that scans from both sides. -/
theorem getElem?_reverseSteps {rounds : ℕ} (hrounds : rounds ≤ nodes.length / 2) :
    ((List.range rounds).foldl reverseStep nodes).length = nodes.length ∧
      ∀ i < nodes.length, ((List.range rounds).foldl reverseStep nodes)[i]? =
        if i < rounds ∨ nodes.length ≤ i + rounds then
          (nodes[nodes.length - 1 - i]?).map (patchNode nodes.length)
        else nodes[i]? := by
  induction rounds with
  | zero =>
    refine ⟨rfl, fun i hi => ?_⟩
    rw [if_neg (by omega)]
    rfl
  | succ rounds ih =>
    obtain ⟨hlength, hget⟩ := ih (by omega)
    rw [range_succ, foldl_append, foldl_cons, foldl_nil]
    generalize (List.range rounds).foldl reverseStep nodes = current at hlength hget ⊢
    have hleft : rounds < nodes.length := by omega
    have hright : nodes.length - 1 - rounds < nodes.length := by omega
    have hfirst := hget rounds hleft
    have hlast := hget (nodes.length - 1 - rounds) hright
    rw [if_neg (by omega), getElem?_eq_getElem hleft] at hfirst
    rw [if_neg (by omega), getElem?_eq_getElem hright] at hlast
    unfold reverseStep
    rw [hlength]
    simp only [hfirst, hlast]
    refine ⟨by rw [length_set, length_set, hlength], fun i hi => ?_⟩
    rw [getElem?_set, getElem?_set, length_set, hlength]
    by_cases hiRight : nodes.length - 1 - rounds = i
    · rw [if_pos hiRight, if_pos (hiRight ▸ hright), if_pos (by omega)]
      have hindex : nodes.length - 1 - i = rounds := by omega
      rw [hindex, getElem?_eq_getElem hleft]
      rfl
    · rw [if_neg hiRight]
      by_cases hiLeft : rounds = i
      · rw [if_pos hiLeft, if_pos (hiLeft ▸ hleft), if_pos (by omega), ← hiLeft,
          getElem?_eq_getElem hright]
        rfl
      · rw [if_neg hiLeft, hget i hi]
        by_cases hin : i < rounds ∨ nodes.length ≤ i + rounds
        · rw [if_pos hin, if_pos (by omega)]
        · rw [if_neg hin, if_neg (by omega)]

theorem reverseNodes_eq (nodes : List Node) :
    reverseNodes nodes = (nodes.map (patchNode nodes.length)).reverse := by
  obtain ⟨hlength, hget⟩ := getElem?_reverseSteps (show nodes.length / 2 ≤ nodes.length / 2 from le_rfl)
  unfold reverseNodes
  dsimp only
  have hreverse : ∀ i < nodes.length, ((nodes.map (patchNode nodes.length)).reverse)[i]? =
      (nodes[nodes.length - 1 - i]?).map (patchNode nodes.length) := by
    intro i hi
    rw [getElem?_reverse (by rwa [length_map]), length_map, getElem?_map]
  refine ext_getElem? fun i => ?_
  by_cases hi : i < nodes.length
  · rw [hreverse i hi]
    by_cases hodd : nodes.length % 2 = 1
    · rw [if_pos hodd, getElem?_modify, hget i hi]
      by_cases hmiddle : nodes.length / 2 = i
      · have hindex : nodes.length - 1 - i = i := by omega
        rw [if_neg (by omega), hindex]
        simp only [hmiddle, if_true]
        rfl
      · rw [if_pos (by omega)]
        simp [hmiddle]
    · rw [if_neg hodd, hget i hi, if_pos (by omega)]
  · rw [getElem?_eq_none, getElem?_eq_none]
    · rw [length_reverse, length_map]
      exact Nat.not_lt.mp hi
    · split
      · rw [length_modify, hlength]
        exact Nat.not_lt.mp hi
      · rw [hlength]
        exact Nat.not_lt.mp hi

end Reverse

/-! ## The mirrored tree -/

def textAt (text : List UInt8) (span : TextSpan) : List UInt8 :=
  (text.drop span.offset).take span.length

def nodeSpan (script : SourceScript) (node : ScriptDiff.Node) : TextSpan :=
  script.scannedScript.resolveTextSpan node.symbolSpan

/-- A span that lies in another one. -/
def TextSpan.Within (inner outer : TextSpan) : Prop :=
  outer.offset ≤ inner.offset ∧ inner.offset + inner.length ≤ outer.offset + outer.length

/-- A snippet has the tree of a node of a script, for the source that its nodes have there. -/
structure Mirrors (text : List UInt8) (script : SourceScript) (root : ℕ) (snippet : ScriptSnippet)
    (source : ℕ → ℕ) : Prop where
  root_last : snippet.rootNodeId + 1 = snippet.nodes.length
  root_source : source snippet.rootNodeId = root
  length_eq : snippet.nodes.length = script.subtreeSize root
  inside : ∀ i < snippet.nodes.length, source i < script.nodes.length
  nodeType : ∀ (i : ℕ) (n : Node), snippet.nodes[i]? = some n →
    n.nodeType = (script.node (source i)).nodeType
  attributeKey : ∀ (i : ℕ) (n : Node), snippet.nodes[i]? = some n → i ≠ snippet.rootNodeId →
    n.attributeKey = (script.node (source i)).attributeKey
  children : ∀ (i : ℕ) (n : Node), snippet.nodes[i]? = some n →
    (childIndices n).map source = script.children (source i)
  children_before : ∀ (i : ℕ) (n : Node), snippet.nodes[i]? = some n →
    ∀ c ∈ childIndices n, c < i
  name : ∀ (i : ℕ) (n : Node), snippet.nodes[i]? = some n → n.nodeType = .name →
    snippet.nameText n = script.nameText (script.node (source i))
  value : ∀ (i : ℕ) (n : Node), snippet.nodes[i]? = some n → hasChildRange n.nodeType = false →
    n.nodeType ≠ .name → n.childrenBeginOrValue = (script.node (source i)).childrenBeginOrValue
  nodeText : ∀ (i : ℕ) (n : Node), snippet.nodes[i]? = some n →
    TextSpan.Within (nodeSpan script (script.node (source i))) (rootSpan script root) →
    snippet.nodeText n = textAt text (nodeSpan script (script.node (source i)))
  linked : ∀ i < snippet.nodes.length, i ≠ snippet.rootNodeId →
    ∃! j, NodeBuffer.IsChild childIndices snippet.nodes j i
  parent : ∀ (i : ℕ) (n : Node), snippet.nodes[i]? = some n → hasChildren n.nodeType →
    i ≠ snippet.rootNodeId → NodeBuffer.IsChild childIndices snippet.nodes n.parent i
  root_parent : (snippet.nodes[snippet.rootNodeId]?).map Node.parent = some noParent

/-- The snippet has all of the tree: also the attribute key of the root, the value and the text
of every node without children, and the parent of every node. -/
structure Isomorphic (text : List UInt8) (script : SourceScript) (root : ℕ)
    (snippet : ScriptSnippet) (source : ℕ → ℕ) : Prop
    extends Mirrors text script root snippet source where
  all_attributeKeys : ∀ (i : ℕ) (n : Node), snippet.nodes[i]? = some n →
    n.attributeKey = (script.node (source i)).attributeKey
  all_values : ∀ (i : ℕ) (n : Node), snippet.nodes[i]? = some n → hasChildren n.nodeType = false →
    n.nodeType ≠ .name → n.childrenBeginOrValue = (script.node (source i)).childrenBeginOrValue
  all_texts : ∀ (i : ℕ) (n : Node), snippet.nodes[i]? = some n →
    snippet.nodeText n = textAt text (nodeSpan script (script.node (source i)))
  all_parents : ∀ (i : ℕ) (n : Node), snippet.nodes[i]? = some n → i ≠ snippet.rootNodeId →
    NodeBuffer.IsChild childIndices snippet.nodes n.parent i

variable {text : List UInt8} {script : SourceScript} {markers : List SemanticNodeMarkerType}
  {root : ℕ} {state : Extraction} {sources : List ℕ}

/-- The source of a node of the snippet. -/
def sourceOf (sources : List ℕ) (i : ℕ) : ℕ := sources.getD (sources.length - 1 - i) 0

/-- A node of the snippet is a node of the copy, from the other end. -/
theorem getElem?_finish {i : ℕ} {n : Node} (hn : (finish text state).nodes[i]? = some n) :
    i < state.nodes.length ∧ ∃ m, state.nodes[state.nodes.length - 1 - i]? = some m ∧
      n = if i = state.nodes.length - 1 then
          { patchNode state.nodes.length m with parent := noParent }
        else patchNode state.nodes.length m := by
  have hlength : (reverseNodes state.nodes).length = state.nodes.length := by
    rw [reverseNodes_eq, length_reverse, length_map]
  have hi : i < state.nodes.length := by
    have hlt := (List.getElem?_eq_some_iff.mp hn).1
    unfold finish at hlt
    dsimp only at hlt
    rwa [length_modify, hlength] at hlt
  refine ⟨hi, ?_⟩
  unfold finish at hn
  dsimp only at hn
  rw [getElem?_modify, hlength, reverseNodes_eq,
    getElem?_reverse (by rwa [length_map]), length_map, getElem?_map] at hn
  obtain ⟨m', hm', rfl⟩ := map_eq_some_iff.mp hn
  obtain ⟨m, hm, rfl⟩ := map_eq_some_iff.mp hm'
  refine ⟨m, hm, ?_⟩
  by_cases hlast : state.nodes.length - 1 = i
  · rw [if_pos hlast, if_pos hlast.symm]
  · rw [if_neg hlast, if_neg (Ne.symm hlast)]

theorem length_finish (text : List UInt8) (state : Extraction) :
    (finish text state).nodes.length = state.nodes.length := by
  unfold finish
  dsimp only
  rw [length_modify, reverseNodes_eq, length_reverse, length_map]

theorem textAt_textAt {inner outer : TextSpan} (h : TextSpan.Within inner outer) :
    ((textAt text outer).drop (inner.offset - outer.offset)).take inner.length =
      textAt text inner := by
  obtain ⟨hbegin, hend⟩ := h
  unfold textAt
  rw [drop_take, drop_drop, take_take]
  congr 1
  · omega
  · congr 1
    omega

/-- The end of the loop, seen from the snippet. -/
theorem mirrors_finish (h : Copied script root state sources) (hpending : state.pending = []) :
    Mirrors text script root (finish (textAt text (rootSpan script root)) state)
      (sourceOf sources) := by
  have hlength := length_finish (textAt text (rootSpan script root)) state
  have hsize := h.size_eq
  rw [hpending] at hsize
  have hsize' : state.nodes.length = script.subtreeSize root := hsize
  have hpos : 0 < state.nodes.length := by
    rw [hsize']
    exact script.tree.size_pos root
  have hlast : (finish (textAt text (rootSpan script root)) state).rootNodeId =
      state.nodes.length - 1 := by
    show (reverseNodes state.nodes).length - 1 = _
    rw [reverseNodes_eq, length_reverse, length_map]
  have hsource : ∀ i < state.nodes.length,
      sources[state.nodes.length - 1 - i]? = some (sourceOf sources i) := by
    intro i hi
    have hlt : state.nodes.length - 1 - i < sources.length := by
      rw [h.length_eq]
      omega
    unfold sourceOf
    rw [h.length_eq, getElem?_eq_getElem hlt, getD_eq_getElem _ _ hlt]
  have hvisited : ∀ (j s : ℕ) (n : Node), sources[j]? = some s → state.nodes[j]? = some n →
      Visited script state sources j s n := fun j s n hs hn =>
    h.visited j s n hs hn (by rw [hpending]; exact not_mem_nil)
  -- A node of the snippet with what it was in the copy.
  have hcopy : ∀ (i : ℕ) (n : Node),
      (finish (textAt text (rootSpan script root)) state).nodes[i]? = some n →
      i < state.nodes.length ∧ ∃ m, state.nodes[state.nodes.length - 1 - i]? = some m ∧
        CopyOf script root (state.nodes.length - 1 - i) (script.node (sourceOf sources i)) m ∧
        Visited script state sources (state.nodes.length - 1 - i) (sourceOf sources i) m ∧
        n.nodeType = m.nodeType ∧ n.attributeKey = m.attributeKey ∧ n.symbolSpan = m.symbolSpan ∧
        n.childrenCount = m.childrenCount ∧
        n.childrenBeginOrValue = (if hasChildRange m.nodeType then
          state.nodes.length - m.childrenBeginOrValue - m.childrenCount
        else m.childrenBeginOrValue) ∧
        (hasChildRange m.nodeType → i ≠ state.nodes.length - 1 →
          n.parent = state.nodes.length - 1 - m.parent) := by
    intro i n hn
    obtain ⟨hi, m, hm, rfl⟩ := getElem?_finish hn
    refine ⟨hi, m, hm, h.copy _ _ m (hsource i hi) hm, hvisited _ _ m (hsource i hi) hm, ?_⟩
    unfold patchNode
    by_cases hrange : hasChildRange m.nodeType = true
    · rw [if_pos hrange, if_pos hrange]
      by_cases hroot : i = state.nodes.length - 1
      · rw [if_pos hroot]
        exact ⟨rfl, rfl, rfl, rfl, rfl, fun _ hne => absurd hroot hne⟩
      · rw [if_neg hroot]
        exact ⟨rfl, rfl, rfl, rfl, rfl, fun _ _ => rfl⟩
    · rw [if_neg hrange, if_neg hrange]
      by_cases hroot : i = state.nodes.length - 1
      · rw [if_pos hroot]
        exact ⟨rfl, rfl, rfl, rfl, rfl, fun h => absurd h hrange⟩
      · rw [if_neg hroot]
        exact ⟨rfl, rfl, rfl, rfl, rfl, fun h => absurd h hrange⟩
  have hindices : ∀ (i : ℕ) (n : Node),
      (finish (textAt text (rootSpan script root)) state).nodes[i]? = some n →
      ∀ m, state.nodes[state.nodes.length - 1 - i]? = some m →
      ∀ c, c ∈ childIndices n ↔ hasChildren m.nodeType = true ∧
        state.nodes.length - m.childrenBeginOrValue - m.childrenCount ≤ c ∧
        c < state.nodes.length - m.childrenBeginOrValue - m.childrenCount + m.childrenCount := by
    intro i n hn m hm c
    obtain ⟨-, m', hm', -, -, htype, -, -, hcount, hbegin, -⟩ := hcopy i n hn
    obtain rfl : m = m' := some.inj (hm.symm.trans hm')
    unfold childIndices ParsedScript.childRange
    rw [htype]
    by_cases hhas : hasChildren m.nodeType = true
    · rw [if_pos hhas, mem_range'_1, hcount, hbegin, if_pos (hasChildRange_of_hasChildren hhas)]
      exact ⟨fun hin => ⟨hhas, hin⟩, fun hin => hin.2⟩
    · rw [if_neg hhas]
      exact ⟨fun hin => (not_mem_nil hin).elim, fun hin => absurd hin.1 hhas⟩
  have hparents : ∀ (i : ℕ) (m : Node), state.nodes[state.nodes.length - 1 - i]? = some m →
      i < state.nodes.length - 1 → ∀ j, NodeBuffer.IsChild childIndices
        (finish (textAt text (rootSpan script root)) state).nodes j i ↔
          j = state.nodes.length - 1 - m.parent := by
    intro i m hm hi j
    obtain ⟨hlt, -, p, hp, hrange, hbegin, hend⟩ := h.parent _ m (by omega) hm
    constructor
    · rintro ⟨n', hn', hc⟩
      obtain ⟨hj, m', hm', -, hvisit', -⟩ := hcopy j n' hn'
      obtain ⟨hhas', hbegin', hend'⟩ := (hindices j n' hn' m' hm' i).mp hc
      have hrange' := hasChildRange_of_hasChildren hhas'
      have hbehind' := hvisit'.behind hrange'
      have hback := (hvisit'.children hrange'
        (state.nodes.length - 1 - i - m'.childrenBeginOrValue) (by omega)).2
      have hindex : m'.childrenBeginOrValue +
          (state.nodes.length - 1 - i - m'.childrenBeginOrValue) =
            state.nodes.length - 1 - i := by omega
      rw [hindex, hm] at hback
      have hparent' : m.parent = state.nodes.length - 1 - j := some.inj hback
      omega
    · rintro rfl
      have hindex : state.nodes.length - 1 - (state.nodes.length - 1 - m.parent) = m.parent := by
        omega
      have hj : state.nodes.length - 1 - m.parent <
          (finish (textAt text (rootSpan script root)) state).nodes.length := by
        rw [hlength]
        omega
      have hpsource := hsource (state.nodes.length - 1 - m.parent) (by omega)
      rw [hindex] at hpsource
      have hn' := getElem?_eq_getElem hj
      refine ⟨_, hn', (hindices _ _ hn' p (by rw [hindex]; exact hp) i).mpr ⟨?_, ?_, ?_⟩⟩
      · -- A node of another type has no children, and the parent has one.
        by_contra hnot
        have hpcopy := h.copy _ _ p hpsource hp
        have hcount := length_children script (hpcopy.nodeType ▸ hrange)
        unfold ParsedScript.children at hcount
        rw [if_neg (by rwa [← hpcopy.nodeType]), ← hpcopy.childrenCount] at hcount
        have hzero : p.childrenCount = 0 := hcount.symm
        omega
      · have hbehind := (hvisited _ _ p hpsource hp).behind hrange
        omega
      · omega
  constructor
  case root_last =>
    rw [hlast, hlength]
    omega
  case root_source =>
    rw [hlast]
    have hfirst := hsource (state.nodes.length - 1) (by omega)
    rw [Nat.sub_self, h.first] at hfirst
    exact (some.inj hfirst).symm
  case length_eq => rw [hlength, hsize']
  case inside =>
    intro i hi
    rw [hlength] at hi
    exact h.inside _ (List.mem_of_getElem? (hsource i hi))
  case nodeType =>
    intro i n hn
    obtain ⟨-, m, -, hcopyOf, -, htype, -⟩ := hcopy i n hn
    rw [htype, hcopyOf.nodeType]
  case attributeKey =>
    intro i n hn hne
    obtain ⟨hi, m, -, hcopyOf, -, -, hkey, -⟩ := hcopy i n hn
    rw [hlast] at hne
    rw [hkey, hcopyOf.attributeKey, if_neg (by omega)]
  case children =>
    intro i n hn
    obtain ⟨hi, m, hm, hcopyOf, hvisit, htype, -, -, hcount, hbegin, -⟩ := hcopy i n hn
    unfold childIndices
    rw [htype]
    by_cases hhas : hasChildren m.nodeType = true
    · have hrange := hasChildRange_of_hasChildren hhas
      have hbehind := hvisit.behind hrange
      have hchildren := length_children script (hcopyOf.nodeType ▸ hrange)
      rw [← hcopyOf.childrenCount] at hchildren
      rw [if_pos hrange] at hbegin
      rw [if_pos hhas]
      unfold ParsedScript.childRange
      rw [hcount, hbegin]
      refine ext_getElem? fun k => ?_
      rw [getElem?_map]
      by_cases hk : k < m.childrenCount
      · have hback := (hvisit.children hrange (m.childrenCount - 1 - k) (by omega)).1
        have hfrom := hsource
          (state.nodes.length - m.childrenBeginOrValue - m.childrenCount + k) (by omega)
        have hindex : state.nodes.length - 1 -
            (state.nodes.length - m.childrenBeginOrValue - m.childrenCount + k) =
              m.childrenBeginOrValue + (m.childrenCount - 1 - k) := by omega
        rw [hindex, hback, getElem?_reverse (by omega)] at hfrom
        have hindex' : (script.children (sourceOf sources i)).length - 1 -
            (m.childrenCount - 1 - k) = k := by omega
        rw [hindex'] at hfrom
        rw [getElem?_range' hk, Nat.one_mul, map_some, hfrom]
      · rw [getElem?_eq_none (by rw [length_range']; omega), getElem?_eq_none (by omega)]
        rfl
    · rw [if_neg hhas]
      unfold ParsedScript.children
      rw [if_neg (by rwa [← hcopyOf.nodeType])]
      rfl
  case children_before =>
    intro i n hn c hc
    obtain ⟨hi, m, hm, -, hvisit, -⟩ := hcopy i n hn
    obtain ⟨hhas, hbegin, hend⟩ := (hindices i n hn m hm c).mp hc
    have hbehind := hvisit.behind (hasChildRange_of_hasChildren hhas)
    omega
  case name =>
    intro i n hn hname
    obtain ⟨-, m, -, hcopyOf, hvisit, htype, -, -, -, hbegin, -⟩ := hcopy i n hn
    rw [htype] at hname
    have hnot : ¬ hasChildRange m.nodeType = true := by
      rw [hname]
      decide
    rw [if_neg hnot] at hbegin
    unfold ScriptSnippet.nameText
    rw [hbegin, getD_eq_getElem?_getD]
    show (state.names[m.childrenBeginOrValue]?).getD [] = _
    rw [hvisit.name hname]
    rfl
  case value =>
    intro i n hn hrange hname
    obtain ⟨-, m, -, -, hvisit, htype, -, -, -, hbegin, -⟩ := hcopy i n hn
    rw [htype] at hrange hname
    rw [hbegin, if_neg (Bool.not_eq_true _ ▸ hrange), hvisit.leaf hrange hname]
  case nodeText =>
    intro i n hn hwithin
    obtain ⟨-, m, -, hcopyOf, -, -, -, hspan, -⟩ := hcopy i n hn
    unfold ScriptSnippet.nodeText
    rw [hspan, hcopyOf.symbolSpan]
    exact textAt_textAt hwithin
  case linked =>
    intro i hi hne
    rw [hlength] at hi
    rw [hlast] at hne
    obtain ⟨m, hm⟩ : ∃ m, state.nodes[state.nodes.length - 1 - i]? = some m :=
      ⟨_, getElem?_eq_getElem (by omega)⟩
    have hchild := fun j => hparents i m hm (by omega) j
    exact ⟨_, (hchild _).mpr rfl, fun j hj => (hchild j).mp hj⟩
  case parent =>
    intro i n hn hhas hne
    obtain ⟨hi, m, hm, -, -, htype, -, -, -, -, hparent⟩ := hcopy i n hn
    rw [hlast] at hne
    rw [htype] at hhas
    rw [hparent (hasChildRange_of_hasChildren hhas) hne]
    exact (hparents i m hm (by omega) _).mpr rfl
  case root_parent =>
    rw [hlast]
    unfold finish
    dsimp only
    have hreverse : (reverseNodes state.nodes).length = state.nodes.length := by
      rw [reverseNodes_eq, length_reverse, length_map]
    have hlt : state.nodes.length - 1 < (reverseNodes state.nodes).length := by omega
    rw [getElem?_modify, hreverse, getElem?_eq_getElem hlt]
    simp

/-- Whatever is extracted of a node mirrors the tree of the node. -/
theorem mirrors_of_extract {fuel : ℕ} {snippet : ScriptSnippet} (hroot : root < script.nodes.length)
    (hextract : extract text script markers root fuel = some snippet) :
    ∃ source, Mirrors text script root snippet source := by
  unfold extract at hextract
  rw [if_neg (Nat.not_le.mpr hroot)] at hextract
  obtain ⟨final, hloop, rfl⟩ := map_eq_some_iff.mp hextract
  obtain ⟨sources, hpending, hcopied⟩ := (copied_start script hroot).extractLoop hloop
  exact ⟨sourceOf sources, mirrors_finish hcopied hpending⟩

def selectOne : SourceScript where
  scannedScript :=
    { textBuffer := "select 1\x00\x00".toUTF8.toList
      symbols := [⟨0, 6⟩, ⟨7, 1⟩]
      names := [] }
  nodes :=
    [{ symbolSpan := ⟨1, 1⟩, nodeType := .literalInteger, attributeKey := 133 },
      { symbolSpan := ⟨1, 1⟩, nodeType := .objectSqlResultTarget, childrenCount := 1 },
      { symbolSpan := ⟨1, 1⟩, nodeType := .array, attributeKey := 160, childrenBeginOrValue := 1,
        childrenCount := 1 },
      { symbolSpan := ⟨0, 2⟩, nodeType := .objectSqlSelect, childrenBeginOrValue := 2,
        childrenCount := 1 }]
  statements := [⟨3⟩]
  children_below := by decide
  leaves := by decide

end DashQL.Snippet
