import DashQL.Snippet.Extract

/-!
# Copying the nodes of a snippet

The loop of `Extract` keeps a forest under construction (`Copied`): a node of the copy has
been visited, or waits on the stack, and the children of a visited node stand in one range
behind it, in reverse order.  The stack measures what is left to copy, so the loop ends with
as many nodes as the tree has.
-/

namespace DashQL.Snippet

open List Option

open DashQL.Parser (Node)
open ScriptDiff (NodeType ParsedScript hasChildren)

variable {script : SourceScript} {markers : List SemanticNodeMarkerType} {root : ℕ}

theorem hasChildRange_of_hasChildren {nodeType : NodeType} (h : hasChildren nodeType = true) :
    hasChildRange nodeType = true := by
  revert h
  cases nodeType <;> decide

/-- What is pushed for a node are its children, last one first. -/
theorem reverse_children (script : SourceScript) (source : ℕ) :
    (script.children source).reverse =
      if hasChildRange (script.node source).nodeType then reversedChildren (script.node source)
      else [] := by
  unfold ParsedScript.children reversedChildren
  by_cases hhas : hasChildren (script.node source).nodeType = true
  · rw [if_pos hhas, if_pos (hasChildRange_of_hasChildren hhas)]
  · rw [if_neg hhas, reverse_nil]
    split
    · have hcount : (script.node source).childrenCount = 0 := by
        unfold ParsedScript.node at hhas ⊢
        rw [getD_eq_getElem?_getD] at hhas ⊢
        cases hnode : script.nodes[source]? with
        | none => rfl
        | some node =>
          rw [hnode] at hhas
          exact script.leaves node (List.mem_of_getElem? hnode) (Bool.eq_false_of_not_eq_true hhas)
      unfold ParsedScript.childRange
      rw [hcount, range'_zero, reverse_nil]
    · rfl

theorem length_children (script : SourceScript) {source : ℕ}
    (h : hasChildRange (script.node source).nodeType = true) :
    (script.children source).length = (script.node source).childrenCount := by
  have hreverse := congrArg List.length (reverse_children script source)
  rw [if_pos h, length_reverse] at hreverse
  rw [hreverse]
  unfold reversedChildren ParsedScript.childRange
  rw [length_reverse, length_range']

/-! ## A round of the loop -/

/-- The effect of a round: the visited node gets its value, and its children are copied. -/
structure Round (script : SourceScript) (root : ℕ) (state next : Extraction) (source output : ℕ)
    (pending : List (ℕ × ℕ)) (value : ℕ) : Prop where
  nodes : next.nodes = mutateChildrenBeginOrValue value output state.nodes ++
    (script.children source).reverse.map fun child =>
      copyNode script root (script.node child) (script.node child).attributeKey output
  pending : next.pending =
    ((script.children source).reverse.zip
      (List.range' state.nodes.length (script.children source).length)).reverse ++ pending
  names : ∃ added, next.names = state.names ++ added
  translated : ∀ id translated, next.translatedNamesById.lookup id = some translated →
    next.names[translated]? = some (script.scannedScript.names.getD id [])
  range : hasChildRange (script.node source).nodeType → value = state.nodes.length
  name : (script.node source).nodeType = .name →
    next.names[value]? = some (script.nameText (script.node source))
  leaf : hasChildRange (script.node source).nodeType = false →
    (script.node source).nodeType ≠ .name → value = (script.node source).childrenBeginOrValue

variable {state : Extraction} {source output : ℕ} {pending : List (ℕ × ℕ)}

theorem mutate_self {nodes : List Node} {value index : ℕ} {node : Node}
    (hnode : nodes[index]? = some node) (hvalue : node.childrenBeginOrValue = value) :
    mutateChildrenBeginOrValue value index nodes = nodes := by
  unfold mutateChildrenBeginOrValue
  refine ext_getElem? fun i => ?_
  rw [getElem?_modify]
  split
  · next h =>
      rw [← h, hnode, ← hvalue]
      rfl
  · simp

theorem exists_round
    (htranslated : ∀ id translated, state.translatedNamesById.lookup id = some translated →
      state.names[translated]? = some (script.scannedScript.names.getD id []))
    {node : Node} (hnode : state.nodes[output]? = some node)
    (hvalue : node.childrenBeginOrValue = (script.node source).childrenBeginOrValue) :
    ∃ value, Round script root state (visit script markers root state source output pending)
      source output pending value := by
  have hchildren := reverse_children script source
  by_cases hname : (script.node source).nodeType = .name
  · have hrange : hasChildRange (script.node source).nodeType = false := by
      rw [hname]
      rfl
    rw [hrange] at hchildren
    have hnil : script.children source = [] := reverse_eq_nil_iff.mp hchildren
    cases hlookup : state.translatedNamesById.lookup (script.node source).childrenBeginOrValue with
    | some translated =>
      refine ⟨translated, ?_⟩
      unfold visit
      simp only [hname, if_true, hlookup]
      refine ⟨?_, ?_, ⟨[], (append_nil _).symm⟩, htranslated, ?_, ?_, ?_⟩
      · rw [hnil]
        simp
      · rw [hnil]
        rfl
      · intro h
        rw [hrange] at h
        exact absurd h Bool.false_ne_true
      · exact fun _ => htranslated _ _ hlookup
      · exact fun _ h => absurd hname h
    | none =>
      refine ⟨state.names.length, ?_⟩
      unfold visit
      simp only [hname, if_true, hlookup]
      have hadded : (state.names ++ [script.nameText (script.node source)])[state.names.length]? =
          some (script.nameText (script.node source)) := getElem?_concat_length
      refine ⟨?_, ?_, ⟨_, rfl⟩, ?_, ?_, fun _ => hadded, ?_⟩
      · rw [hnil]
        simp
      · rw [hnil]
        rfl
      · intro id translated hid
        rw [List.lookup_cons] at hid
        split at hid
        · next heq =>
            obtain rfl := some.inj hid
            rw [eq_of_beq heq]
            exact hadded
        · have hold := htranslated id translated hid
          have hlt := (List.getElem?_eq_some_iff.mp hold).1
          rw [getElem?_append_left hlt]
          exact hold
      · intro h
        rw [hrange] at h
        exact absurd h Bool.false_ne_true
      · exact fun _ h => absurd hname h
  · by_cases hrange : hasChildRange (script.node source).nodeType = true
    · rw [if_pos hrange] at hchildren
      refine ⟨state.nodes.length, ?_⟩
      unfold visit
      simp only [hname, if_false, hrange, if_true, ← hchildren, length_reverse]
      exact ⟨rfl, rfl, ⟨[], (append_nil _).symm⟩, htranslated, fun _ => rfl,
        fun h => absurd h hname, fun h => Bool.noConfusion (hrange.symm.trans h)⟩
    · have hfalse := Bool.eq_false_of_not_eq_true hrange
      rw [if_neg hrange] at hchildren
      have hnil : script.children source = [] := reverse_eq_nil_iff.mp hchildren
      refine ⟨(script.node source).childrenBeginOrValue, ?_⟩
      unfold visit
      simp only [hname, if_false, hfalse, Bool.false_eq_true]
      refine ⟨?_, ?_, ⟨[], (append_nil _).symm⟩, htranslated, ?_, fun h => absurd h hname,
        fun _ _ => rfl⟩
      · rw [hnil, mutate_self hnode hvalue]
        simp
      · rw [hnil]
        rfl
      · exact fun h => absurd h hrange

/-! ## The invariant -/

/-- A node that has been visited: its children have been copied, and its value is final. -/
structure Visited (script : SourceScript) (state : Extraction) (sources : List ℕ) (j source : ℕ)
    (n : Node) : Prop where
  behind : hasChildRange n.nodeType → j < n.childrenBeginOrValue ∧
    n.childrenBeginOrValue + n.childrenCount ≤ state.nodes.length
  children : hasChildRange n.nodeType → ∀ i < n.childrenCount,
    sources[n.childrenBeginOrValue + i]? = (script.children source).reverse[i]? ∧
    (state.nodes[n.childrenBeginOrValue + i]?).map Node.parent = some j
  name : n.nodeType = .name →
    state.names[n.childrenBeginOrValue]? = some (script.nameText (script.node source))
  leaf : hasChildRange n.nodeType = false → n.nodeType ≠ .name →
    n.childrenBeginOrValue = (script.node source).childrenBeginOrValue

/-- What is copied of a node when it is written. -/
structure CopyOf (script : SourceScript) (root j : ℕ) (m : ScriptDiff.Node) (n : Node) :
    Prop where
  nodeType : n.nodeType = m.nodeType
  symbolSpan : n.symbolSpan = patchLocation script root m.symbolSpan
  childrenCount : n.childrenCount = m.childrenCount
  attributeKey : n.attributeKey = if j = 0 then 0 else m.attributeKey

/-- The invariant of the loop, for the source of every node of the copy. -/
structure Copied (script : SourceScript) (root : ℕ) (state : Extraction) (sources : List ℕ) :
    Prop where
  length_eq : sources.length = state.nodes.length
  first : sources[0]? = some root
  inside : ∀ s ∈ sources, s < script.nodes.length
  copy : ∀ (j s : ℕ) (n : Node), sources[j]? = some s → state.nodes[j]? = some n →
    CopyOf script root j (script.node s) n
  waiting : ∀ (s j : ℕ), (s, j) ∈ state.pending → sources[j]? = some s
  nodup : (state.pending.map Prod.snd).Nodup
  fresh : ∀ (s j : ℕ) (n : Node), (s, j) ∈ state.pending → state.nodes[j]? = some n →
    n.childrenBeginOrValue = (script.node s).childrenBeginOrValue
  visited : ∀ (j s : ℕ) (n : Node), sources[j]? = some s → state.nodes[j]? = some n →
    j ∉ state.pending.map Prod.snd → Visited script state sources j s n
  parent : ∀ (j : ℕ) (n : Node), 0 < j → state.nodes[j]? = some n → n.parent < j ∧
    n.parent ∉ state.pending.map Prod.snd ∧
    ∃ p, state.nodes[n.parent]? = some p ∧ hasChildRange p.nodeType ∧
      p.childrenBeginOrValue ≤ j ∧ j < p.childrenBeginOrValue + p.childrenCount
  translated : ∀ id translated, state.translatedNamesById.lookup id = some translated →
    state.names[translated]? = some (script.scannedScript.names.getD id [])
  size_eq : state.nodes.length + script.tree.pendingSize (state.pending.map Prod.fst) =
    script.subtreeSize root + state.pending.length

variable {next : Extraction} {sources : List ℕ} {value : ℕ}

theorem mem_children_lt (script : SourceScript) {source child : ℕ}
    (hsource : source < script.nodes.length) (h : child ∈ script.children source) :
    child < script.nodes.length :=
  (ParsedScript.lt_of_mem_children h).trans hsource

theorem Round.getElem? (h : Round script root state next source output pending value) (j : ℕ) :
    next.nodes[j]? =
      if j < state.nodes.length then
        (state.nodes[j]?).map fun n =>
          if j = output then { n with childrenBeginOrValue := value } else n
      else
        ((script.children source).reverse[j - state.nodes.length]?).map fun child =>
          copyNode script root (script.node child) (script.node child).attributeKey output := by
  have hlength : (mutateChildrenBeginOrValue value output state.nodes).length =
      state.nodes.length := length_modify ..
  rw [h.nodes]
  split
  · next hj =>
      rw [getElem?_append_left (by rw [hlength]; exact hj)]
      unfold mutateChildrenBeginOrValue
      rw [getElem?_modify]
      by_cases hout : j = output
      · simp [hout]
      · simp [hout, Ne.symm hout]
  · next hj =>
      rw [getElem?_append_right (by rw [hlength]; exact Nat.not_lt.mp hj), hlength, getElem?_map]

theorem Round.length (h : Round script root state next source output pending value) :
    next.nodes.length = state.nodes.length + (script.children source).length := by
  rw [h.nodes, length_append, length_map, length_reverse]
  congr 1
  exact length_modify ..

/-- The pairs that a round pushes. -/
theorem Round.mem_pending (h : Round script root state next source output pending value)
    {s j : ℕ} : (s, j) ∈ next.pending ↔
      (state.nodes.length ≤ j ∧
          (script.children source).reverse[j - state.nodes.length]? = some s) ∨
        (s, j) ∈ pending := by
  rw [h.pending, mem_append, mem_reverse]
  refine or_congr_left ?_
  rw [mem_iff_getElem?]
  constructor
  · rintro ⟨i, hi⟩
    rw [getElem?_zip_eq_some] at hi
    obtain ⟨hs, hj⟩ := hi
    have hi' : i < (script.children source).length := by
      have := (List.getElem?_eq_some_iff.mp hs).1
      rwa [length_reverse] at this
    rw [getElem?_range' hi', Nat.one_mul] at hj
    obtain rfl : state.nodes.length + i = j := some.inj hj
    exact ⟨Nat.le_add_right _ _, by rw [Nat.add_sub_cancel_left]; exact hs⟩
  · rintro ⟨hj, hs⟩
    refine ⟨j - state.nodes.length, getElem?_zip_eq_some.mpr ⟨hs, ?_⟩⟩
    have hi' : j - state.nodes.length < (script.children source).length := by
      have := (List.getElem?_eq_some_iff.mp hs).1
      rwa [length_reverse] at this
    rw [getElem?_range' hi', Nat.one_mul]
    exact congrArg some (Nat.add_sub_cancel' hj)

theorem Round.pending_snd (h : Round script root state next source output pending value) :
    next.pending.map Prod.snd =
      (List.range' state.nodes.length (script.children source).length).reverse ++
        pending.map Prod.snd := by
  rw [h.pending, map_append, map_reverse, map_snd_zip]
  rw [length_range', length_reverse]

theorem Round.pending_fst (h : Round script root state next source output pending value) :
    next.pending.map Prod.fst = script.children source ++ pending.map Prod.fst := by
  rw [h.pending, map_append, map_reverse, map_fst_zip, reverse_reverse]
  rw [length_range', length_reverse]

/-- A round visits the node on top of the stack. -/
theorem Copied.round (h : Copied script root state sources)
    (hpending : state.pending = (source, output) :: pending)
    (hround : Round script root state next source output pending value) :
    Copied script root next (sources ++ (script.children source).reverse) := by
  have hmem : (source, output) ∈ state.pending := hpending ▸ mem_cons_self
  have hsource := h.waiting source output hmem
  have hinside : source < script.nodes.length := h.inside source (List.mem_of_getElem? hsource)
  have hout : output < state.nodes.length := by
    rw [← h.length_eq]
    exact (List.getElem?_eq_some_iff.mp hsource).1
  have hnodup := h.nodup
  rw [hpending, map_cons, nodup_cons] at hnodup
  have hsources : ∀ j, j < state.nodes.length →
      (sources ++ (script.children source).reverse)[j]? = sources[j]? := fun j hj =>
    getElem?_append_left (by rw [h.length_eq]; exact hj)
  have hsourcesNew : ∀ j, ¬ j < state.nodes.length →
      (sources ++ (script.children source).reverse)[j]? =
        (script.children source).reverse[j - state.nodes.length]? := fun j hj => by
    rw [getElem?_append_right (by rw [h.length_eq]; exact Nat.not_lt.mp hj), h.length_eq]
  have hnextSnd : ∀ j, j < state.nodes.length →
      (j ∈ next.pending.map Prod.snd ↔ j ∈ pending.map Prod.snd) := by
    intro j hj
    rw [hround.pending_snd, mem_append, mem_reverse, mem_range'_1]
    constructor
    · rintro (hnew | hold)
      · omega
      · exact hold
    · exact .inr
  have hstateSnd : ∀ j, j ∈ state.pending.map Prod.snd ↔ j = output ∨ j ∈ pending.map Prod.snd := by
    intro j
    rw [hpending, map_cons, mem_cons]
  obtain ⟨added, hnames⟩ := hround.names
  have hnamesOld : ∀ (t : ℕ) (name : List UInt8), state.names[t]? = some name →
      next.names[t]? = some name := by
    intro t name ht
    rw [hnames, getElem?_append_left (List.getElem?_eq_some_iff.mp ht).1]
    exact ht
  -- An old node keeps what it has, but for the value of the visited one.
  have hold : ∀ (j : ℕ) (n : Node), j < state.nodes.length → next.nodes[j]? = some n →
      ∃ m, state.nodes[j]? = some m ∧
        n = if j = output then { m with childrenBeginOrValue := value } else m := by
    intro j n hj hn
    rw [hround.getElem?, if_pos hj] at hn
    obtain ⟨m, hm, rfl⟩ := map_eq_some_iff.mp hn
    exact ⟨m, hm, rfl⟩
  have hparentOld : ∀ j, j < state.nodes.length →
      (next.nodes[j]?).map Node.parent = (state.nodes[j]?).map Node.parent := by
    intro j hj
    rw [hround.getElem?, if_pos hj, Option.map_map]
    congr 1
    funext n
    show Node.parent (if j = output then _ else n) = n.parent
    split <;> rfl
  constructor
  case length_eq =>
    rw [length_append, h.length_eq, hround.length, length_reverse]
  case first =>
    rw [hsources 0 (Nat.zero_lt_of_lt hout)]
    exact h.first
  case inside =>
    intro s hs
    rcases mem_append.mp hs with hs | hs
    · exact h.inside s hs
    · exact mem_children_lt script hinside (mem_reverse.mp hs)
  case copy =>
    intro j s n hs hn
    by_cases hj : j < state.nodes.length
    · rw [hsources j hj] at hs
      obtain ⟨m, hm, rfl⟩ := hold j n hj hn
      have hcopy := h.copy j s m hs hm
      split
      · exact ⟨hcopy.nodeType, hcopy.symbolSpan, hcopy.childrenCount, hcopy.attributeKey⟩
      · exact hcopy
    · rw [hsourcesNew j hj] at hs
      rw [hround.getElem?, if_neg hj, hs] at hn
      obtain rfl := some.inj hn
      exact ⟨rfl, rfl, rfl, (if_neg (by omega)).symm⟩
  case waiting =>
    intro s j hsj
    rcases hround.mem_pending.mp hsj with ⟨hj, hs⟩ | hsj
    · rw [hsourcesNew j (Nat.not_lt.mpr hj)]
      exact hs
    · have hs := h.waiting s j (hpending ▸ mem_cons_of_mem _ hsj)
      have hj : j < state.nodes.length := by
        rw [← h.length_eq]
        exact (List.getElem?_eq_some_iff.mp hs).1
      rw [hsources j hj]
      exact hs
  case nodup =>
    rw [hround.pending_snd, nodup_append]
    refine ⟨nodup_reverse.mpr nodup_range', hnodup.2, ?_⟩
    intro j hj k hk hjk
    rw [mem_reverse, mem_range'_1] at hj
    obtain ⟨entry, hentry, rfl⟩ := mem_map.mp hk
    have hs := h.waiting entry.1 entry.2 (hpending ▸ mem_cons_of_mem _ hentry)
    have := (List.getElem?_eq_some_iff.mp hs).1
    rw [h.length_eq] at this
    omega
  case fresh =>
    intro s j n hsj hn
    rcases hround.mem_pending.mp hsj with ⟨hj, hs⟩ | hsj
    · rw [hround.getElem?, if_neg (Nat.not_lt.mpr hj), hs] at hn
      obtain rfl := some.inj hn
      rfl
    · have hs := h.waiting s j (hpending ▸ mem_cons_of_mem _ hsj)
      have hj : j < state.nodes.length := by
        rw [← h.length_eq]
        exact (List.getElem?_eq_some_iff.mp hs).1
      have hne : j ≠ output := by
        rintro rfl
        exact hnodup.1 (mem_map.mpr ⟨_, hsj, rfl⟩)
      obtain ⟨m, hm, rfl⟩ := hold j n hj hn
      rw [if_neg hne]
      exact h.fresh s j m (hpending ▸ mem_cons_of_mem _ hsj) hm
  case visited =>
    intro j s n hs hn hnot
    by_cases hj : j < state.nodes.length
    · rw [hsources j hj] at hs
      obtain ⟨m, hm, rfl⟩ := hold j n hj hn
      have hcopy := h.copy j s m hs hm
      by_cases hne : j = output
      · -- The node that is visited now.
        obtain rfl : s = source := some.inj (hs.symm.trans (hne ▸ hsource))
        rw [if_pos hne]
        have hlength : ∀ hrange : hasChildRange m.nodeType = true,
            m.childrenCount = (script.children s).length := fun hrange => by
          rw [length_children script (hcopy.nodeType ▸ hrange), hcopy.childrenCount]
        refine ⟨fun hrange => ?_, fun hrange i hi => ?_, fun hname => ?_, fun hleaf hname => ?_⟩
        · have hvalue := hround.range (hcopy.nodeType ▸ hrange)
          have hcount := hlength hrange
          rw [hround.length]
          show j < value ∧ value + m.childrenCount ≤ _
          omega
        · have hvalue := hround.range (hcopy.nodeType ▸ hrange)
          have hi' : i < (script.children s).reverse.length := by
            rw [length_reverse, ← hlength hrange]
            exact hi
          show (sources ++ (script.children s).reverse)[value + i]? = _ ∧
            (next.nodes[value + i]?).map Node.parent = some j
          have hnew : ¬ value + i < state.nodes.length := by omega
          rw [hsourcesNew _ hnew, hround.getElem?, if_neg hnew, hvalue, Nat.add_sub_cancel_left,
            getElem?_eq_getElem hi']
          exact ⟨rfl, congrArg some hne.symm⟩
        · exact hround.name (hcopy.nodeType ▸ hname)
        · exact hround.leaf (hcopy.nodeType ▸ hleaf) (hcopy.nodeType ▸ hname)
      · rw [if_neg hne]
        have hnotOld : j ∉ state.pending.map Prod.snd := by
          rw [hstateSnd]
          rintro (heq | hin)
          · exact hne heq
          · exact hnot ((hnextSnd j hj).mpr hin)
        have hvisited := h.visited j s m hs hm hnotOld
        refine ⟨fun hrange => ?_, fun hrange i hi => ?_, fun hname => ?_, hvisited.leaf⟩
        · have hbehind := hvisited.behind hrange
          rw [hround.length]
          exact ⟨hbehind.1, hbehind.2.trans (Nat.le_add_right _ _)⟩
        · have hbehind := hvisited.behind hrange
          have hlt : m.childrenBeginOrValue + i < state.nodes.length := by omega
          rw [hsources _ hlt, hparentOld _ hlt]
          exact hvisited.children hrange i hi
        · exact hnamesOld _ _ (hvisited.name hname)
    · exfalso
      apply hnot
      have hlt := (List.getElem?_eq_some_iff.mp hn).1
      rw [hround.length] at hlt
      rw [hround.pending_snd, mem_append, mem_reverse, mem_range'_1]
      exact .inl ⟨Nat.not_lt.mp hj, hlt⟩
  case parent =>
    intro j n hpos hn
    by_cases hj : j < state.nodes.length
    · obtain ⟨m, hm, rfl⟩ := hold j n hj hn
      have hparent : (if j = output then { m with childrenBeginOrValue := value } else m).parent =
          m.parent := by
        split <;> rfl
      rw [hparent]
      obtain ⟨hlt, hnot, p, hp, hrange, hbegin, hend⟩ := h.parent j m hpos hm
      rw [hstateSnd, not_or] at hnot
      refine ⟨hlt, fun hin => hnot.2 ((hnextSnd _ (hlt.trans hj)).mp hin), p, ?_, hrange, hbegin,
        hend⟩
      rw [hround.getElem?, if_pos (hlt.trans hj), hp, map_some, if_neg hnot.1]
    · have hn' := hn
      rw [hround.getElem?, if_neg hj] at hn
      obtain ⟨child, hchild, rfl⟩ := map_eq_some_iff.mp hn
      have hlt := (List.getElem?_eq_some_iff.mp hchild).1
      rw [length_reverse] at hlt
      obtain ⟨m, hm⟩ : ∃ m, state.nodes[output]? = some m :=
        ⟨_, getElem?_eq_getElem hout⟩
      have hcopy := h.copy output source m hsource hm
      have hrange : hasChildRange (script.node source).nodeType = true := by
        by_contra hfalse
        have hchildren := reverse_children script source
        rw [if_neg hfalse] at hchildren
        rw [hchildren] at hchild
        exact absurd hchild (by simp)
      have hvalue := hround.range hrange
      refine ⟨?_, ?_, { m with childrenBeginOrValue := value }, ?_, hcopy.nodeType ▸ hrange, ?_, ?_⟩
      · show output < j
        omega
      · exact fun hin => hnodup.1 ((hnextSnd output hout).mp hin)
      · show next.nodes[output]? = _
        rw [hround.getElem?, if_pos hout, hm, map_some, if_pos rfl]
      · show value ≤ j
        omega
      · show j < value + m.childrenCount
        rw [hcopy.childrenCount, ← length_children script hrange]
        omega
  case translated => exact hround.translated
  case size_eq =>
    have hsize := h.size_eq
    rw [hpending, map_cons, Branching.pendingSize_cons, Branching.pendingSize_append,
      length_cons] at hsize
    have hreverse : script.tree.pendingSize (script.tree.children source).reverse =
        script.tree.pendingSize (script.children source) := by
      unfold Branching.pendingSize
      rw [map_reverse, sum_reverse]
      rfl
    have hlength : next.pending.length = (script.children source).length + pending.length := by
      have hmap := congrArg List.length hround.pending_fst
      rw [length_map, length_append, length_map] at hmap
      exact hmap
    rw [hround.length, hround.pending_fst, Branching.pendingSize_append, hlength]
    dsimp only at hsize
    omega

theorem copied_start (script : SourceScript) (hroot : root < script.nodes.length) :
    Copied script root (startExtraction script root) [root] where
  length_eq := rfl
  first := rfl
  inside s hs := mem_singleton.mp hs ▸ hroot
  copy j s n hs hn := by
    cases j with
    | zero =>
      obtain rfl := some.inj hs
      obtain rfl := some.inj hn
      exact ⟨rfl, rfl, rfl, rfl⟩
    | succ j => exact absurd hs (by simp)
  waiting s j hsj := by
    obtain ⟨rfl, rfl⟩ := Prod.mk.inj (mem_singleton.mp hsj)
    rfl
  nodup := nodup_singleton 0
  fresh s j n hsj hn := by
    obtain ⟨rfl, rfl⟩ := Prod.mk.inj (mem_singleton.mp hsj)
    obtain rfl := some.inj hn
    rfl
  visited j s n hs hn hnot := by
    cases j with
    | zero => exact absurd (mem_singleton_self 0) hnot
    | succ j => exact absurd hs (by simp)
  parent j n hpos hn := by
    cases j with
    | zero => exact absurd hpos (Nat.lt_irrefl 0)
    | succ j => exact absurd hn (by simp [startExtraction])
  translated id translated h := by cases h
  size_eq := by
    show 1 + script.tree.pendingSize [root] = script.subtreeSize root + 1
    unfold Branching.pendingSize ParsedScript.subtreeSize
    rw [map_singleton, sum_singleton]
    omega

/-- A round that the loop makes. -/
theorem Copied.visit (markers : List SemanticNodeMarkerType) (h : Copied script root state sources)
    (hpending : state.pending = (source, output) :: pending) :
    Copied script root (visit script markers root state source output pending)
        (sources ++ (script.children source).reverse) ∧
      script.tree.pendingSize (state.pending.map Prod.fst) =
        script.tree.pendingSize
          ((Snippet.visit script markers root state source output pending).pending.map
            Prod.fst) + 1 := by
  have hmem : (source, output) ∈ state.pending := hpending ▸ mem_cons_self
  have hsource := h.waiting source output hmem
  have hout : output < state.nodes.length := by
    rw [← h.length_eq]
    exact (List.getElem?_eq_some_iff.mp hsource).1
  have hnode := getElem?_eq_getElem hout
  obtain ⟨value, hround⟩ := @exists_round script markers root state source output pending
    h.translated _ hnode (h.fresh source output _ hmem hnode)
  have hnext := h.round hpending hround
  refine ⟨hnext, ?_⟩
  have hsize := h.size_eq
  have hsize' := hnext.size_eq
  have hlength := congrArg List.length hround.pending_fst
  rw [length_map, length_append, length_map] at hlength
  rw [hround.length] at hsize'
  rw [hpending, length_cons] at hsize
  rw [hpending]
  omega

/-- If the loop ends, all nodes have been visited. -/
theorem Copied.extractLoop (h : Copied script root state sources) {fuel : ℕ} {final : Extraction}
    (hloop : extractLoop script markers root fuel state = some final) :
    ∃ finalSources, final.pending = [] ∧ Copied script root final finalSources := by
  induction fuel generalizing state sources with
  | zero => cases hloop
  | succ fuel ih =>
    unfold Snippet.extractLoop at hloop
    cases hpending : state.pending with
    | nil =>
      rw [hpending] at hloop
      obtain rfl := some.inj hloop
      exact ⟨sources, hpending, h⟩
    | cons entry pending =>
      rw [hpending] at hloop
      exact ih (h.visit markers hpending).1 hloop

theorem Copied.exists_extractLoop (markers : List SemanticNodeMarkerType)
    (h : Copied script root state sources) {fuel : ℕ}
    (hfuel : script.tree.pendingSize (state.pending.map Prod.fst) < fuel) :
    ∃ final, Snippet.extractLoop script markers root fuel state = some final := by
  induction fuel generalizing state sources with
  | zero => exact absurd hfuel (Nat.not_lt_zero _)
  | succ fuel ih =>
    unfold Snippet.extractLoop
    cases hpending : state.pending with
    | nil => exact ⟨state, rfl⟩
    | cons entry pending =>
      obtain ⟨hnext, hless⟩ := h.visit markers hpending
      exact ih hnext (by omega)

end DashQL.Snippet
