import DashQL.ScriptDiff.Traversals

/-!
# The traversals of two statements

The loops over the pending stacks, with the top of a stack first, and what they
compute: the deep equality decides `DeepEqual`, the two post-order loops sum over
the trees, and the target changes of deep equal statements are empty.  Every loop
ends because each round replaces a pending subtree by the ones below it.
-/

namespace DashQL.ScriptDiff

open List Function

/-! ## The size of a tree -/

structure SizeEntry where
  node : ℕ
  parent : ℕ
  visited : Bool

def treeSizeLoop (script : ParsedScript) (pending : List SizeEntry) (sizes : List ℕ) : ℕ × List ℕ :=
  match pending with
  | [] => (0, sizes)
  | ⟨node, parent, true⟩ :: rest =>
    if rest.isEmpty then (sizes.getD node 0, sizes)
    else treeSizeLoop script rest (sizes.modify parent (· + sizes.getD node 0))
  | ⟨node, parent, false⟩ :: rest =>
    treeSizeLoop script
      (((script.children node).map fun child => ⟨child, node, false⟩).reverse ++
        ⟨node, parent, true⟩ :: rest)
      (sizes.set node 1)
termination_by script.tree.rounds (pending.map fun e => (e.visited, e.node))
decreasing_by
  · simp [Branching.rounds]
  · have hpush := script.tree.rounds_push node (rest.map fun e => (e.visited, e.node))
    simp only [map_append, map_reverse, map_map, comp_def, map_cons]
    exact hpush

theorem treeSizeLoop_open (script : ParsedScript) (node parent : ℕ) (rest : List SizeEntry)
    (sizes : List ℕ) :
    treeSizeLoop script (⟨node, parent, false⟩ :: rest) sizes =
      treeSizeLoop script
        (((script.children node).reverse.map fun child => ⟨child, node, false⟩) ++
          ⟨node, parent, true⟩ :: rest)
        (sizes.set node 1) := by
  rw [treeSizeLoop, map_reverse]

theorem treeSizeLoop_fold (script : ParsedScript) (node parent : ℕ) {rest : List SizeEntry}
    (hrest : rest ≠ []) (sizes : List ℕ) :
    treeSizeLoop script (⟨node, parent, true⟩ :: rest) sizes =
      treeSizeLoop script rest (sizes.modify parent (· + sizes.getD node 0)) := by
  rw [treeSizeLoop, if_neg (by simpa using hrest)]

/-- What `treeSizeLoop` remembers of the nodes in front of a bound is unset or
the size of their trees. -/
def SizesBelow (script : ParsedScript) (sizes : List ℕ) (bound : ℕ) : Prop :=
  ∀ id < bound, sizes.getD id 0 = 0 ∨ sizes.getD id 0 = script.subtreeSize id

variable {sizes : List ℕ}

theorem getD_set {node : ℕ} (h : node < sizes.length) (value id : ℕ) :
    (sizes.set node value).getD id 0 = if id = node then value else sizes.getD id 0 := by
  by_cases hid : id = node
  · subst hid
    simp [h]
  · simp [hid, getElem?_set_ne (Ne.symm hid)]

theorem getD_modify {node : ℕ} (h : node < sizes.length) (f : ℕ → ℕ) (id : ℕ) :
    (sizes.modify node f).getD id 0 = if id = node then f (sizes.getD id 0) else sizes.getD id 0 := by
  by_cases hid : id = node
  · subst hid
    simp [h]
  · simp [Ne.symm hid, hid]

/-- The state of the loop after the tree below `node` was counted, up to the
round that folds it into its parent. -/
structure Counted (script : ParsedScript) (node : ℕ) (before after : List ℕ) : Prop where
  length : after.length = before.length
  counted : after.getD node 0 = script.subtreeSize node
  below : SizesBelow script after node
  above : ∀ id, node < id → after.getD id 0 = before.getD id 0

/-- Children that are each counted before they are folded add their sizes to
their parent. -/
theorem treeSizeLoop_children {script : ParsedScript} {node : ℕ} {rest : List SizeEntry}
    (hrest : rest ≠ []) (children : List ℕ) (hcount : ∀ child ∈ children, child < node ∧
      ∀ pending sizes, child < sizes.length → SizesBelow script sizes child →
        ∃ after, Counted script child sizes after ∧
          treeSizeLoop script (⟨child, node, false⟩ :: pending) sizes =
            treeSizeLoop script (⟨child, node, true⟩ :: pending) after)
    (sizes : List ℕ) (hnode : node < sizes.length) (hbelow : SizesBelow script sizes node) :
    ∃ after, after.length = sizes.length ∧ SizesBelow script after node ∧
      after.getD node 0 = sizes.getD node 0 + (children.map script.subtreeSize).sum ∧
      (∀ id, node < id → after.getD id 0 = sizes.getD id 0) ∧
      treeSizeLoop script ((children.map fun child => ⟨child, node, false⟩) ++ rest) sizes =
        treeSizeLoop script rest after := by
  induction children generalizing sizes with
  | nil => exact ⟨sizes, rfl, hbelow, by simp, fun _ _ => rfl, rfl⟩
  | cons child children ih =>
    obtain ⟨hchild, hloop⟩ := hcount child (by simp)
    obtain ⟨counted, hcounted, heq⟩ :=
      hloop ((children.map fun child => ⟨child, node, false⟩) ++ rest) sizes
        (hchild.trans hnode) fun id hid => hbelow id (hid.trans hchild)
    -- the child is folded into its parent
    set folded := counted.modify node (· + counted.getD child 0) with hfolded
    have hlength : node < counted.length := hcounted.length ▸ hnode
    have hget : ∀ id, folded.getD id 0 =
        if id = node then counted.getD id 0 + script.subtreeSize child
        else counted.getD id 0 := by
      intro id
      rw [hfolded, getD_modify hlength, hcounted.counted]
    have hbelow' : SizesBelow script folded node := by
      intro id hid
      rw [hget, if_neg (by omega)]
      rcases Nat.lt_trichotomy id child with hlt | rfl | hgt
      · exact hcounted.below id hlt
      · exact .inr hcounted.counted
      · rw [hcounted.above id hgt]
        exact hbelow id hid
    have hlength' : folded.length = sizes.length := by
      rw [hfolded, length_modify, hcounted.length]
    obtain ⟨after, hafter_length, hafter_below, hafter_node, hafter_above, hafter_eq⟩ :=
      ih (fun c hc => hcount c (by simp [hc])) folded (hlength' ▸ hnode) hbelow'
    refine ⟨after, hafter_length.trans hlength', hafter_below, ?_, ?_, ?_⟩
    · rw [hafter_node, hget, if_pos rfl, hcounted.above node hchild]
      simp only [map_cons, sum_cons]
      omega
    · intro id hid
      rw [hafter_above id hid, hget, if_neg (by omega), hcounted.above id (by omega)]
    · rw [← hafter_eq, map_cons, cons_append, heq,
        treeSizeLoop_fold script child node (by simp [hrest])]

/-- A pending node is counted, whatever stands below it on the stack. -/
theorem treeSizeLoop_unvisited (script : ParsedScript) (node : ℕ) :
    ∀ parent rest sizes, node < sizes.length → SizesBelow script sizes node →
      ∃ after, Counted script node sizes after ∧
        treeSizeLoop script (⟨node, parent, false⟩ :: rest) sizes =
          treeSizeLoop script (⟨node, parent, true⟩ :: rest) after := by
  induction node using script.tree.induction with
  | step node ih =>
    intro parent rest sizes hnode hbelow
    have hset_below : SizesBelow script (sizes.set node 1) node := by
      intro id hid
      rw [getD_set hnode, if_neg (by omega)]
      exact hbelow id hid
    obtain ⟨after, hlength, hafter_below, hafter_node, hafter_above, heq⟩ :=
      @treeSizeLoop_children script node (⟨node, parent, true⟩ :: rest) (by simp)
        (script.children node).reverse
        (fun child hchild =>
          ⟨ParsedScript.lt_of_mem_children (mem_reverse.mp hchild),
            fun pending sizes => ih child (mem_reverse.mp hchild) node pending sizes⟩)
        (sizes.set node 1) (by simpa using hnode) hset_below
    refine ⟨after, ⟨?_, ?_, hafter_below, ?_⟩, ?_⟩
    · rw [hlength, length_set]
    · rw [hafter_node, getD_set hnode, if_pos rfl, map_reverse, sum_reverse]
      exact (script.tree.size_eq node).symm
    · intro id hid
      rw [hafter_above id hid, getD_set hnode, if_neg (by omega)]
    · rw [treeSizeLoop_open, heq]

/-- `source_subtree_sizes_` and `target_subtree_sizes_`: the sizes of subtrees
that were computed so far, with zero for the others. -/
structure SubtreeSizes (script : ParsedScript) where
  sizes : List ℕ := []
  valid : sizes.length = script.nodes.length → SizesBelow script sizes script.nodes.length := by
    intro h
    simp [SizesBelow, ← h]

theorem sizesBelow_replicate (script : ParsedScript) (n bound : ℕ) :
    SizesBelow script (List.replicate n 0) bound := by
  intro id _
  left
  by_cases hid : id < n <;> simp [hid]

theorem treeSizeLoop_root {script : ParsedScript} {root : ℕ}
    (hlength : sizes.length = script.nodes.length) (hroot : root < script.nodes.length)
    (hbelow : SizesBelow script sizes script.nodes.length) :
    (treeSizeLoop script [⟨root, root, false⟩] sizes).1 = script.subtreeSize root ∧
      SizesBelow script (treeSizeLoop script [⟨root, root, false⟩] sizes).2
        script.nodes.length := by
  obtain ⟨after, hafter, heq⟩ := treeSizeLoop_unvisited script root root [] sizes
    (hlength ▸ hroot) fun id hid => hbelow id (hid.trans hroot)
  have hlast : treeSizeLoop script [⟨root, root, true⟩] after = (after.getD root 0, after) := by
    simp [treeSizeLoop]
  rw [heq, hlast]
  refine ⟨hafter.counted, fun id hid => ?_⟩
  rcases Nat.lt_trichotomy id root with hlt | rfl | hgt
  · exact hafter.below id hlt
  · exact .inr hafter.counted
  · rw [hafter.above id hgt]
    exact hbelow id hid

def computeTreeSize (script : ParsedScript) (root : ℕ) (memo : SubtreeSizes script) :
    ℕ × SubtreeSizes script :=
  if hroot : script.nodes.length ≤ root then (0, memo)
  else if hlength : memo.sizes.length ≠ script.nodes.length then
    let result := treeSizeLoop script [⟨root, root, false⟩] (List.replicate script.nodes.length 0)
    (result.1, ⟨result.2, fun _ =>
      (treeSizeLoop_root (by simp) (by omega) (sizesBelow_replicate script _ _)).2⟩)
  else if 0 < memo.sizes.getD root 0 then (memo.sizes.getD root 0, memo)
  else
    let result := treeSizeLoop script [⟨root, root, false⟩] memo.sizes
    (result.1, ⟨result.2, fun _ =>
      (treeSizeLoop_root (by omega) (by omega) (memo.valid (by omega))).2⟩)

theorem computeTreeSize_fst (script : ParsedScript) (root : ℕ) (memo : SubtreeSizes script) :
    (computeTreeSize script root memo).1 =
      if script.nodes.length ≤ root then 0 else script.subtreeSize root := by
  unfold computeTreeSize
  split_ifs with hroot hlength hknown
  · rfl
  · exact (treeSizeLoop_root (by simp) (by omega) (sizesBelow_replicate script _ _)).1
  · rcases memo.valid (by omega) root (by omega) with hzero | hsize
    · omega
    · exact hsize
  · exact (treeSizeLoop_root (by omega) (by omega) (memo.valid (by omega))).1

/-! ## Deep equality -/

section

variable (source target : ParsedScript)

def deepEqualityLoop (pending : List (ℕ × ℕ)) : Bool :=
  match pending with
  | [] => true
  | pair :: rest =>
    match _h : deepEqualityStep source target pair with
    | none => false
    | some pairs => deepEqualityLoop (pairs.reverse ++ rest)
termination_by (lockstep source target).pendingSize pending
decreasing_by
  rw [deepEqualityStep_eq] at _h
  split at _h
  · have hcons := (lockstep source target).pendingSize_cons pair rest
    have hpairs : pairs = (lockstep source target).children pair := (Option.some.inj _h).symm
    rw [hcons, hpairs]
    omega
  · simp at _h

def checkDeepEquality (s t : Statement) : Bool :=
  if source.nodes.length ≤ s.root ∨ target.nodes.length ≤ t.root then
    source.nodes.length ≤ s.root ∧ target.nodes.length ≤ t.root
  else deepEqualityLoop source target [(s.root, t.root)]

/-! ## Similarity -/

structure SimilarityEntry where
  sourceNode : ℕ
  targetNode : ℕ
  parentEntry : ℕ
  matchingNodes : ℕ
  visited : Bool

def SimilarityEntry.pair (e : SimilarityEntry) : ℕ × ℕ := (e.sourceNode, e.targetNode)

/-- `pending[parent].matching_nodes += matching`.  The stack is written with its
top first, so positions count from the end. -/
def addMatching (parent matching : ℕ) (pending : List SimilarityEntry) : List SimilarityEntry :=
  pending.modify (pending.length - 1 - parent)
    fun e => { e with matchingNodes := e.matchingNodes + matching }

@[simp] theorem map_pair_addMatching (parent matching : ℕ) (pending : List SimilarityEntry) :
    (addMatching parent matching pending).map (fun e => (e.visited, e.pair)) =
      pending.map fun e => (e.visited, e.pair) := by
  apply ext_getElem?
  intro i
  by_cases hi : pending.length - 1 - parent = i
  · simp [addMatching, hi, comp_def, SimilarityEntry.pair]
  · simp [addMatching, hi]

/-- The loop of `ComputeSimilarity`: the matching nodes below the bottom entry. -/
def similarityLoop (pending : List SimilarityEntry) : ℕ :=
  match pending with
  | [] => 0
  | ⟨_, _, parent, matching, true⟩ :: rest =>
    if rest.isEmpty then matching
    else similarityLoop (addMatching parent matching rest)
  | ⟨s, t, parent, matching, false⟩ :: rest =>
    let round := similarityStep source target (s, t)
    similarityLoop
      ((round.2.map fun p => ⟨p.1, p.2, rest.length, 0, false⟩).reverse ++
        ⟨s, t, parent, matching + if round.1 then 1 else 0, true⟩ :: rest)
termination_by (lockstep source target).rounds (pending.map fun e => (e.visited, e.pair))
decreasing_by
  · simp only [map_pair_addMatching]
    simp [Branching.rounds]
  · have hpush := (lockstep source target).rounds_push (s, t)
      (rest.map fun e => (e.visited, e.pair))
    simp only [map_append, map_reverse, map_map, comp_def, map_cons]
    exact hpush

structure StatementSimilarity where
  matchingNodes : ℕ := 0
  totalNodes : ℕ := 0

/-- The members of `ScriptDiff` that outlive a comparison. -/
structure Memo where
  sourceSubtreeSizes : SubtreeSizes source := {}
  targetSubtreeSizes : SubtreeSizes target := {}

/-- `ScriptDiff::ComputeSimilarity`.  If exactly one of the roots is no node the
code reads behind the node buffer, and there is no result. -/
def computeSimilarity (s t : Statement) (memo : Memo source target) :
    Option StatementSimilarity × Memo source target :=
  let sourceSize := computeTreeSize source s.root memo.sourceSubtreeSizes
  let targetSize := computeTreeSize target t.root memo.targetSubtreeSizes
  let nodeCount := max sourceSize.1 targetSize.1
  let similarity :=
    if nodeCount = 0 then some {}
    else if source.nodes.length ≤ s.root ∨ target.nodes.length ≤ t.root then none
    else some ⟨similarityLoop source target [⟨s.root, t.root, 0, 0, false⟩], nodeCount⟩
  (similarity, ⟨sourceSize.2, targetSize.2⟩)

/-! ## Target changes -/

def recordChange (node : ℕ) : List TextSpan :=
  let span := target.scannedScript.resolveTextSpan (target.node node).symbolSpan
  if 0 < span.length then [span] else []

/-- The loop of `CollectTargetChanges`: the spans recorded from here on. -/
def targetChangesLoop (pending : List (ℕ × ℕ)) : List TextSpan :=
  match pending with
  | [] => []
  | pair :: rest =>
    let round := targetChangesStep source target pair
    round.1.flatMap (recordChange target) ++ targetChangesLoop (round.2.reverse ++ rest)
termination_by (lockstep source target).pendingSize pending
decreasing_by
  have hcons := (lockstep source target).pendingSize_cons pair rest
  rw [targetChangesStep_snd, hcons]
  exact Nat.lt_succ_self _

/-- Coalescing of sorted spans: a span that begins inside the last one, or right
behind it, extends it. -/
def coalesceFrom (last : TextSpan) : List TextSpan → List TextSpan
  | [] => [last]
  | change :: changes =>
    let lastEnd := last.offset + last.length
    if change.offset ≤ lastEnd then
      let newEnd := max lastEnd (change.offset + change.length)
      coalesceFrom ⟨last.offset, newEnd - last.offset⟩ changes
    else last :: coalesceFrom change changes

/-- The end of `CollectTargetChanges`. -/
def coalesce (changes : List TextSpan) : List TextSpan :=
  match changes.insertionSort fun l r => l.offset ≤ r.offset with
  | [] => []
  | first :: changes => coalesceFrom first changes

def collectTargetChanges (s t : Statement) : List TextSpan :=
  if source.nodes.length ≤ s.root ∨ target.nodes.length ≤ t.root then []
  else coalesce (targetChangesLoop source target [(s.root, t.root)])

end

/-! ## What the loops compute -/

variable {source target : ParsedScript}

theorem deepEqualityLoop_iff (pending : List (ℕ × ℕ)) :
    deepEqualityLoop source target pending = true ↔
      ∀ pair ∈ pending, DeepEqual source target pair := by
  fun_induction deepEqualityLoop source target pending with
  | case1 => simp
  | case2 pair rest hstep =>
    rw [deepEqualityStep_eq] at hstep
    simp only [ite_eq_right_iff, reduceCtorEq, imp_false] at hstep
    simp only [Bool.false_eq_true, forall_mem_cons, false_iff, not_and]
    intro h
    exact absurd ((Branching.throughout_iff _).mp h).1 hstep
  | case3 pair rest pairs hstep ih =>
    rw [deepEqualityStep_eq] at hstep
    split at hstep
    · rename_i hmatch
      obtain rfl := Option.some.inj hstep
      rw [ih, forall_mem_append, forall_mem_cons, DeepEqual, Branching.throughout_iff]
      simp only [mem_reverse, hmatch, true_and]
      exact Iff.rfl
    · simp at hstep

theorem checkDeepEquality_iff {s t : Statement} (hs : s.root < source.nodes.length)
    (ht : t.root < target.nodes.length) :
    checkDeepEquality source target s t = true ↔ DeepEqual source target (s.root, t.root) := by
  rw [checkDeepEquality, if_neg (by omega), deepEqualityLoop_iff]
  simp

/-- A node matches itself, and its children are paired with themselves. -/
theorem deepEqualityStep_self (script : ParsedScript) {pair : ℕ × ℕ} (h : pair.1 = pair.2) :
    ∃ pairs, deepEqualityStep script script pair = some pairs ∧ ∀ p ∈ pairs, p.1 = p.2 := by
  obtain ⟨id, id'⟩ := pair
  obtain rfl : id = id' := h
  have hzip : ∀ (l : List ℕ), ∀ p ∈ l.zip l, p.1 = p.2 := by
    intro l p hp
    rw [zip_eq_zipWith, zipWith_self, mem_map] at hp
    obtain ⟨x, -, rfl⟩ := hp
    rfl
  have hvalues : valuesMatch script script (script.node id) (script.node id) = true := by
    unfold valuesMatch
    cases nodeKind (script.node id).nodeType <;> simp
  unfold deepEqualityStep
  simp only [ne_eq, not_true_eq_false, if_false]
  cases nodeKind (script.node id).nodeType with
  | array => exact ⟨_, rfl, hzip _⟩
  | object =>
    have hkeys : ((script.collectSortedChildren (script.node id)).zip
        (script.collectSortedChildren (script.node id))).all
          (fun p => script.keyId p.1 = script.keyId p.2) = true := by
      rw [all_eq_true]
      intro p hp
      simp [hzip _ p hp]
    exact ⟨_, if_pos hkeys, hzip _⟩
  | _ => exact ⟨[], by simp [hvalues], by simp⟩

theorem deepEqualityLoop_self (script : ParsedScript) (pending : List (ℕ × ℕ))
    (h : ∀ p ∈ pending, p.1 = p.2) : deepEqualityLoop script script pending = true := by
  fun_induction deepEqualityLoop script script pending with
  | case1 => rfl
  | case2 pair rest hstep =>
    obtain ⟨pairs, hpairs, -⟩ := deepEqualityStep_self script (h pair (by simp))
    rw [hpairs] at hstep
    simp at hstep
  | case3 pair rest pairs hstep ih =>
    obtain ⟨pairs', hpairs, hself⟩ := deepEqualityStep_self script (h pair (by simp))
    rw [hpairs] at hstep
    obtain rfl := Option.some.inj hstep
    refine ih fun p hp => ?_
    rcases mem_append.mp hp with hnew | hrest
    · exact hself p (mem_reverse.mp hnew)
    · exact h p (mem_cons_of_mem _ hrest)

theorem checkDeepEquality_self (script : ParsedScript) (s : Statement) :
    checkDeepEquality script script s s = true := by
  unfold checkDeepEquality
  split
  · rename_i hroot
    simpa using hroot
  · exact deepEqualityLoop_self script _ (by simp)

theorem addMatching_append (parent : SimilarityEntry) (front rest : List SimilarityEntry)
    (matching : ℕ) :
    addMatching rest.length matching (front ++ parent :: rest) =
      front ++ { parent with matchingNodes := parent.matchingNodes + matching } :: rest := by
  have hindex : (front ++ parent :: rest).length - 1 - rest.length = front.length := by
    simp only [length_append, length_cons]
    omega
  rw [addMatching, hindex]
  induction front with
  | nil => rfl
  | cons e front ih => simpa using ih (by simp)

theorem similarityLoop_open (s t parent matching : ℕ) (rest : List SimilarityEntry) :
    similarityLoop source target (⟨s, t, parent, matching, false⟩ :: rest) =
      similarityLoop source target
        (((similarityStep source target (s, t)).2.reverse.map
            fun p => ⟨p.1, p.2, rest.length, 0, false⟩) ++
          ⟨s, t, parent, matching + if (similarityStep source target (s, t)).1 then 1 else 0, true⟩
            :: rest) := by
  rw [similarityLoop, map_reverse]

/-- Entries above a parent that are each counted before they are folded add
their counts to the parent. -/
theorem similarityLoop_children {parent : SimilarityEntry} {rest : List SimilarityEntry}
    (children : List (ℕ × ℕ)) (hcount : ∀ child ∈ children, ∀ pending,
      similarityLoop source target (⟨child.1, child.2, rest.length, 0, false⟩ :: pending) =
        similarityLoop source target
          (⟨child.1, child.2, rest.length, matchingNodes source target child, true⟩ :: pending)) :
    similarityLoop source target
        ((children.map fun p => ⟨p.1, p.2, rest.length, 0, false⟩) ++ parent :: rest) =
      similarityLoop source target
        ({ parent with
            matchingNodes := parent.matchingNodes +
              (children.map (matchingNodes source target)).sum } :: rest) := by
  induction children generalizing parent with
  | nil => simp
  | cons child children ih =>
    rw [map_cons, cons_append, hcount child (by simp), similarityLoop,
      if_neg (by simp), addMatching_append, ih fun c hc => hcount c (by simp [hc])]
    simp [Nat.add_assoc]

/-- A pending pair is counted, whatever stands below it on the stack. -/
theorem similarityLoop_unvisited (pair : ℕ × ℕ) :
    ∀ parent matching rest,
      similarityLoop source target (⟨pair.1, pair.2, parent, matching, false⟩ :: rest) =
        similarityLoop source target
          (⟨pair.1, pair.2, parent, matching + matchingNodes source target pair, true⟩ :: rest) := by
  induction pair using (lockstep source target).induction with
  | step pair ih =>
    intro parent matching rest
    rw [similarityLoop_open, similarityLoop_children]
    · have htotal : matchingNodes source target pair =
          (if (similarityStep source target pair).1 then 1 else 0) +
            ((similarityStep source target pair).2.map (matchingNodes source target)).sum :=
        (lockstep source target).total_eq _ pair
      rw [htotal, map_reverse, sum_reverse, Nat.add_assoc]
    · intro child hchild pending
      rw [ih child (mem_reverse.mp hchild), Nat.zero_add]

theorem similarityLoop_root (pair : ℕ × ℕ) :
    similarityLoop source target [⟨pair.1, pair.2, 0, 0, false⟩] =
      matchingNodes source target pair := by
  rw [similarityLoop_unvisited]
  simp [similarityLoop]

theorem targetChangesLoop_of_deepEqual (pending : List (ℕ × ℕ))
    (h : ∀ pair ∈ pending, DeepEqual source target pair) :
    targetChangesLoop source target pending = [] := by
  fun_induction targetChangesLoop source target pending with
  | case1 => rfl
  | case2 pair rest round ih =>
    rw [forall_mem_cons] at h
    obtain ⟨hmatch, hbelow⟩ := (Branching.throughout_iff _).mp h.1
    have hrecorded : round.1 = [] := targetChangesStep_of_match hmatch
    have hpairs : round.2 = (lockstep source target).children pair := targetChangesStep_snd pair
    rw [hrecorded, flatMap_nil, nil_append]
    apply ih
    intro p hp
    rw [mem_append, mem_reverse, hpairs] at hp
    exact hp.elim (hbelow p) (h.2 p)

/-! ## Three traversals, one verdict -/

theorem computeSimilarity_fst {s t : Statement} (hs : s.root < source.nodes.length)
    (ht : t.root < target.nodes.length) (memo : Memo source target) :
    (computeSimilarity source target s t memo).1 =
      some ⟨matchingNodes source target (s.root, t.root),
        max (source.subtreeSize s.root) (target.subtreeSize t.root)⟩ := by
  have hpos : 0 < source.subtreeSize s.root := source.tree.size_pos s.root
  simp only [computeSimilarity, computeTreeSize_fst, if_neg (Nat.not_le_of_lt hs),
    if_neg (Nat.not_le_of_lt ht)]
  rw [if_neg (by omega), if_neg (by omega), ← similarityLoop_root (s.root, t.root)]

/-- The deep equality of two statements holds exactly if the similarity reports
as many matching nodes as it counts nodes and the trees have one size; it never
reports more; and deep equal statements have no target changes. -/
theorem checkDeepEquality_iff_similarity (source target : ParsedScript) (s t : Statement)
    (memo : Memo source target) :
    (checkDeepEquality source target s t = true ↔
      (∃ similarity, (computeSimilarity source target s t memo).1 = some similarity ∧
        similarity.matchingNodes = similarity.totalNodes) ∧
      (computeTreeSize source s.root memo.sourceSubtreeSizes).1 =
        (computeTreeSize target t.root memo.targetSubtreeSizes).1) ∧
    (∀ similarity, (computeSimilarity source target s t memo).1 = some similarity →
      similarity.matchingNodes ≤ similarity.totalNodes) ∧
    (checkDeepEquality source target s t = true → collectTargetChanges source target s t = []) := by
  rw [computeTreeSize_fst, computeTreeSize_fst]
  by_cases hs : s.root < source.nodes.length
  · by_cases ht : t.root < target.nodes.length
    · -- both statements have a tree
      have hequal := @matchingNodes_eq_iff source target (s.root, t.root)
      have hle := @matchingNodes_le source target (s.root, t.root)
      rw [computeSimilarity_fst hs ht, if_neg (by omega), if_neg (by omega),
        checkDeepEquality_iff hs ht]
      simp only [Option.some.injEq, exists_eq_left', forall_eq'] at hequal hle ⊢
      refine ⟨⟨fun h => ?_, fun h => hequal.1.mp (by omega)⟩, by omega, fun h => ?_⟩
      · have hsource := hequal.1.mpr h
        have htarget := hequal.2.mpr h
        omega
      · rw [collectTargetChanges, if_neg (by omega), targetChangesLoop_of_deepEqual _ (by simpa)]
        rfl
    · -- the code would read behind the target nodes
      have hpos : 0 < source.subtreeSize s.root := source.tree.size_pos s.root
      have hsimilarity : (computeSimilarity source target s t memo).1 = none := by
        simp only [computeSimilarity, computeTreeSize_fst, if_neg (Nat.not_le_of_lt hs)]
        rw [if_neg (by omega), if_pos (.inr (by omega))]
      rw [hsimilarity, checkDeepEquality, if_pos (.inr (by omega))]
      simp
      omega
  · by_cases ht : t.root < target.nodes.length
    · have hpos : 0 < target.subtreeSize t.root := target.tree.size_pos t.root
      have hsimilarity : (computeSimilarity source target s t memo).1 = none := by
        simp only [computeSimilarity, computeTreeSize_fst, if_neg (Nat.not_le_of_lt ht)]
        rw [if_neg (by omega), if_pos (.inl (by omega))]
      rw [hsimilarity, checkDeepEquality, if_pos (.inl (by omega))]
      simp
      omega
    · -- neither statement has a tree
      have hs' : source.nodes.length ≤ s.root := Nat.le_of_not_lt hs
      have ht' : target.nodes.length ≤ t.root := Nat.le_of_not_lt ht
      have hsimilarity : (computeSimilarity source target s t memo).1 = some {} := by
        simp only [computeSimilarity, computeTreeSize_fst, if_pos hs', if_pos ht']
        rfl
      simp [hsimilarity, checkDeepEquality, collectTargetChanges, hs', ht']

/-! ## Coalescing -/

def TextSpan.Covers (span : TextSpan) (place : ℕ) : Prop :=
  span.offset ≤ place ∧ place < span.offset + span.length

/-- The spans are what the changes coalesce to: sorted, with a gap between any two of them, and
over the same places. -/
structure Coalesced (changes spans : List TextSpan) : Prop where
  separated : spans.Pairwise fun l r => l.offset + l.length < r.offset
  covers : ∀ place, (∃ span ∈ spans, span.Covers place) ↔ ∃ span ∈ changes, span.Covers place

theorem coalesceFrom_coalesced (last : TextSpan) (changes : List TextSpan)
    (hsorted : (last :: changes).Pairwise fun l r => l.offset ≤ r.offset) :
    Coalesced (last :: changes) (coalesceFrom last changes) ∧
      ∀ span ∈ coalesceFrom last changes, last.offset ≤ span.offset := by
  induction changes generalizing last with
  | nil => exact ⟨⟨pairwise_singleton _ _, fun _ => Iff.rfl⟩, by simp [coalesceFrom]⟩
  | cons change changes ih =>
    rw [pairwise_cons] at hsorted
    obtain ⟨hlast, hchanges⟩ := hsorted
    have hle : last.offset ≤ change.offset := hlast change mem_cons_self
    unfold coalesceFrom
    dsimp only
    split_ifs with hnear
    · -- the change extends the last span
      set merged : TextSpan := ⟨last.offset, max (last.offset + last.length)
        (change.offset + change.length) - last.offset⟩ with hmerged
      have hcovers (place) : merged.Covers place ↔ last.Covers place ∨ change.Covers place := by
        simp only [TextSpan.Covers, hmerged]
        omega
      obtain ⟨hih, hfirst⟩ := ih merged
        (pairwise_cons.mpr ⟨fun r hr => hlast r (mem_cons_of_mem _ hr), hchanges.of_cons⟩)
      refine ⟨⟨hih.separated, fun place => (hih.covers place).trans ?_⟩, hfirst⟩
      simp only [exists_mem_cons_iff, hcovers, or_assoc]
    · obtain ⟨hih, hfirst⟩ := ih change hchanges
      refine ⟨⟨pairwise_cons.mpr ⟨fun span hspan => ?_, hih.separated⟩, fun place => ?_⟩, ?_⟩
      · have hspan' := hfirst span hspan
        omega
      · simp only [exists_mem_cons_iff, hih.covers]
      · exact forall_mem_cons.mpr ⟨Nat.le_refl _, fun span hspan => hle.trans (hfirst span hspan)⟩

theorem Coalesced.of_perm {changes sorted spans : List TextSpan} (hperm : sorted.Perm changes)
    (h : Coalesced sorted spans) : Coalesced changes spans :=
  ⟨h.separated, fun place => (h.covers place).trans (by simp only [hperm.mem_iff])⟩

/-- The coalesced changes are sorted, with gaps between them, and are the same places, in
whichever order the sort leaves spans that begin together. -/
theorem coalesce_coalesced (changes : List TextSpan) :
    Coalesced changes (coalesce changes) ∧
      ∀ first rest, (first :: rest).Perm changes →
        ((first :: rest).Pairwise fun l r => l.offset ≤ r.offset) →
          Coalesced changes (coalesceFrom first rest) := by
  have hsort (first rest) (hperm : (first :: rest).Perm changes)
      (hsorted : (first :: rest).Pairwise fun l r : TextSpan => l.offset ≤ r.offset) :
      Coalesced changes (coalesceFrom first rest) :=
    (coalesceFrom_coalesced first rest hsorted).1.of_perm hperm
  refine ⟨?_, hsort⟩
  have hperm := perm_insertionSort (fun l r : TextSpan => l.offset ≤ r.offset) changes
  have hsorted : (changes.insertionSort fun l r => l.offset ≤ r.offset).Pairwise
      fun l r => l.offset ≤ r.offset :=
    @pairwise_insertionSort _ (fun l r : TextSpan => l.offset ≤ r.offset) _
      ⟨fun l r => Nat.le_total l.offset r.offset⟩ ⟨fun _ _ _ h h' => Nat.le_trans h h'⟩ changes
  unfold coalesce
  cases hsorting : changes.insertionSort fun l r => l.offset ≤ r.offset with
  | nil =>
    rw [hsorting] at hperm
    exact ⟨Pairwise.nil, fun place => by simp [hperm.nil_eq.symm]⟩
  | cons first rest => exact hsort first rest (hsorting ▸ hperm) (hsorting ▸ hsorted)

end DashQL.ScriptDiff
