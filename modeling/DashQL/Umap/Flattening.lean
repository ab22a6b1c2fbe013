import DashQL.Umap.FlatTree

/-!
# What a builder is flattened to

A builder represents a tree, and the recursion of the conversion writes the layout of this tree and
its points, each into a part of its array that nothing else writes to (`flatten_eq`).
-/

namespace DashQL.Umap

open List

variable {F S : Type*} {builder : TreeBuilder F} {tree : LeafTree ℤ (BuilderNode F)}

inductive Represents (builder : TreeBuilder F) : ℕ → LeafTree ℤ (BuilderNode F) → Prop where
  | leaf {treeNode : ℕ} {node : BuilderNode F} (hnode : builder[treeNode]? = some node)
      (hleaf : node.children.1 < 0) : Represents builder treeNode (.leaf node.pointIndices)
  | inner {treeNode left right : ℕ} {node : BuilderNode F}
      {lefts rights : LeafTree ℤ (BuilderNode F)} (hnode : builder[treeNode]? = some node)
      (hchildren : node.children = ((left : ℤ), (right : ℤ)))
      (hleft : Represents builder left lefts) (hright : Represents builder right rights) :
      Represents builder treeNode (.node node lefts rights)

theorem Represents.append {treeNode : ℕ} (h : Represents builder treeNode tree)
    (nodes : List (BuilderNode F)) : Represents (builder ++ nodes) treeNode tree := by
  have hkept : ∀ {i : ℕ} {node : BuilderNode F}, builder[i]? = some node →
      (builder ++ nodes)[i]? = some node := by
    intro i node hnode
    rw [getElem?_append_left (List.getElem?_eq_some_iff.mp hnode).1, hnode]
  induction h with
  | leaf hnode hleaf => exact .leaf (hkept hnode) hleaf
  | inner hnode hchildren _ _ ihleft ihright => exact .inner (hkept hnode) hchildren ihleft ihright

/-- How a cell is stored. -/
def encodeCell : TreeCell → ℤ × ℤ
  | .links left right => (left, right)
  | .range start stop => (-start, -stop)

/-! ## Writing -/

theorem modify_append {α : Type*} (front : List α) (item : α) (back : List α) (change : α → α) :
    (front ++ item :: back).modify front.length change = front ++ change item :: back := by
  induction front with
  | nil => rfl
  | cons first front ih =>
    rw [cons_append, length_cons, modify_succ_cons, ih]
    rfl

theorem writePoints_eq (points : List ℤ) {front blank back : List ℤ}
    (hlength : blank.length = points.length) :
    writePoints points front.length (front ++ blank ++ back) = front ++ points ++ back := by
  induction points generalizing front blank with
  | nil =>
    obtain rfl := length_eq_zero_iff.mp hlength
    rfl
  | cons point points ih =>
    cases blank with
    | nil => exact absurd hlength (by simp)
    | cons first blank =>
      have hlt : front.length < (front ++ first :: blank ++ back).length := by
        simp only [length_append, length_cons]
        omega
      have hset : (front ++ first :: blank ++ back).set front.length point =
          (front ++ [point]) ++ blank ++ back := by
        simp
      unfold writePoints
      rw [if_pos hlt, hset]
      have hnext : front.length + 1 = (front ++ [point]).length := by simp
      rw [hnext, ih (Nat.succ.inj hlength)]
      simp

/-! ## The recursion -/

/-- A part of the children and of the indices is replaced, and the counters are moved behind it. -/
structure Written (front back : List (ℤ × ℤ)) (before after : List ℤ)
    (tree : LeafTree ℤ (BuilderNode F)) (state state' : FlattenState F) : Prop where
  children : state'.children =
    front ++ (tree.layout state.nodeNum state.leafStart).map encodeCell ++ back
  flatIndices : state'.flatIndices = before ++ tree.points ++ after
  nodeNum : state'.nodeNum + 1 = state.nodeNum + tree.size
  leafStart : state'.leafStart = state.leafStart + tree.points.length

theorem flatten_eq {treeNode depth : ℕ} (h : Represents builder treeNode tree)
    (hdepth : tree.size ≤ depth) {state : FlattenState F} {front blank back : List (ℤ × ℤ)}
    {before room after : List ℤ} (hchildren : state.children = front ++ blank ++ back)
    (hblank : blank.length = tree.size) (hfront : front.length = state.nodeNum)
    (hindices : state.flatIndices = before ++ room ++ after)
    (hroom : room.length = tree.points.length) (hbefore : before.length = state.leafStart) :
    ∃ state', flatten builder depth treeNode state = some state' ∧
      Written front back before after tree state state' := by
  induction h generalizing depth state front blank back before room after with
  | @leaf treeNode node hnode hleaf =>
    obtain ⟨depth, rfl⟩ := Nat.exists_eq_succ_of_ne_zero (Nat.ne_of_gt hdepth)
    obtain ⟨pair, rfl⟩ := length_eq_one_iff.mp hblank
    rw [LeafTree.points_leaf] at hroom
    refine ⟨state.leaf node.pointIndices, ?_, ?_⟩
    · unfold flatten
      rw [hnode]
      exact if_pos hleaf
    · refine ⟨?_, ?_, rfl, ?_⟩
      · change (state.children.modify state.nodeNum _).modify state.nodeNum _ = _
        rw [hchildren, ← hfront, append_assoc, singleton_append, modify_append,
          modify_append, LeafTree.layout, append_assoc]
        rfl
      · change writePoints node.pointIndices state.leafStart state.flatIndices = _
        rw [hindices, ← hbefore, writePoints_eq node.pointIndices hroom, LeafTree.points_leaf]
      · rw [LeafTree.points_leaf]
        rfl
  | @inner treeNode left right node lefts rights hnode hnodeChildren hleft hright ihleft ihright =>
    have hpositive := (LeafTree.node node lefts rights).size_pos
    obtain ⟨depth, rfl⟩ := Nat.exists_eq_succ_of_ne_zero (by omega : depth ≠ 0)
    have hsize : (LeafTree.node node lefts rights).size = 1 + lefts.size + rights.size := rfl
    have hpoints := congrArg List.length (LeafTree.points_node node lefts rights)
    rw [length_append] at hpoints
    -- The blank parts are cut into the cell of the node and the parts of its two subtrees.
    obtain ⟨pair, blank, rfl⟩ := exists_cons_of_length_pos (hblank ▸ hpositive)
    obtain ⟨blankLeft, blankRight, rfl, hblankLeft⟩ :
        ∃ blankLeft blankRight, blank = blankLeft ++ blankRight ∧
          blankLeft.length = lefts.size := by
      refine ⟨blank.take lefts.size, blank.drop lefts.size, (take_append_drop _ _).symm, ?_⟩
      rw [length_cons] at hblank
      rw [length_take]
      omega
    obtain ⟨roomLeft, roomRight, rfl, hroomLeft⟩ :
        ∃ roomLeft roomRight, room = roomLeft ++ roomRight ∧
          roomLeft.length = lefts.points.length := by
      refine ⟨room.take lefts.points.length, room.drop lefts.points.length,
        (take_append_drop _ _).symm, ?_⟩
      rw [length_take]
      omega
    rw [length_cons, length_append] at hblank
    rw [length_append] at hroom
    obtain ⟨middle, hmiddle, hwritten⟩ := @ihleft depth (by omega)
      ((state.inner node).nextNode.setLeft state.nodeNum ((state.nodeNum + 1 : ℕ) : ℤ))
      (front ++ [(((state.nodeNum + 1 : ℕ) : ℤ), pair.2)]) blankLeft (blankRight ++ back)
      before roomLeft (roomRight ++ after)
      (by
        change state.children.modify state.nodeNum _ = _
        rw [hchildren, ← hfront, append_assoc, cons_append, modify_append]
        simp)
      hblankLeft
      (by
        rw [length_append, hfront]
        rfl)
      (by
        change state.flatIndices = _
        rw [hindices]
        simp)
      hroomLeft hbefore
    have hmiddleChildren : middle.children = front ++ (((state.nodeNum + 1 : ℕ) : ℤ), pair.2) ::
        ((lefts.layout (state.nodeNum + 1) state.leafStart).map encodeCell ++
          (blankRight ++ back)) := by
      rw [hwritten.children, append_assoc, append_assoc]
      rfl
    have hmodified := modify_append front (((state.nodeNum + 1 : ℕ) : ℤ), pair.2)
      ((lefts.layout (state.nodeNum + 1) state.leafStart).map encodeCell ++
        (blankRight ++ back)) fun found => (found.1, ((middle.nodeNum + 1 : ℕ) : ℤ))
    rw [hfront] at hmodified
    obtain ⟨state', hstate', hafter⟩ := @ihright depth (by omega)
      (middle.nextNode.setRight state.nodeNum ((middle.nodeNum + 1 : ℕ) : ℤ))
      (front ++ [(((state.nodeNum + 1 : ℕ) : ℤ), ((middle.nodeNum + 1 : ℕ) : ℤ))] ++
        (lefts.layout (state.nodeNum + 1) state.leafStart).map encodeCell)
      blankRight back (before ++ lefts.points) roomRight after
      (by
        change middle.children.modify state.nodeNum _ = _
        rw [hmiddleChildren, hmodified]
        simp)
      (by omega)
      (by
        change _ = middle.nodeNum + 1
        rw [hwritten.nodeNum, length_append, length_append, length_map,
          LeafTree.length_layout, hfront]
        rfl)
      (by
        change middle.flatIndices = _
        rw [hwritten.flatIndices]
        simp)
      (by omega)
      (by
        rw [length_append, hbefore]
        exact hwritten.leafStart.symm)
    have hlinks : node.children.1 = (left : ℤ) ∧ node.children.2 = (right : ℤ) := by
      rw [hnodeChildren]
      exact ⟨rfl, rfl⟩
    have hmiddleNum : middle.nodeNum + 1 = state.nodeNum + 1 + lefts.size := hwritten.nodeNum
    have hmiddleStart : middle.leafStart = state.leafStart + lefts.points.length :=
      hwritten.leafStart
    refine ⟨state', ?_, ?_⟩
    · unfold flatten
      rw [hnode]
      simp only [hlinks.1, hlinks.2, Int.toNat_natCast]
      rw [if_neg (by omega)]
      erw [hmiddle]
      exact hstate'
    · refine ⟨?_, ?_, ?_, ?_⟩
      · rw [hafter.children]
        change front ++ [_] ++ _ ++ (rights.layout (middle.nodeNum + 1) middle.leafStart).map
          encodeCell ++ back = _
        rw [hmiddleNum, hmiddleStart, LeafTree.layout, map_cons, map_append]
        simp only [encodeCell, append_assoc, cons_append, nil_append]
      · rw [hafter.flatIndices, LeafTree.points_node, ← append_assoc]
      · rw [hafter.nodeNum]
        change middle.nodeNum + 1 + rights.size = _
        omega
      · rw [hafter.leafStart]
        change middle.leafStart + rights.points.length = _
        omega

theorem convertBuilderToFlatTree_eq (arithmetic : FloatArithmetic F) {root dataSize : ℕ}
    (dataDim : ℕ) (h : Represents builder root tree) (hsize : tree.size = builder.length)
    (hpoints : tree.points.length = dataSize) :
    ∃ flat, convertBuilderToFlatTree arithmetic builder root dataSize dataDim = some flat ∧
      flat.children = (tree.layout 0 0).map encodeCell ∧ flat.indices = tree.points := by
  obtain ⟨state, hstate, hwritten⟩ := @flatten_eq F builder tree root builder.length h hsize.le
    { nodeNum := 0
      leafStart := 0
      hyperplanes := List.replicate builder.length (List.replicate dataDim arithmetic.zero)
      offsets := List.replicate builder.length arithmetic.zero
      children := List.replicate builder.length (-1, -1)
      flatIndices := List.replicate dataSize (-1)
      maxLeafSize := 0 }
    [] (List.replicate builder.length (-1, -1)) [] [] (List.replicate dataSize (-1)) []
    (append_nil _).symm ((length_replicate).trans hsize.symm) rfl
    (append_nil _).symm ((length_replicate).trans hpoints.symm) rfl
  refine ⟨{ state with indices := state.flatIndices, leafSize := state.maxLeafSize }, ?_, ?_, ?_⟩
  · exact congrArg (Option.map _) hstate
  · change state.children = _
    rw [hwritten.children, nil_append, append_nil]
  · change state.flatIndices = _
    rw [hwritten.flatIndices, nil_append, append_nil]

end DashQL.Umap
