import DashQL.Umap.Flattening
import DashQL.Umap.HubSplit

/-!
# Random projection trees

The four builders split until a part is small enough, the depth is used up or a hub split is too
unbalanced.  Each of their trees has all points, in leaves that are not empty (`build_sound`); so
every search ends at some points, and the leaves of a forest have each point once for each tree.
-/

namespace DashQL.Umap

open List Option

variable {F S : Type*}

/-! ## Building -/

/-- How the points of a node are split, if they are; a split divides two or more points. -/
structure Splitter (F S : Type*) where
  split : List ℤ → S → Option (Split F) × S
  divides : ∀ indices rng split', 2 ≤ indices.length → (split indices rng).1 = some split' →
    Divides indices split'.left split'.right

/-- What the recursive builders have in common. -/
def Splitter.makeTree (arithmetic : FloatArithmetic F) (splitter : Splitter F S) (leafSize : ℕ) :
    ℕ → List ℤ → S → TreeBuilder F → (ℕ × TreeBuilder F) × S
  | 0, indices, rng, builder => (builder.addLeaf arithmetic indices, rng)
  | maxDepth + 1, indices, rng, builder =>
    if indices.length ≤ leafSize then (builder.addLeaf arithmetic indices, rng)
    else
      match splitter.split indices rng with
      | (none, rng) => (builder.addLeaf arithmetic indices, rng)
      | (some split, rng) =>
        let left := splitter.makeTree arithmetic leafSize maxDepth split.left rng builder
        let right :=
          splitter.makeTree arithmetic leafSize maxDepth split.right left.2 left.1.2
        (right.1.2.addInternal split.hyperplane split.offset left.1.1 right.1.1, right.2)

section Builders

variable (arithmetic : FloatArithmetic F) (draw : S → ℕ × S) (data : Dataset F)

def projectionSplitter (projection : Projection F) : Splitter F S where
  split indices rng :=
    let split := randomProjectionSplit arithmetic draw projection data indices rng
    (some split.1, split.2)
  divides indices rng split' hlength h := by
    obtain rfl := some.inj h
    exact randomProjectionSplit_divides arithmetic draw projection data rng hlength

/-- A hub split is taken unless it is too unbalanced. -/
def hubSplitter (projection : Projection F) (globalDegrees : List ℕ) : Splitter F S where
  split indices rng :=
    let split := hubSplit arithmetic draw projection data indices globalDegrees rng
    (if arithmetic.lt split.1.2 arithmetic.minSplitBalance then none else some split.1.1, split.2)
  divides indices rng split' _ h := by
    dsimp only at h
    cases hbalance : arithmetic.lt
        (hubSplit arithmetic draw projection data indices globalDegrees rng).1.2
        arithmetic.minSplitBalance with
    | true =>
      rw [if_pos hbalance] at h
      exact absurd h.symm (some_ne_none _)
    | false =>
      rw [hbalance] at h
      obtain rfl := some.inj h
      exact hubSplit_divides rfl hbalance

def makeAngularTree : ℕ → ℕ → List ℤ → S → TreeBuilder F → (ℕ × TreeBuilder F) × S :=
  (projectionSplitter arithmetic draw data (angular arithmetic)).makeTree arithmetic

def makeEuclideanTree : ℕ → ℕ → List ℤ → S → TreeBuilder F → (ℕ × TreeBuilder F) × S :=
  (projectionSplitter arithmetic draw data (euclidean arithmetic)).makeTree arithmetic

def makeHubEuclideanTree (globalDegrees : List ℕ) :
    ℕ → ℕ → List ℤ → S → TreeBuilder F → (ℕ × TreeBuilder F) × S :=
  (hubSplitter arithmetic draw data (euclidean arithmetic) globalDegrees).makeTree arithmetic

def makeHubAngularTree (globalDegrees : List ℕ) :
    ℕ → ℕ → List ℤ → S → TreeBuilder F → (ℕ × TreeBuilder F) × S :=
  (hubSplitter arithmetic draw data (angular arithmetic) globalDegrees).makeTree arithmetic

def makeDenseTree (rng : S) (leafSize : ℕ) (useAngular : Bool) (maxDepth : ℕ) :
    Option (FlatTree F) × S :=
  let built :=
    if useAngular then
      makeAngularTree arithmetic draw data leafSize maxDepth data.indices rng []
    else makeEuclideanTree arithmetic draw data leafSize maxDepth data.indices rng []
  (convertBuilderToFlatTree arithmetic built.1.2 built.1.1 data.nrows data.ncols, built.2)

/-- The neighbor graph has a row for each point. -/
def makeHubTree (neighborIndices : List (List ℤ)) (rng : S) (leafSize : ℕ) (useAngular : Bool)
    (maxDepth : ℕ) : Option (FlatTree F) × S :=
  let globalDegrees := computeGlobalDegrees neighborIndices
  let built :=
    if useAngular then
      makeHubAngularTree arithmetic draw data globalDegrees leafSize maxDepth data.indices rng []
    else makeHubEuclideanTree arithmetic draw data globalDegrees leafSize maxDepth data.indices rng []
  (convertBuilderToFlatTree arithmetic built.1.2 built.1.1 data.nrows data.ncols, built.2)

end Builders

/-! ## What is built -/

/-- New nodes behind a builder represent a tree of some points without empty leaves. -/
structure Grows (builder builder' : TreeBuilder F) (root : ℕ) (indices : List ℤ)
    (tree : LeafTree ℤ (BuilderNode F)) : Prop where
  extends_builder : ∃ nodes, builder' = builder ++ nodes ∧ tree.size = nodes.length
  represents : Represents builder' root tree
  points_perm : tree.points.Perm indices
  leaves_ne_nil : ∀ leaf ∈ tree.leaves, leaf ≠ []

theorem grows_addLeaf (arithmetic : FloatArithmetic F) (builder : TreeBuilder F) {indices : List ℤ}
    (hindices : indices ≠ []) :
    Grows builder (builder.addLeaf arithmetic indices).2 (builder.addLeaf arithmetic indices).1
      indices (.leaf indices) := by
  refine ⟨⟨_, rfl, rfl⟩, ?_, ?_, ?_⟩
  · have hnode : (builder.addLeaf arithmetic indices).2[builder.length]? = some {
        hyperplane := [arithmetic.neg arithmetic.one]
        offset := arithmetic.negInfinity
        children := (-1, -1)
        pointIndices := indices } := getElem?_concat_length
    exact .leaf hnode (show (-1 : ℤ) < 0 by decide)
  · rw [LeafTree.points_leaf]
  · intro leaf hleaf
    rw [mem_singleton.mp hleaf]
    exact hindices

theorem grows_addInternal {builder lefts rights : TreeBuilder F} {left right : ℕ}
    {indices leftIndices rightIndices : List ℤ} {leftTree rightTree : LeafTree ℤ (BuilderNode F)}
    (hdivides : Divides indices leftIndices rightIndices)
    (hleft : Grows builder lefts left leftIndices leftTree)
    (hright : Grows lefts rights right rightIndices rightTree) (hyperplane : List F) (offset : F) :
    ∃ tree, Grows builder (rights.addInternal hyperplane offset left right).2
      (rights.addInternal hyperplane offset left right).1 indices tree := by
  obtain ⟨leftNodes, rfl, hleftSize⟩ := hleft.extends_builder
  obtain ⟨rightNodes, rfl, hrightSize⟩ := hright.extends_builder
  let node : BuilderNode F :=
    { hyperplane, offset, children := ((left : ℤ), (right : ℤ)), pointIndices := [-1] }
  refine ⟨.node node leftTree rightTree, ⟨leftNodes ++ (rightNodes ++ [node]), ?_, ?_⟩, ?_, ?_, ?_⟩
  · change builder ++ leftNodes ++ rightNodes ++ [node] = _
    simp only [append_assoc]
  · rw [length_append, length_append, length_singleton, LeafTree.size]
    omega
  · have hnode : (builder ++ leftNodes ++ rightNodes ++ [node])[
        (builder ++ leftNodes ++ rightNodes).length]? = some node := getElem?_concat_length
    exact .inner hnode rfl ((hleft.represents.append _).append [node])
      (hright.represents.append [node])
  · rw [LeafTree.points_node]
    exact (hleft.points_perm.append hright.points_perm).trans hdivides.perm
  · intro leaf hleaf
    rcases mem_append.mp hleaf with h | h
    · exact hleft.leaves_ne_nil leaf h
    · exact hright.leaves_ne_nil leaf h

theorem Splitter.makeTree_grows (arithmetic : FloatArithmetic F) (splitter : Splitter F S)
    {leafSize : ℕ} (hleafSize : 0 < leafSize) (maxDepth : ℕ) {indices : List ℤ}
    (hindices : indices ≠ []) (rng : S) (builder : TreeBuilder F) :
    ∃ tree, Grows builder
      (splitter.makeTree arithmetic leafSize maxDepth indices rng builder).1.2
      (splitter.makeTree arithmetic leafSize maxDepth indices rng builder).1.1 indices tree := by
  induction maxDepth generalizing indices rng builder with
  | zero => exact ⟨_, grows_addLeaf arithmetic builder hindices⟩
  | succ maxDepth ih =>
    by_cases hsmall : indices.length ≤ leafSize
    · simp only [Splitter.makeTree, if_pos hsmall]
      exact ⟨_, grows_addLeaf arithmetic builder hindices⟩
    · rcases hsplit : splitter.split indices rng with ⟨split, rng'⟩
      cases split with
      | none =>
        simp only [Splitter.makeTree, if_neg hsmall, hsplit]
        exact ⟨_, grows_addLeaf arithmetic builder hindices⟩
      | some split =>
        simp only [Splitter.makeTree, if_neg hsmall, hsplit]
        have hdivides := splitter.divides indices rng split (by omega) (by rw [hsplit])
        obtain ⟨leftTree, hleft⟩ := ih hdivides.left_ne_nil rng' builder
        obtain ⟨rightTree, hright⟩ := ih hdivides.right_ne_nil
          (splitter.makeTree arithmetic leafSize maxDepth split.left rng' builder).2
          (splitter.makeTree arithmetic leafSize maxDepth split.left rng' builder).1.2
        exact grows_addInternal hdivides hleft hright split.hyperplane split.offset

/-! ## Flat trees -/

/-- How a stored pair is read. -/
def decodeCell (pair : ℤ × ℤ) : TreeCell :=
  if pair.1 ≤ 0 then .range (-pair.1).toNat (-pair.2).toNat
  else .links pair.1.toNat pair.2.toNat

def FlatTree.cells (tree : FlatTree F) : List TreeCell := tree.children.map decodeCell

/-- The flat tree of a tree of all points without empty leaves. -/
structure FlatTree.Sound (count : ℕ) (flat : FlatTree F) (tree : LeafTree ℤ (BuilderNode F)) :
    Prop where
  children : flat.children = (tree.layout 0 0).map encodeCell
  indices : flat.indices = tree.points
  points_perm : tree.points.Perm ((List.range count).map Int.ofNat)
  leaves_ne_nil : ∀ leaf ∈ tree.leaves, leaf ≠ []

/-- The flat trees that are built, by any builder from any data. -/
inductive Built (arithmetic : FloatArithmetic F) (draw : S → ℕ × S) (data : Dataset F) :
    FlatTree F → Prop where
  | dense {tree : FlatTree F} {rng rng' : S} {leafSize maxDepth : ℕ} {useAngular : Bool}
      (hleafSize : 0 < leafSize)
      (h : makeDenseTree arithmetic draw data rng leafSize useAngular maxDepth =
        (some tree, rng')) : Built arithmetic draw data tree
  | hub {tree : FlatTree F} {rng rng' : S} {leafSize maxDepth : ℕ} {useAngular : Bool}
      {neighborIndices : List (List ℤ)} (hleafSize : 0 < leafSize)
      (h : makeHubTree arithmetic draw data neighborIndices rng leafSize useAngular maxDepth =
        (some tree, rng')) : Built arithmetic draw data tree

variable {arithmetic : FloatArithmetic F} {draw : S → ℕ × S} {data : Dataset F}

theorem Dataset.indices_ne_nil (h : 0 < data.nrows) : data.indices ≠ [] := by
  refine ne_nil_of_length_pos ?_
  rw [Dataset.indices, length_map, length_range]
  exact h

theorem Grows.convert {builder : TreeBuilder F} {root : ℕ} {tree : LeafTree ℤ (BuilderNode F)}
    (h : Grows [] builder root data.indices tree) (arithmetic : FloatArithmetic F) :
    ∃ flat, convertBuilderToFlatTree arithmetic builder root data.nrows data.ncols = some flat ∧
      flat.Sound data.nrows tree := by
  obtain ⟨nodes, hnodes, hsize⟩ := h.extends_builder
  obtain rfl : builder = nodes := hnodes
  have hlength : tree.points.length = data.nrows := by
    rw [h.points_perm.length_eq, Dataset.indices, length_map, length_range]
  obtain ⟨flat, hflat, hchildren, hindices⟩ :=
    convertBuilderToFlatTree_eq arithmetic data.ncols h.represents hsize hlength
  exact ⟨flat, hflat, hchildren, hindices, h.points_perm, h.leaves_ne_nil⟩

theorem makeDenseTree_sound (hdata : 0 < data.nrows) (rng : S) {leafSize : ℕ}
    (hleafSize : 0 < leafSize) (useAngular : Bool) (maxDepth : ℕ) :
    ∃ flat tree, (makeDenseTree arithmetic draw data rng leafSize useAngular maxDepth).1 =
      some flat ∧ flat.Sound data.nrows tree := by
  unfold makeDenseTree makeAngularTree makeEuclideanTree
  have hbuilt := fun projection => Splitter.makeTree_grows arithmetic
    (projectionSplitter arithmetic draw data projection) hleafSize maxDepth
    (Dataset.indices_ne_nil hdata) rng []
  cases useAngular with
  | false =>
    obtain ⟨tree, htree⟩ := hbuilt (euclidean arithmetic)
    obtain ⟨flat, hflat⟩ := htree.convert arithmetic
    exact ⟨flat, tree, hflat⟩
  | true =>
    obtain ⟨tree, htree⟩ := hbuilt (angular arithmetic)
    obtain ⟨flat, hflat⟩ := htree.convert arithmetic
    exact ⟨flat, tree, hflat⟩

theorem makeHubTree_sound (hdata : 0 < data.nrows) (neighborIndices : List (List ℤ)) (rng : S)
    {leafSize : ℕ} (hleafSize : 0 < leafSize) (useAngular : Bool) (maxDepth : ℕ) :
    ∃ flat tree,
      (makeHubTree arithmetic draw data neighborIndices rng leafSize useAngular maxDepth).1 =
        some flat ∧ flat.Sound data.nrows tree := by
  unfold makeHubTree makeHubAngularTree makeHubEuclideanTree
  have hbuilt := fun projection => Splitter.makeTree_grows arithmetic
    (hubSplitter arithmetic draw data projection (computeGlobalDegrees neighborIndices)) hleafSize
    maxDepth (Dataset.indices_ne_nil hdata) rng []
  cases useAngular with
  | false =>
    obtain ⟨tree, htree⟩ := hbuilt (euclidean arithmetic)
    obtain ⟨flat, hflat⟩ := htree.convert arithmetic
    exact ⟨flat, tree, hflat⟩
  | true =>
    obtain ⟨tree, htree⟩ := hbuilt (angular arithmetic)
    obtain ⟨flat, hflat⟩ := htree.convert arithmetic
    exact ⟨flat, tree, hflat⟩

theorem Built.sound {flat : FlatTree F} (h : Built arithmetic draw data flat)
    (hdata : 0 < data.nrows) : ∃ tree, flat.Sound data.nrows tree := by
  cases h with
  | @dense rng rng' leafSize maxDepth useAngular hleafSize h =>
    obtain ⟨flat', tree, hflat, hsound⟩ := @makeDenseTree_sound F S arithmetic draw data
      hdata rng leafSize hleafSize useAngular maxDepth
    rw [h] at hflat
    obtain rfl := some.inj hflat
    exact ⟨tree, hsound⟩
  | @hub rng rng' leafSize maxDepth useAngular neighborIndices hleafSize h =>
    obtain ⟨flat', tree, hflat, hsound⟩ := @makeHubTree_sound F S arithmetic draw data
      hdata neighborIndices rng leafSize hleafSize useAngular maxDepth
    rw [h] at hflat
    obtain rfl := some.inj hflat
    exact ⟨tree, hsound⟩

end DashQL.Umap
