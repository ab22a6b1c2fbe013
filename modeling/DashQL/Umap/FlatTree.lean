import DashQL.Library.LeafTrees

/-!
# Flat random projection trees

A builder has the nodes of a tree with children before their parents.  It is converted into arrays in
which parents come before their children, with the points of all leaves one behind the other.  A leaf
has the negated range of its points where an inner node has its children.
-/

namespace DashQL.Umap

structure FloatArithmetic (F : Type*) where
  zero : F
  one : F
  half : F
  negInfinity : F
  /-- The bound of margins that are decided by chance. -/
  eps : F
  /-- The least share of the points on the smaller side of a split. -/
  minSplitBalance : F
  add : F → F → F
  sub : F → F → F
  mul : F → F → F
  div : F → F → F
  max : F → F → F
  neg : F → F
  abs : F → F
  sqrt : F → F
  ofNat : ℕ → F
  lt : F → F → Bool
  zero_lt_minSplitBalance : lt zero minSplitBalance = true

variable {F S : Type*}

/-! ## Building -/

structure BuilderNode (F : Type*) where
  hyperplane : List F
  offset : F
  children : ℤ × ℤ
  pointIndices : List ℤ

/-- The nodes so far. -/
abbrev TreeBuilder (F : Type*) := List (BuilderNode F)

def TreeBuilder.addLeaf (arithmetic : FloatArithmetic F) (indices : List ℤ)
    (builder : TreeBuilder F) : ℕ × TreeBuilder F :=
  (builder.length,
    builder ++ [{
      hyperplane := [arithmetic.neg arithmetic.one]
      offset := arithmetic.negInfinity
      children := (-1, -1)
      pointIndices := indices }])

def TreeBuilder.addInternal (hyperplane : List F) (offset : F) (left right : ℕ)
    (builder : TreeBuilder F) : ℕ × TreeBuilder F :=
  (builder.length,
    builder ++ [{ hyperplane, offset, children := (left, right), pointIndices := [-1] }])

structure FlatTree (F : Type*) where
  hyperplanes : List (List F)
  offsets : List F
  /-- The children of inner nodes, and the negated ranges of leaves. -/
  children : List (ℤ × ℤ)
  indices : List ℤ
  leafSize : ℕ

/-! ## Flattening -/

/-- What the recursion in `convert_builder_to_flat_tree` shares. -/
structure FlattenState (F : Type*) where
  nodeNum : ℕ
  leafStart : ℕ
  hyperplanes : List (List F)
  offsets : List F
  children : List (ℤ × ℤ)
  flatIndices : List ℤ
  maxLeafSize : ℕ

/-- Write the points of a leaf, as far as there is room. -/
def writePoints : List ℤ → ℕ → List ℤ → List ℤ
  | [], _, flatIndices => flatIndices
  | point :: points, position, flatIndices =>
    writePoints points (position + 1)
      (if position < flatIndices.length then flatIndices.set position point else flatIndices)

namespace FlattenState

def setLeft (current : ℕ) (value : ℤ) (state : FlattenState F) : FlattenState F :=
  { state with children := state.children.modify current fun pair => (value, pair.2) }

def setRight (current : ℕ) (value : ℤ) (state : FlattenState F) : FlattenState F :=
  { state with children := state.children.modify current fun pair => (pair.1, value) }

def leaf (points : List ℤ) (state : FlattenState F) : FlattenState F :=
  let start := state.leafStart
  let stop := start + points.length
  let written := (state.setLeft state.nodeNum (-start)).setRight state.nodeNum (-stop)
  { written with
    flatIndices := writePoints points start state.flatIndices
    maxLeafSize := max state.maxLeafSize points.length
    leafStart := stop }

def inner (node : BuilderNode F) (state : FlattenState F) : FlattenState F :=
  { state with
    hyperplanes := state.hyperplanes.modify state.nodeNum fun row =>
      node.hyperplane.take row.length ++ row.drop node.hyperplane.length
    offsets := state.offsets.set state.nodeNum node.offset }

def nextNode (state : FlattenState F) : FlattenState F :=
  { state with nodeNum := state.nodeNum + 1 }

end FlattenState

/-- The recursion in `convert_builder_to_flat_tree`, to a depth. -/
def flatten (builder : TreeBuilder F) : ℕ → ℕ → FlattenState F → Option (FlattenState F)
  | 0, _, _ => none
  | depth + 1, treeNode, state =>
    match builder[treeNode]? with
    | none => none
    | some node =>
      if node.children.1 < 0 then
        some (state.leaf node.pointIndices)
      else
        let current := state.nodeNum
        let left := (state.inner node).nextNode
        match flatten builder depth node.children.1.toNat (left.setLeft current left.nodeNum) with
        | none => none
        | some state =>
          let right := state.nextNode
          flatten builder depth node.children.2.toNat (right.setRight current right.nodeNum)

/-- `convert_builder_to_flat_tree`; no path in a builder is longer than the number of its nodes. -/
def convertBuilderToFlatTree (arithmetic : FloatArithmetic F) (builder : TreeBuilder F)
    (root dataSize dataDim : ℕ) : Option (FlatTree F) :=
  let initial : FlattenState F :=
    { nodeNum := 0
      leafStart := 0
      hyperplanes := List.replicate builder.length (List.replicate dataDim arithmetic.zero)
      offsets := List.replicate builder.length arithmetic.zero
      children := List.replicate builder.length (-1, -1)
      flatIndices := List.replicate dataSize (-1)
      maxLeafSize := 0 }
  (flatten builder builder.length root initial).map fun state =>
    { hyperplanes := state.hyperplanes
      offsets := state.offsets
      children := state.children
      indices := state.flatIndices
      leafSize := state.maxLeafSize }

/-! ## Searching -/

def dotProduct (arithmetic : FloatArithmetic F) (a b : List F) : F :=
  (a.zip b).foldl (fun sum pair => arithmetic.add sum (arithmetic.mul pair.1 pair.2))
    arithmetic.zero

/-- The side of a hyperplane: 0 for left, 1 for right.  The draws of random numbers are given. -/
def selectSide (arithmetic : FloatArithmetic F) (draw : S → ℕ × S) (hyperplane : List F)
    (offset : F) (point : List F) (rng : S) : ℕ × S :=
  let margin := arithmetic.add
    (dotProduct arithmetic hyperplane (point.take hyperplane.length)) offset
  if arithmetic.lt (arithmetic.abs margin) arithmetic.eps then
    ((draw rng).1 % 2, (draw rng).2)
  else if arithmetic.lt arithmetic.zero margin then (0, rng)
  else (1, rng)

/-- The loop of `search_flat_tree` from a node, for a number of rounds. -/
def searchFrom (arithmetic : FloatArithmetic F) (draw : S → ℕ × S) (tree : FlatTree F)
    (point : List F) : ℕ → ℕ → S → Option (ℕ × ℕ)
  | 0, _, _ => none
  | rounds + 1, node, rng =>
    match tree.children[node]? with
    | none => none
    | some (left, right) =>
      if left ≤ 0 then
        some ((-left).toNat, (-right).toNat)
      else
        let side := selectSide arithmetic draw (tree.hyperplanes.getD node [])
          (tree.offsets.getD node arithmetic.zero) point rng
        if side.1 = 0 then
          searchFrom arithmetic draw tree point rounds left.toNat side.2
        else
          searchFrom arithmetic draw tree point rounds right.toNat side.2

/-! ## The leaves of a forest -/

/-- The leaf of a node in `rptree_leaf_array`. -/
def leafOf (indices : List ℤ) (pair : ℤ × ℤ) : Option (List ℤ) :=
  if pair.1 ≤ 0 ∧ pair.2 ≤ 0 ∧ (pair.1 ≠ 0 ∨ pair.2 ≠ 0) then
    let start := (-pair.1).toNat
    let stop := (-pair.2).toNat
    if start < stop ∧ start < indices.length then
      some ((indices.drop start).take (min stop indices.length - start))
    else
      none
  else
    none

/-- A row that is filled up. -/
def padRow (width : ℕ) (leaf : List ℤ) : List ℤ :=
  leaf ++ List.replicate (width - leaf.length) (-1)

def rptreeLeafArray (forest : List (FlatTree F)) : List (List ℤ) :=
  let allLeaves := forest.flatMap fun tree => tree.children.filterMap (leafOf tree.indices)
  let maxLeafSize := (allLeaves.map List.length).foldl max 0
  if allLeaves.isEmpty then [[-1]] else allLeaves.map (padRow maxLeafSize)

end DashQL.Umap
