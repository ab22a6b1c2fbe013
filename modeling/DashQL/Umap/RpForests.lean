import DashQL.Umap.RpTrees
import Mathlib.Data.List.Nodup
import Mathlib.Data.Rat.Defs
import Mathlib.Data.Nat.Sqrt

/-!
# Searching and listing the leaves of flat trees

The pairs of a sound flat tree are the cells of its tree.  A search follows links until it is at a
leaf, and the rows of a forest are its leaves, filled up with -1.
-/

namespace DashQL.Umap

open List

variable {F S : Type*} {flat : FlatTree F} {tree : LeafTree ℤ (BuilderNode F)} {count : ℕ}

/-! ## Cells -/

theorem decodeCell_range (start stop : ℕ) :
    decodeCell (encodeCell (.range start stop)) = .range start stop := by
  simp [decodeCell, encodeCell]

theorem decodeCell_links {left : ℕ} (hleft : 0 < left) (right : ℕ) :
    decodeCell (encodeCell (.links left right)) = .links left right := by
  simp [decodeCell, encodeCell, hleft.ne']

theorem decodeCell_of_mem {cell : TreeCell} {start : ℕ} (h : cell ∈ tree.layout 0 start) :
    decodeCell (encodeCell cell) = cell := by
  cases cell with
  | links left right => exact decodeCell_links (LeafTree.links_within tree h).1 right
  | range start stop => exact decodeCell_range start stop

namespace FlatTree.Sound

section

variable (h : flat.Sound count tree)

include h

theorem cells : flat.cells = tree.layout 0 0 := by
  rw [FlatTree.cells, h.children, map_map]
  exact (map_congr_left fun cell hcell => decodeCell_of_mem hcell).trans (map_id _)

theorem length_points : tree.points.length = count := by
  rw [h.points_perm.length_eq, length_map, length_range]

theorem spans : Spans flat.cells 0 (List.range flat.cells.length) := by
  have hspans := LeafTree.spans_layout tree (LeafTree.holds_self (tree.layout 0 0))
  rw [h.cells, LeafTree.length_layout, range_eq_range']
  exact hspans

theorem range_bounds {start stop : ℕ} (hcell : .range start stop ∈ flat.cells) :
    start < stop ∧ stop ≤ count := by
  rw [h.cells] at hcell
  have hwithin := LeafTree.range_within tree hcell
  rw [h.length_points] at hwithin
  exact ⟨LeafTree.range_nonempty tree h.leaves_ne_nil hcell, by omega⟩

end

end FlatTree.Sound

/-! ## Searching -/

theorem getElem?_cells (flat : FlatTree F) (node : ℕ) :
    flat.cells[node]? = flat.children[node]?.map decodeCell :=
  getElem?_map

theorem searchFrom_range {arithmetic : FloatArithmetic F} {draw : S → ℕ × S} {node start stop : ℕ}
    (h : flat.cells[node]? = some (.range start stop)) (point : List F) (rounds : ℕ) (rng : S) :
    searchFrom arithmetic draw flat point (rounds + 1) node rng = some (start, stop) := by
  rw [getElem?_cells, Option.map_eq_some_iff] at h
  obtain ⟨⟨left, right⟩, hpair, hcell⟩ := h
  by_cases hle : left ≤ 0
  · rw [decodeCell, if_pos hle] at hcell
    obtain ⟨rfl, rfl⟩ := TreeCell.range.inj hcell
    simp only [searchFrom, hpair, if_pos hle]
  · rw [decodeCell, if_neg hle] at hcell
    cases hcell

/-- A round at an inner node goes to one of its children. -/
theorem searchFrom_links {arithmetic : FloatArithmetic F} {draw : S → ℕ × S} {node left right : ℕ}
    (h : flat.cells[node]? = some (.links left right)) (point : List F) (rounds : ℕ) (rng : S) :
    ∃ child rng', (child = left ∨ child = right) ∧
      searchFrom arithmetic draw flat point (rounds + 1) node rng =
        searchFrom arithmetic draw flat point rounds child rng' := by
  rw [getElem?_cells, Option.map_eq_some_iff] at h
  obtain ⟨⟨storedLeft, storedRight⟩, hpair, hcell⟩ := h
  by_cases hle : storedLeft ≤ 0
  · rw [decodeCell, if_pos hle] at hcell
    cases hcell
  · rw [decodeCell, if_neg hle] at hcell
    obtain ⟨rfl, rfl⟩ := TreeCell.links.inj hcell
    simp only [searchFrom, hpair, if_neg hle]
    by_cases hside : (selectSide arithmetic draw (flat.hyperplanes.getD node [])
        (flat.offsets.getD node arithmetic.zero) point rng).1 = 0
    · exact ⟨_, _, .inl rfl, if_pos hside⟩
    · exact ⟨_, _, .inr rfl, if_neg hside⟩

theorem searchFrom_ends (arithmetic : FloatArithmetic F) (draw : S → ℕ × S) {node : ℕ}
    {visited : List ℕ} (h : Spans flat.cells node visited) (point : List F) {rounds : ℕ}
    (hrounds : visited.length ≤ rounds) (rng : S) :
    ∃ start stop, searchFrom arithmetic draw flat point rounds node rng = some (start, stop) ∧
      .range start stop ∈ flat.cells := by
  induction h generalizing rounds rng with
  | @leaf node start stop h =>
    obtain ⟨rounds, rfl⟩ := Nat.exists_eq_succ_of_ne_zero (Nat.ne_of_gt hrounds)
    exact ⟨start, stop, searchFrom_range h point rounds rng, List.mem_of_getElem? h⟩
  | @node node left right lefts rights h hleft hright ihleft ihright =>
    rw [length_cons, length_append] at hrounds
    obtain ⟨rounds, rfl⟩ := Nat.exists_eq_succ_of_ne_zero (by omega : rounds ≠ 0)
    obtain ⟨child, rng', hchild, hround⟩ := searchFrom_links h point rounds rng
    rw [hround]
    rcases hchild with rfl | rfl
    · exact ihleft (by omega) rng'
    · exact ihright (by omega) rng'

/-! ## The leaves of a forest -/

theorem leafOf_links {left : ℕ} (hleft : 0 < left) (indices : List ℤ) (right : ℕ) :
    leafOf indices (encodeCell (.links left right)) = none := by
  refine if_neg ?_
  rintro ⟨hle, -⟩
  have hcast : (left : ℤ) ≤ 0 := hle
  omega

theorem leafOf_range {indices : List ℤ} {start stop : ℕ} (hlt : start < stop)
    (hle : stop ≤ indices.length) :
    leafOf indices (encodeCell (.range start stop)) =
      some ((indices.drop start).take (stop - start)) := by
  have hleaf : (encodeCell (.range start stop)).1 ≤ 0 ∧ (encodeCell (.range start stop)).2 ≤ 0 ∧
      ((encodeCell (.range start stop)).1 ≠ 0 ∨ (encodeCell (.range start stop)).2 ≠ 0) := by
    simp only [encodeCell]
    omega
  have hstart : (-(encodeCell (.range start stop)).1).toNat = start := by
    simp [encodeCell]
  have hstop : (-(encodeCell (.range start stop)).2).toNat = stop := by
    simp [encodeCell]
  unfold leafOf
  rw [if_pos hleaf, hstart, hstop]
  dsimp only
  rw [min_eq_left hle]
  exact if_pos ⟨hlt, by omega⟩

theorem FlatTree.Sound.filterMap_leafOf (h : flat.Sound count tree) :
    flat.children.filterMap (leafOf flat.indices) = tree.leaves := by
  have hlength : flat.indices.length = count := by rw [h.indices, h.length_points]
  have hcells : ∀ cell ∈ tree.layout 0 0,
      leafOf flat.indices (encodeCell cell) = LeafTree.slice flat.indices cell := by
    intro cell hcell
    cases cell with
    | links left right => exact leafOf_links (LeafTree.links_within tree hcell).1 _ right
    | range start stop =>
      obtain ⟨hlt, hle⟩ := h.range_bounds (h.cells ▸ hcell)
      exact leafOf_range hlt (hlength ▸ hle)
  have hindices : flat.indices = [] ++ tree.points ++ [] := by
    rw [h.indices, nil_append, append_nil]
  rw [h.children, filterMap_map]
  refine (filterMap_congr hcells).trans ?_
  exact LeafTree.filterMap_slice_layout tree hindices

theorem FlatTree.Sound.filterMap_slice (h : flat.Sound count tree) :
    flat.cells.filterMap (LeafTree.slice flat.indices) = tree.leaves := by
  have hindices : flat.indices = [] ++ tree.points ++ [] := by
    rw [h.indices, nil_append, append_nil]
  rw [h.cells]
  exact LeafTree.filterMap_slice_layout tree hindices

/-- A row without what it is filled up with. -/
def unpad (row : List ℤ) : List ℤ := row.filter (0 ≤ ·)

theorem unpad_padRow {leaf : List ℤ} (hleaf : ∀ point ∈ leaf, 0 ≤ point) (width : ℕ) :
    unpad (padRow width leaf) = leaf := by
  have hpadding : unpad (List.replicate (width - leaf.length) (-1)) = [] := by
    refine filter_eq_nil_iff.mpr fun point hpoint => ?_
    rw [eq_of_mem_replicate hpoint]
    decide
  have hkept : unpad leaf = leaf :=
    filter_eq_self.mpr fun point hpoint => decide_eq_true (hleaf point hpoint)
  calc unpad (padRow width leaf)
      = unpad leaf ++ unpad (List.replicate (width - leaf.length) (-1)) :=
        filter_append leaf _
    _ = leaf := by rw [hpadding, hkept, append_nil]

theorem count_padRow (width : ℕ) (leaf : List ℤ) (point : ℕ) :
    (padRow width leaf).count (point : ℤ) = leaf.count (point : ℤ) := by
  have hpadding : (List.replicate (width - leaf.length) (-1 : ℤ)).count (point : ℤ) = 0 := by
    refine count_eq_zero_of_not_mem fun hmem => ?_
    have := eq_of_mem_replicate hmem
    omega
  rw [padRow, count_append, hpadding, Nat.add_zero]

def forestLeaves (forest : List (FlatTree F)) : List (List ℤ) :=
  forest.flatMap fun tree => tree.cells.filterMap (LeafTree.slice tree.indices)

def SoundForest (count : ℕ) (forest : List (FlatTree F)) : Prop :=
  ∀ flat ∈ forest, ∃ tree, flat.Sound count tree

variable {forest : List (FlatTree F)}

section

variable (h : SoundForest count forest)

include h

theorem forestLeaves_eq :
    forest.flatMap (fun tree => tree.children.filterMap (leafOf tree.indices)) =
      forestLeaves forest := by
  refine flatMap_congr fun flat hflat => ?_
  obtain ⟨tree, htree⟩ := h flat hflat
  rw [htree.filterMap_leafOf, htree.filterMap_slice]

theorem mem_forestLeaves {leaf : List ℤ} (hleaf : leaf ∈ forestLeaves forest) :
    leaf ≠ [] ∧ ∀ point ∈ leaf, 0 ≤ point := by
  obtain ⟨flat, hflat, hleaf⟩ := mem_flatMap.mp hleaf
  obtain ⟨tree, htree⟩ := h flat hflat
  rw [htree.filterMap_slice] at hleaf
  refine ⟨htree.leaves_ne_nil leaf hleaf, fun point hpoint => ?_⟩
  have hmem : point ∈ tree.points := mem_flatten.mpr ⟨leaf, hleaf, hpoint⟩
  obtain ⟨k, -, rfl⟩ := mem_map.mp (htree.points_perm.mem_iff.mp hmem)
  exact Int.natCast_nonneg k

theorem count_forestLeaves {point : ℕ} (hpoint : point < count) :
    (forestLeaves forest).flatten.count (point : ℤ) = forest.length := by
  induction forest with
  | nil => rfl
  | cons flat forest ih =>
    obtain ⟨tree, htree⟩ := h flat mem_cons_self
    have hrest := ih fun other hother => h other (mem_cons_of_mem _ hother)
    have hnodup : ((List.range count).map Int.ofNat).Nodup :=
      List.Nodup.map (fun a b hab => Int.ofNat.inj hab) nodup_range
    have honce : tree.points.count (point : ℤ) = 1 := by
      rw [htree.points_perm.count_eq]
      exact count_eq_one_of_mem hnodup (mem_map.mpr ⟨point, mem_range.mpr hpoint, rfl⟩)
    have hsplit : (forestLeaves (flat :: forest)).flatten =
        tree.points ++ (forestLeaves forest).flatten := by
      rw [forestLeaves, flatMap_cons, flatten_append, htree.filterMap_slice]
      rfl
    rw [hsplit, count_append, honce, hrest, length_cons, Nat.add_comm]

/-- The rows that are listed for a forest, without what they are filled up with. -/
theorem rptreeLeafArray_rows :
    ((rptreeLeafArray forest).map unpad).filter (· ≠ []) = forestLeaves forest := by
  have hmem := fun leaf => @mem_forestLeaves F count forest h leaf
  unfold rptreeLeafArray
  rw [forestLeaves_eq h]
  dsimp only
  split_ifs with hempty
  · rw [List.isEmpty_iff.mp hempty]
    decide
  · rw [map_map]
    have hrows : (forestLeaves forest).map (unpad ∘ padRow
        (((forestLeaves forest).map List.length).foldl max 0)) = forestLeaves forest :=
      (map_congr_left fun leaf hleaf => unpad_padRow (hmem leaf hleaf).2 _).trans (map_id _)
    rw [hrows]
    exact filter_eq_self.mpr fun leaf hleaf => decide_eq_true (hmem leaf hleaf).1

theorem count_rptreeLeafArray {point : ℕ} (hpoint : point < count) :
    (rptreeLeafArray forest).flatten.count (point : ℤ) = forest.length := by
  have hcount := count_forestLeaves h hpoint
  have hrows : ∀ (width : ℕ) (leaves : List (List ℤ)),
      (leaves.map (padRow width)).flatten.count (point : ℤ) = leaves.flatten.count (point : ℤ) := by
    intro width leaves
    induction leaves with
    | nil => rfl
    | cons leaf leaves ih =>
      rw [map_cons, flatten_cons, flatten_cons, count_append, count_append, count_padRow, ih]
  unfold rptreeLeafArray
  rw [forestLeaves_eq h]
  dsimp only
  split_ifs with hempty
  · rw [List.isEmpty_iff.mp hempty] at hcount
    rw [← hcount]
    refine count_eq_zero_of_not_mem fun hmem => ?_
    have := mem_singleton.mp hmem
    omega
  · rw [hrows, hcount]

/-! ## All trees that are built -/

end

section Sound

variable (arithmetic : FloatArithmetic F) (draw : S → ℕ × S) (data : Dataset F)

/-- Every builder builds a binary tree in pre-order with all points in leaves that are not empty;
searches end at leaves, and the leaves of a forest are listed. -/
theorem built_sound (hdata : 0 < data.nrows) :
    (∀ (rng : S) (leafSize : ℕ) (useAngular : Bool) (maxDepth : ℕ), 0 < leafSize →
      (∃ flat, (makeDenseTree arithmetic draw data rng leafSize useAngular maxDepth).1 =
        some flat) ∧
      ∀ neighborIndices, ∃ flat, (makeHubTree arithmetic draw data neighborIndices rng leafSize
        useAngular maxDepth).1 = some flat) ∧
    (∀ flat, Built arithmetic draw data flat →
      flat.children = flat.cells.map encodeCell ∧
      Spans flat.cells 0 (List.range flat.cells.length) ∧
      (∀ start stop, .range start stop ∈ flat.cells → start < stop ∧ stop ≤ data.nrows) ∧
      (∀ position < data.nrows, ∃! node, LeafTree.Covers flat.cells position node) ∧
      flat.indices.Perm data.indices ∧
      ∀ (point : List F) (rng : S), ∃ start stop,
        searchFrom arithmetic draw flat point flat.children.length 0 rng = some (start, stop) ∧
          .range start stop ∈ flat.cells ∧ start < stop) ∧
    ∀ forest : List (FlatTree F), (∀ flat ∈ forest, Built arithmetic draw data flat) →
      ((rptreeLeafArray forest).map unpad).filter (· ≠ []) = forestLeaves forest ∧
      ∀ point < data.nrows, (rptreeLeafArray forest).flatten.count (point : ℤ) = forest.length := by
  refine ⟨fun rng leafSize useAngular maxDepth hleafSize => ⟨?_, fun neighborIndices => ?_⟩,
    fun flat hbuilt => ?_, fun forest hforest => ?_⟩
  · obtain ⟨flat, tree, hflat, -⟩ := @makeDenseTree_sound F S arithmetic draw data hdata rng leafSize
      hleafSize useAngular maxDepth
    exact ⟨flat, hflat⟩
  · obtain ⟨flat, tree, hflat, -⟩ := @makeHubTree_sound F S arithmetic draw data hdata
      neighborIndices rng leafSize hleafSize useAngular maxDepth
    exact ⟨flat, hflat⟩
  · obtain ⟨tree, hsound⟩ := hbuilt.sound hdata
    have hspans := hsound.spans
    refine ⟨?_, hspans, fun start stop => hsound.range_bounds, fun position hposition => ?_, ?_,
      fun point rng => ?_⟩
    · rw [hsound.cells, hsound.children]
    · rw [hsound.cells]
      refine LeafTree.existsUnique_covers tree (Nat.zero_le position) ?_
      rw [hsound.length_points]
      omega
    · rw [hsound.indices]
      exact hsound.points_perm
    · have hrounds : (List.range flat.cells.length).length ≤ flat.children.length := by
        rw [length_range, FlatTree.cells, length_map]
      obtain ⟨start, stop, hsearch, hcell⟩ :=
        searchFrom_ends arithmetic draw hspans point hrounds rng
      exact ⟨start, stop, hsearch, hcell, (hsound.range_bounds hcell).1⟩
  · have hsound : SoundForest data.nrows forest :=
      fun flat hflat => (hforest flat hflat).sound hdata
    exact ⟨rptreeLeafArray_rows hsound, fun point hpoint => count_rptreeLeafArray hsound hpoint⟩

end Sound

/-- Exact arithmetic, but for roots, which are rounded. -/
def rationals : FloatArithmetic ℚ where
  zero := 0
  one := 1
  half := 1 / 2
  negInfinity := -(2 ^ 128)
  eps := 1 / 10 ^ 8
  minSplitBalance := 1 / 10
  add a b := a + b
  sub a b := a - b
  mul a b := a * b
  div a b := a / b
  max a b := if a < b then b else a
  neg a := -a
  abs a := if a < 0 then -a else a
  sqrt a := (Nat.sqrt (a * 10 ^ 8).floor.toNat : ℚ) / 10 ^ 4
  ofNat n := n
  lt a b := decide (a < b)
  zero_lt_minSplitBalance := by decide +kernel

def twoPoints : Dataset ℚ where
  ncols := 1
  rows := [[0], [1]]
  length_of_mem := by decide

theorem built_sound_twoPoints :
    (∃ flat, (makeDenseTree rationals (fun rng => (rng, rng + 1)) twoPoints 0 1 false 3).1 =
      some flat) ∧
    ∀ flat, Built rationals (fun rng => (rng, rng + 1)) twoPoints flat → flat.indices.Perm [0, 1] :=
  have sound := built_sound rationals (fun rng => (rng, rng + 1)) twoPoints (by decide)
  ⟨(sound.1 0 1 false 3 (by decide)).1, fun flat h => (sound.2.1 flat h).2.2.2.2.1⟩

end DashQL.Umap
