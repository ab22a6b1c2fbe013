import DashQL.Library.BinarySearch
import DashQL.Library.RowPositions

/-!
# Sparse matrices

A sparse weighted graph in CSR format: the columns and weights of all rows one behind the other, and
the offsets of the rows.  Weights are rational numbers.

Every matrix is described by its rows (`HasRows`), lists of columns with their weights.
-/

namespace DashQL.Umap

open List

/-! ## The code -/

/-- An entry of a matrix in coordinates. -/
structure Triple where
  row : ℕ
  col : ℕ
  weight : ℚ
  deriving DecidableEq

/-- The order by row and column. -/
def Triple.KeyLe (first second : Triple) : Prop :=
  first.row < second.row ∨ first.row = second.row ∧ first.col ≤ second.col

instance (first second : Triple) : Decidable (first.KeyLe second) :=
  inferInstanceAs (Decidable (_ ∨ _))

theorem Triple.KeyLe.trans {first second third : Triple} (h : first.KeyLe second)
    (h' : second.KeyLe third) : first.KeyLe third := by
  unfold Triple.KeyLe at *
  omega

theorem Triple.keyLe_total (first second : Triple) : first.KeyLe second ∨ second.KeyLe first := by
  unfold Triple.KeyLe
  omega

/-- A sort by row and column, in which the order of triples of one position is not specified. -/
structure UnstableSort where
  sort : List Triple → List Triple
  perm : ∀ triples, (sort triples).Perm triples
  sorted : ∀ triples, (sort triples).Pairwise Triple.KeyLe

def UnstableSort.stable : UnstableSort where
  sort triples := triples.mergeSort fun first second => first.KeyLe second
  perm triples := mergeSort_perm triples _
  sorted triples := by
    have hsorted : (triples.mergeSort fun first second => first.KeyLe second).Pairwise
        fun first second => decide (first.KeyLe second) = true := by
      refine pairwise_mergeSort ?_ ?_ triples
      · intro first second third hfirst hsecond
        exact decide_eq_true ((of_decide_eq_true hfirst).trans (of_decide_eq_true hsecond))
      · intro first second
        rcases first.keyLe_total second with h | h
        · exact Bool.or_eq_true_iff.mpr (.inl (decide_eq_true h))
        · exact Bool.or_eq_true_iff.mpr (.inr (decide_eq_true h))
    exact hsorted.imp of_decide_eq_true

structure SparseMatrix where
  indptr : List ℕ
  indices : List ℕ
  data : List ℚ
  shape : ℕ × ℕ
  deriving DecidableEq

namespace SparseMatrix

/-- A matrix without rows so far. -/
def empty (shape : ℕ × ℕ) : SparseMatrix := { indptr := [0], indices := [], data := [], shape }

/-- Add an entry behind all others. -/
def pushEntry (col : ℕ) (weight : ℚ) (matrix : SparseMatrix) : SparseMatrix :=
  { matrix with indices := matrix.indices ++ [col], data := matrix.data ++ [weight] }

/-- Write down where the next row starts. -/
def closeRow (matrix : SparseMatrix) : SparseMatrix :=
  { matrix with indptr := matrix.indptr ++ [matrix.indices.length] }

/-- The largest weight of a position in front of some triples, and the triples behind. -/
def mergeRun (row col : ℕ) (weight : ℚ) : List Triple → ℚ × List Triple
  | [] => (weight, [])
  | triple :: triples =>
    if triple.row = row ∧ triple.col = col then
      mergeRun row col (max weight triple.weight) triples
    else (weight, triple :: triples)

theorem length_mergeRun (row col : ℕ) (weight : ℚ) (triples : List Triple) :
    (mergeRun row col weight triples).2.length ≤ triples.length := by
  induction triples generalizing weight with
  | nil => exact le_rfl
  | cons triple triples ih =>
    rw [mergeRun]
    split_ifs
    · exact (ih _).trans (Nat.le_succ _)
    · exact le_rfl

/-- Add the entries of a row from sorted triples; the triples behind the row are left. -/
def fillRow (row : ℕ) (triples : List Triple) (matrix : SparseMatrix) : List Triple × SparseMatrix :=
  match triples with
  | [] => ([], matrix)
  | triple :: triples =>
    if triple.row = row then
      have := length_mergeRun row triple.col triple.weight triples
      let merged := mergeRun row triple.col triple.weight triples
      fillRow row merged.2 (matrix.pushEntry triple.col merged.1)
    else (triple :: triples, matrix)
termination_by triples.length
decreasing_by
  rw [length_cons]
  omega

def fillRows (rows : List ℕ) (triples : List Triple) (matrix : SparseMatrix) :
    List Triple × SparseMatrix :=
  rows.foldl (fun state row =>
    let filled := fillRow row state.1 state.2
    (filled.1, filled.2.closeRow)) (triples, matrix)

def fromCoo (sort : UnstableSort) (nrows ncols : ℕ) (triples : List Triple) : SparseMatrix :=
  (fillRows (List.range nrows) (sort.sort triples) (empty (nrows, ncols))).2

def start (row : ℕ) (matrix : SparseMatrix) : ℕ := matrix.indptr.getD row 0

def columns (row : ℕ) (matrix : SparseMatrix) : List ℕ :=
  slice matrix.indices (matrix.start row) (matrix.start (row + 1))

/-- The weight at a position, 0 if there is no entry. -/
def get (row col : ℕ) (matrix : SparseMatrix) : ℚ :=
  match binarySearch (matrix.columns row) col with
  | some k => matrix.data.getD (matrix.start row + k) 0
  | none => 0

/-- The loop over the entries of a row, by their positions. -/
def entries (row : ℕ) (matrix : SparseMatrix) : List (ℕ × ℚ) :=
  (List.range' (matrix.start row) (matrix.start (row + 1) - matrix.start row)).map fun p =>
    (matrix.indices.getD p 0, matrix.data.getD p 0)

def fuzzyUnion (mix weight opposite : ℚ) : ℚ :=
  mix * (weight + opposite - weight * opposite) + (1 - mix) * (weight * opposite)

/-- The triples that an entry gives: if the opposite weight reads as zero, the mirrored one too. -/
def symmetrizeEntry (mix : ℚ) (matrix : SparseMatrix) (row : ℕ) (entry : ℕ × ℚ) : List Triple :=
  let opposite := matrix.get entry.1 row
  let value := fuzzyUnion mix entry.2 opposite
  if value > 0 then
    ⟨row, entry.1, value⟩ :: if opposite = 0 then [⟨entry.1, row, value⟩] else []
  else []

/-- The triples of the fuzzy set union of a matrix and its transpose. -/
def symmetrizeTriples (mix : ℚ) (matrix : SparseMatrix) : List Triple :=
  (List.range matrix.shape.1).flatMap fun row =>
    (matrix.entries row).flatMap fun entry => symmetrizeEntry mix matrix row entry

def symmetrize (sort : UnstableSort) (mix : ℚ) (matrix : SparseMatrix) : SparseMatrix :=
  fromCoo sort matrix.shape.1 matrix.shape.2 (matrix.symmetrizeTriples mix)

def pruneRow (threshold : ℚ) (entries : List (ℕ × ℚ)) (matrix : SparseMatrix) : SparseMatrix :=
  (entries.foldl (fun matrix entry =>
    if entry.2 ≥ threshold then matrix.pushEntry entry.1 entry.2 else matrix) matrix).closeRow

def prune (threshold : ℚ) (matrix : SparseMatrix) : SparseMatrix :=
  (List.range matrix.shape.1).foldl (fun pruned row =>
    pruned.pruneRow threshold (matrix.entries row)) (empty matrix.shape)

/-! ## What a matrix is -/

/-- The CSR format: offsets from 0 to the number of entries, and increasing columns in each row. -/
structure IsCsr (matrix : SparseMatrix) : Prop where
  length : matrix.indptr.length = matrix.shape.1 + 1
  first : matrix.start 0 = 0
  monotone : ∀ row < matrix.shape.1, matrix.start row ≤ matrix.start (row + 1)
  last : matrix.start matrix.shape.1 = matrix.indices.length
  data : matrix.data.length = matrix.indices.length
  increasing : ∀ row < matrix.shape.1, (matrix.columns row).Pairwise (· < ·)

structure HasRows (matrix : SparseMatrix) (rows : List (List (ℕ × ℚ))) : Prop where
  indptr : matrix.indptr = rowOffsets rows
  indices : matrix.indices = rows.flatten.map Prod.fst
  data : matrix.data = rows.flatten.map Prod.snd

def Increasing (rows : List (List (ℕ × ℚ))) : Prop :=
  ∀ row ∈ rows, (row.map Prod.fst).Pairwise (· < ·)

variable {matrix : SparseMatrix} {rows : List (List (ℕ × ℚ))} {row : List (ℕ × ℚ)} {i j : ℕ}
  {weight : ℚ}

section

variable (h : matrix.HasRows rows)

include h

theorem HasRows.start (hi : i ≤ rows.length) : matrix.start i = rowOffset rows i := by
  rw [SparseMatrix.start, h.indptr, getD_rowOffsets hi]

theorem HasRows.start_pair (hrow : rows[i]? = some row) :
    matrix.start i = rowOffset rows i ∧ matrix.start (i + 1) = rowOffset rows (i + 1) := by
  obtain ⟨hi, -⟩ := List.getElem?_eq_some_iff.mp hrow
  exact ⟨h.start hi.le, h.start hi⟩

theorem HasRows.columns (hrow : rows[i]? = some row) : matrix.columns i = row.map Prod.fst := by
  obtain ⟨hstart, hstop⟩ := h.start_pair hrow
  rw [SparseMatrix.columns, hstart, hstop, h.indices, map_slice, slice_flatten hrow]

/-- The loop over a row goes through the entries of the row. -/
theorem HasRows.entries (hrow : rows[i]? = some row) : matrix.entries i = row := by
  obtain ⟨hstart, hstop⟩ := h.start_pair hrow
  have hpair : ∀ p, (matrix.indices.getD p 0, matrix.data.getD p 0) = rows.flatten.getD p (0, 0) := by
    intro p
    rw [h.indices, h.data, getD_eq_getElem?_getD, getD_eq_getElem?_getD,
      getD_eq_getElem?_getD, getElem?_map, getElem?_map]
    cases rows.flatten[p]? <;> rfl
  rw [SparseMatrix.entries, hstart, hstop, map_congr_left fun p _ => hpair p,
    map_range'_getD (0, 0) rowOffset_le_length, slice_flatten hrow]

theorem HasRows.get_of_mem (hrow : rows[i]? = some row)
    (hincreasing : (row.map Prod.fst).Pairwise (· < ·)) (hmem : (j, weight) ∈ row) :
    matrix.get i j = weight := by
  obtain ⟨k, hk⟩ := getElem?_of_mem hmem
  obtain ⟨hstart, -⟩ := h.start_pair hrow
  have hfound : binarySearch (matrix.columns i) j = some k := by
    rw [h.columns hrow, binarySearch_eq_some_iff hincreasing, getElem?_map, hk]
    rfl
  have hflat : rows.flatten[rowOffset rows i + k]? = some (j, weight) := by
    have hslice := slice_flatten hrow
    obtain ⟨hklt, -⟩ := List.getElem?_eq_some_iff.mp hk
    rw [← hslice, slice, getElem?_take, getElem?_drop] at hk
    rwa [if_pos (by rw [rowOffset_succ hrow]; omega)] at hk
  rw [SparseMatrix.get, hfound]
  dsimp only
  rw [hstart, h.data, getD_eq_getElem?_getD, getElem?_map, hflat]
  rfl

theorem HasRows.get_of_not_mem (hrow : rows[i]? = some row)
    (hmissing : ∀ weight, (j, weight) ∉ row) : matrix.get i j = 0 := by
  have hnone : binarySearch (matrix.columns i) j = none := by
    rw [Option.eq_none_iff_forall_ne_some]
    intro k hfound
    have hget := getElem?_of_binarySearchBetween hfound
    rw [h.columns hrow] at hget
    obtain ⟨entry, hentry, rfl⟩ := mem_map.mp (List.mem_of_getElem? hget)
    exact hmissing entry.2 hentry
  rw [SparseMatrix.get, hnone]

theorem HasRows.isCsr (hshape : matrix.shape.1 = rows.length) (hincreasing : Increasing rows) :
    matrix.IsCsr where
  length := by rw [h.indptr, length_rowOffsets, hshape]
  first := h.start (Nat.zero_le _)
  monotone i hi := by
    have hrow := getElem?_eq_getElem (hshape ▸ hi)
    obtain ⟨hstart, hstop⟩ := h.start_pair hrow
    rw [hstart, hstop, rowOffset_succ hrow]
    exact Nat.le_add_right _ _
  last := by rw [hshape, h.start le_rfl, rowOffset_length, h.indices, length_map]
  data := by rw [h.data, h.indices, length_map, length_map]
  increasing i hi := by
    have hrow := getElem?_eq_getElem (hshape ▸ hi)
    rw [h.columns hrow]
    exact hincreasing _ (List.mem_of_getElem? hrow)

/-! ## Building a matrix row by row -/

end

theorem hasRows_empty (shape : ℕ × ℕ) : (empty shape).HasRows [] := ⟨rfl, rfl, rfl⟩

def pushEntries (row : List (ℕ × ℚ)) (matrix : SparseMatrix) : SparseMatrix :=
  { matrix with
    indices := matrix.indices ++ row.map Prod.fst
    data := matrix.data ++ row.map Prod.snd }

@[simp] theorem pushEntries_nil : matrix.pushEntries [] = matrix := by
  rw [pushEntries, map_nil, map_nil, append_nil, append_nil]

theorem pushEntries_cons {entry : ℕ × ℚ} :
    matrix.pushEntries (entry :: row) = (matrix.pushEntry entry.1 entry.2).pushEntries row := by
  simp only [pushEntries, pushEntry, map_cons, append_assoc, singleton_append]

theorem HasRows.closeRow (h : matrix.HasRows rows) (row : List (ℕ × ℚ)) :
    (matrix.pushEntries row).closeRow.HasRows (rows ++ [row]) where
  indptr := by
    change matrix.indptr ++ [(matrix.indices ++ row.map Prod.fst).length] = _
    rw [rowOffsets_concat, h.indptr, h.indices, length_append, length_map, length_map]
  indices := by
    change matrix.indices ++ row.map Prod.fst = _
    rw [h.indices, flatten_append, flatten_singleton, map_append]
  data := by
    change matrix.data ++ row.map Prod.snd = _
    rw [h.data, flatten_append, flatten_singleton, map_append]

/-! ## From triples -/

def listed (triples : List Triple) (row col : ℕ) : List ℚ :=
  (triples.filter fun triple => triple.row = row ∧ triple.col = col).map Triple.weight

/-- The triples of a position. -/
def isAt (row col : ℕ) (triple : Triple) : Bool := triple.row = row ∧ triple.col = col

/-- Triples are sorted, and none is in front of a position. -/
structure SortedFrom (row col : ℕ) (triples : List Triple) : Prop where
  sorted : triples.Pairwise Triple.KeyLe
  from_le : ∀ triple ∈ triples, row < triple.row ∨ triple.row = row ∧ col ≤ triple.col

variable {triples : List Triple} {triple : Triple} {r c : ℕ}

theorem SortedFrom.tail (h : SortedFrom r c (triple :: triples)) : SortedFrom r c triples :=
  ⟨(pairwise_cons.mp h.sorted).2, fun t ht => h.from_le t (mem_cons_of_mem _ ht)⟩

/-- The triples of the first position are in front. -/
theorem SortedFrom.not_isAt (h : SortedFrom r c (triple :: triples)) (hne : isAt r c triple = false) :
    ∀ t ∈ triple :: triples, isAt r c t = false := by
  obtain ⟨hall, -⟩ := pairwise_cons.mp h.sorted
  have hfirst := h.from_le triple mem_cons_self
  simp only [isAt, decide_eq_false_iff_not] at hne ⊢
  intro t ht
  rcases mem_cons.mp ht with rfl | ht
  · exact hne
  · rcases hall t ht with hrow | ⟨hrow, hcol⟩ <;> omega

theorem SortedFrom.takeWhile_eq (h : SortedFrom r c triples) :
    triples.takeWhile (isAt r c) = triples.filter (isAt r c) := by
  induction triples with
  | nil => rfl
  | cons triple triples ih =>
    cases hat : isAt r c triple with
    | true => rw [takeWhile_cons_of_pos hat, filter_cons_of_pos hat, ih h.tail]
    | false =>
      rw [takeWhile_cons_of_neg (by rw [hat]; exact Bool.false_ne_true), eq_comm, filter_eq_nil_iff]
      intro t ht
      rw [h.not_isAt hat t ht]
      exact Bool.false_ne_true

theorem SortedFrom.dropWhile_eq (h : SortedFrom r c triples) :
    triples.dropWhile (isAt r c) = triples.filter fun t => !isAt r c t := by
  induction triples with
  | nil => rfl
  | cons triple triples ih =>
    cases hat : isAt r c triple with
    | true =>
      rw [dropWhile_cons_of_pos hat, filter_cons_of_neg (by simp [hat]), ih h.tail]
    | false =>
      rw [dropWhile_cons_of_neg (by rw [hat]; exact Bool.false_ne_true), eq_comm, filter_eq_self]
      intro t ht
      rw [h.not_isAt hat t ht]
      rfl

theorem mergeRun_eq :
    mergeRun r c weight triples =
      (((triples.takeWhile (isAt r c)).map Triple.weight).foldl max weight,
        triples.dropWhile (isAt r c)) := by
  induction triples generalizing weight with
  | nil => rfl
  | cons triple triples ih =>
    rw [mergeRun]
    split_ifs with hat
    · have hat : isAt r c triple = true := decide_eq_true hat
      rw [ih, takeWhile_cons_of_pos hat, dropWhile_cons_of_pos hat]
      rfl
    · have hat : ¬ isAt r c triple = true := by simpa [isAt] using hat
      rw [takeWhile_cons_of_neg hat, dropWhile_cons_of_neg hat]
      rfl

/-- A run is merged to the largest of its weights, and taken away. -/
theorem mergeRun_of_sorted (h : SortedFrom triple.row triple.col triples) :
    (listed (triple :: triples) triple.row triple.col).max? =
        some (mergeRun triple.row triple.col triple.weight triples).1 ∧
      (mergeRun triple.row triple.col triple.weight triples).2 =
        triples.filter fun t => !isAt triple.row triple.col t := by
  rw [mergeRun_eq, h.takeWhile_eq, h.dropWhile_eq]
  refine ⟨?_, rfl⟩
  have hlisted : listed (triple :: triples) triple.row triple.col =
      triple.weight :: (triples.filter (isAt triple.row triple.col)).map Triple.weight := by
    rw [listed, filter_cons_of_pos (by simp)]
    rfl
  rw [hlisted]
  rfl

/-- What a row is filled with: increasing columns, with the largest of the weights listed for a
position. -/
structure IsRow (triples : List Triple) (i : ℕ) (row : List (ℕ × ℚ)) : Prop where
  increasing : (row.map Prod.fst).Pairwise (· < ·)
  weight : ∀ j weight, (j, weight) ∈ row ↔ (listed triples i j).max? = some weight

theorem listed_filter_of_ne (hne : j ≠ c) :
    listed (triples.filter fun t => !isAt r c t) r j = listed triples r j := by
  unfold listed
  rw [filter_filter]
  congr 2
  funext t
  by_cases hat : t.row = r ∧ t.col = j
  · simp [isAt, hat, hne]
  · simp [hat]

theorem listed_cons_of_ne (h : ¬ (triple.row = i ∧ triple.col = j)) :
    listed (triple :: triples) i j = listed triples i j := by
  rw [listed, filter_cons_of_neg (by simpa using h)]
  rfl

theorem fillRow_of_sorted (h : SortedFrom i 0 triples) (matrix : SparseMatrix) :
    ∃ row, fillRow i triples matrix =
        (triples.filter fun t => t.row ≠ i, matrix.pushEntries row) ∧ IsRow triples i row := by
  induction hlength : triples.length using Nat.strong_induction_on generalizing triples matrix with
  | _ length ih =>
  cases triples with
  | nil =>
    refine ⟨[], ?_, List.Pairwise.nil, fun j weight => ?_⟩
    · rw [fillRow, pushEntries_nil]
      rfl
    · exact iff_of_false not_mem_nil (by simp [listed])
  | cons triple triples =>
    obtain ⟨hall, hsorted⟩ := pairwise_cons.mp h.sorted
    rw [fillRow]
    split_ifs with hrow
    · -- the run of the first column is merged
      subst hrow
      have hfrom : SortedFrom triple.row triple.col triples := by
        refine ⟨hsorted, fun t ht => ?_⟩
        rcases hall t ht with hlt | ⟨heq, hle⟩
        · exact .inl hlt
        · exact .inr ⟨heq.symm, hle⟩
      obtain ⟨hmax, hrest⟩ := mergeRun_of_sorted hfrom
      have hnext : SortedFrom triple.row 0 (triples.filter fun t =>
          !isAt triple.row triple.col t) :=
        ⟨hsorted.sublist filter_sublist, fun t ht => h.tail.from_le t (mem_of_mem_filter ht)⟩
      have hshorter : (triples.filter fun t => !isAt triple.row triple.col t).length < length := by
        rw [← hlength, length_cons]
        exact Nat.lt_succ_of_le (length_filter_le _ _)
      dsimp only
      rw [hrest]
      obtain ⟨row, hfill, hincreasing, hweight⟩ := ih _ hshorter hnext
        (matrix.pushEntry triple.col (mergeRun triple.row triple.col triple.weight triples).1) rfl
      have hlater : ∀ j weight, (j, weight) ∈ row → triple.col < j := by
        intro j weight hmem
        have hlisted := (hweight j weight).mp hmem
        obtain ⟨t, ht, -⟩ := mem_map.mp (max?_mem hlisted)
        obtain ⟨ht, hat⟩ := mem_filter.mp ht
        obtain ⟨ht, hnot⟩ := mem_filter.mp ht
        have hle := hfrom.from_le t ht
        simp only [isAt, Bool.not_eq_true', decide_eq_false_iff_not] at hnot
        have hat := of_decide_eq_true hat
        omega
      refine ⟨(triple.col, (mergeRun triple.row triple.col triple.weight triples).1) :: row,
        ?_, ?_, ?_⟩
      · rw [hfill, pushEntries_cons, filter_cons_of_neg (by simp), filter_filter]
        congr 2
        funext t
        by_cases ht : t.row = triple.row <;> simp [isAt, ht]
      · rw [map_cons, pairwise_cons]
        refine ⟨fun j hj => ?_, hincreasing⟩
        obtain ⟨entry, hentry, rfl⟩ := mem_map.mp hj
        exact hlater entry.1 entry.2 hentry
      · intro j weight
        by_cases hj : j = triple.col
        · subst hj
          rw [hmax, Option.some.injEq]
          constructor
          · intro hmem
            rcases mem_cons.mp hmem with heq | hmem
            · exact (congrArg Prod.snd heq).symm
            · exact absurd (hlater _ _ hmem) (lt_irrefl _)
          · rintro rfl
            exact mem_cons_self
        · rw [listed_cons_of_ne (fun hat => hj hat.2.symm), ← listed_filter_of_ne hj, ← hweight]
          refine ⟨fun hmem => ?_, mem_cons_of_mem _⟩
          rcases mem_cons.mp hmem with heq | hmem
          · exact absurd (congrArg Prod.fst heq) hj
          · exact hmem
    · -- all triples are behind the row
      have hbehind : ∀ t ∈ triple :: triples, t.row ≠ i := by
        intro t ht
        have hfirst := h.from_le triple mem_cons_self
        rcases mem_cons.mp ht with rfl | ht
        · exact hrow
        · rcases hall t ht with hlt | ⟨heq, -⟩ <;> omega
      refine ⟨[], ?_, List.Pairwise.nil, fun j weight => ?_⟩
      · rw [pushEntries_nil, filter_eq_self.mpr fun t ht => decide_eq_true (hbehind t ht)]
      · have hnone : listed (triple :: triples) i j = [] := by
          rw [listed, map_eq_nil_iff, filter_eq_nil_iff]
          intro t ht hat
          exact hbehind t ht (of_decide_eq_true hat).1
        rw [hnone]
        exact iff_of_false not_mem_nil (by simp)

theorem listed_filter_of_le {n : ℕ} (h : n ≤ i) :
    listed (triples.filter fun t => n ≤ t.row) i j = listed triples i j := by
  unfold listed
  rw [filter_filter]
  congr 2
  funext t
  by_cases hat : t.row = i ∧ t.col = j
  · simp [hat, h]
  · simp [hat]

theorem fillRows_range (hsorted : triples.Pairwise Triple.KeyLe) (shape : ℕ × ℕ) (n : ℕ) :
    ∃ matrix rows, fillRows (List.range n) triples (empty shape) =
        (triples.filter fun t => n ≤ t.row, matrix) ∧
      matrix.HasRows rows ∧ matrix.shape = shape ∧ rows.length = n ∧
      ∀ i row, rows[i]? = some row → IsRow triples i row := by
  induction n with
  | zero =>
    refine ⟨empty shape, [], ?_, hasRows_empty shape, rfl, rfl, fun i row hrow => ?_⟩
    · exact Prod.ext (filter_eq_self.mpr fun _ _ => rfl).symm rfl
    · exact absurd hrow (by simp)
  | succ n ih =>
    obtain ⟨matrix, rows, hfill, hrows, hshape, hlength, hisRow⟩ := ih
    have hfrom : SortedFrom n 0 (triples.filter fun t => n ≤ t.row) := by
      refine ⟨hsorted.sublist filter_sublist, fun t ht => ?_⟩
      have hle := of_decide_eq_true (mem_filter.mp ht).2
      omega
    obtain ⟨row, hrow, hnew⟩ := fillRow_of_sorted hfrom matrix
    have hnew : IsRow triples n row :=
      ⟨hnew.increasing, fun j weight => by rw [hnew.weight, listed_filter_of_le le_rfl]⟩
    refine ⟨(matrix.pushEntries row).closeRow, rows ++ [row], ?_, hrows.closeRow row, hshape, ?_, ?_⟩
    · rw [fillRows, range_succ, foldl_concat]
      change ((fillRow n (fillRows (List.range n) triples (empty shape)).1
          (fillRows (List.range n) triples (empty shape)).2).1,
        (fillRow n (fillRows (List.range n) triples (empty shape)).1
          (fillRows (List.range n) triples (empty shape)).2).2.closeRow) = _
      rw [hfill]
      dsimp only
      rw [hrow, filter_filter]
      refine Prod.ext (filter_congr fun t _ => ?_) rfl
      by_cases ht : t.row = n
      · simp [ht]
      · have hiff : (n ≤ t.row) ↔ (n + 1 ≤ t.row) := by omega
        simp [ht, hiff]
    · rw [length_append, hlength]
      rfl
    · intro i found hfound
      rcases Nat.lt_trichotomy i rows.length with hlt | heq | hgt
      · exact hisRow i found (by rwa [getElem?_append_left hlt] at hfound)
      · rw [heq, getElem?_concat_length] at hfound
        rw [heq, hlength, ← Option.some.inj hfound]
        exact hnew
      · rw [getElem?_eq_none (by rw [length_append]; exact hgt)] at hfound
        exact absurd hfound (Option.some_ne_none _).symm

/-- The largest of some weights does not depend on their order. -/
theorem max?_eq_of_perm {weights weights' : List ℚ} (h : weights.Perm weights') :
    weights.max? = weights'.max? := by
  apply Option.ext
  intro weight
  simp only [max?_eq_some_iff, h.mem_iff]

theorem fromCoo_rows (sort : UnstableSort) (nrows ncols : ℕ) (triples : List Triple) :
    ∃ rows, (fromCoo sort nrows ncols triples).HasRows rows ∧
      (fromCoo sort nrows ncols triples).shape = (nrows, ncols) ∧ rows.length = nrows ∧
      ∀ i row, rows[i]? = some row → IsRow triples i row := by
  obtain ⟨matrix, rows, hfill, hrows, hshape, hlength, hisRow⟩ :=
    fillRows_range (sort.sorted triples) (nrows, ncols) nrows
  have hmatrix : fromCoo sort nrows ncols triples = matrix := congrArg Prod.snd hfill
  rw [hmatrix]
  refine ⟨rows, hrows, hshape, hlength, fun i row hrow => ?_⟩
  have hperm : ∀ j, (listed (sort.sort triples) i j).Perm (listed triples i j) :=
    fun j => ((sort.perm triples).filter _).map _
  refine ⟨(hisRow i row hrow).increasing, fun j weight => ?_⟩
  rw [(hisRow i row hrow).weight, max?_eq_of_perm (hperm j)]

theorem HasRows.increasing_of_isRow (hisRow : ∀ i row, rows[i]? = some row → IsRow triples i row) :
    Increasing rows := by
  intro row hmem
  obtain ⟨i, hi⟩ := getElem?_of_mem hmem
  exact (hisRow i row hi).increasing

/-- A row is read by the largest weights. -/
theorem HasRows.get_of_isRow (h : matrix.HasRows rows) (hrow : rows[i]? = some row)
    (hisRow : IsRow triples i row) : matrix.get i j = (listed triples i j).max?.getD 0 := by
  cases hmax : (listed triples i j).max? with
  | none =>
    refine h.get_of_not_mem hrow fun weight hmem => ?_
    rw [hisRow.weight, hmax] at hmem
    exact absurd hmem (Option.some_ne_none _).symm
  | some weight => exact h.get_of_mem hrow hisRow.increasing ((hisRow.weight j weight).mpr hmax)

theorem get_fromCoo (sort : UnstableSort) {nrows ncols : ℕ} (triples : List Triple)
    (hi : i < nrows) (j : ℕ) :
    (fromCoo sort nrows ncols triples).get i j = (listed triples i j).max?.getD 0 := by
  obtain ⟨rows, hrows, -, hlength, hisRow⟩ := fromCoo_rows sort nrows ncols triples
  have hrow := getElem?_eq_getElem (hlength ▸ hi)
  exact hrows.get_of_isRow hrow (hisRow i _ hrow)

end SparseMatrix

end DashQL.Umap
