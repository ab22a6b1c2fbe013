import DashQL.Umap.SparseMatrix

/-!
# Fuzzy set union and pruning

`symmetrize` walks the stored entries only.  Every triple that it lists has the value of the dense
formula at its position, which is the same at the opposite position (`weight_of_mem`), and a position
at which the formula is positive is listed by one of the two entries (`exists_mem_of_pos`).  So the
largest weight that is listed is the value of the formula.
-/

namespace DashQL.Umap

open List

namespace SparseMatrix

variable {matrix : SparseMatrix} {rows : List (List (ℕ × ℚ))} {n i j : ℕ}

/-! ## The formula -/

theorem fuzzyUnion_comm (mix weight opposite : ℚ) :
    fuzzyUnion mix weight opposite = fuzzyUnion mix opposite weight := by
  unfold fuzzyUnion
  ring

theorem fuzzyUnion_zero (mix : ℚ) : fuzzyUnion mix 0 0 = 0 := by
  unfold fuzzyUnion
  ring

/-- Weights are between 0 and 1. -/
def IsWeight (weight : ℚ) : Prop := 0 ≤ weight ∧ weight ≤ 1

theorem fuzzyUnion_nonneg {mix weight opposite : ℚ} (hmix : IsWeight mix) (hweight : IsWeight weight)
    (hopposite : IsWeight opposite) : 0 ≤ fuzzyUnion mix weight opposite := by
  have hproduct : 0 ≤ weight * opposite := mul_nonneg hweight.1 hopposite.1
  have hrest : 0 ≤ opposite * (1 - weight) :=
    mul_nonneg hopposite.1 (sub_nonneg.mpr hweight.2)
  have hsum : 0 ≤ weight + opposite - weight * opposite := by
    calc (0 : ℚ) ≤ weight + opposite * (1 - weight) := add_nonneg hweight.1 hrest
      _ = weight + opposite - weight * opposite := by ring
  exact add_nonneg (mul_nonneg hmix.1 hsum) (mul_nonneg (sub_nonneg.mpr hmix.2) hproduct)

/-! ## Square matrices -/

structure Square (matrix : SparseMatrix) (n : ℕ) (rows : List (List (ℕ × ℚ))) : Prop where
  hasRows : matrix.HasRows rows
  shape : matrix.shape = (n, n)
  length : rows.length = n
  increasing : Increasing rows
  within : ∀ row ∈ rows, ∀ entry ∈ row, entry.1 < n

section

variable (h : matrix.Square n rows)

include h

theorem Square.isCsr : matrix.IsCsr :=
  h.hasRows.isCsr (by rw [h.shape, h.length]) h.increasing

theorem Square.exists_row (hi : i < n) : ∃ row, rows[i]? = some row :=
  ⟨_, getElem?_eq_getElem (h.length ▸ hi)⟩

theorem Square.entries (hi : i < n) : rows[i]? = some (matrix.entries i) := by
  obtain ⟨row, hrow⟩ := h.exists_row hi
  rw [h.hasRows.entries hrow, hrow]

/-- An entry is read at its position. -/
theorem Square.get_of_mem (hi : i < n) {entry : ℕ × ℚ} (hentry : entry ∈ matrix.entries i) :
    matrix.get i entry.1 = entry.2 ∧ entry.1 < n := by
  have hrow := h.entries hi
  have hmem := List.mem_of_getElem? hrow
  exact ⟨h.hasRows.get_of_mem hrow (h.increasing _ hmem) hentry, h.within _ hmem entry hentry⟩

/-- Where something else than zero is read, there is an entry. -/
theorem Square.mem_of_get (hi : i < n) (hne : matrix.get i j ≠ 0) :
    (j, matrix.get i j) ∈ matrix.entries i := by
  have hrow := h.entries hi
  by_contra hmissing
  refine hne (h.hasRows.get_of_not_mem hrow fun weight hmem => hmissing ?_)
  have hread : matrix.get i j = weight := (h.get_of_mem hi hmem).1
  rwa [hread]

/-! ## Symmetrize -/

end

section Symmetrize

variable {mix : ℚ} {triple : Triple}

/-- The value of the formula at a position. -/
def unionAt (mix : ℚ) (matrix : SparseMatrix) (i j : ℕ) : ℚ :=
  fuzzyUnion mix (matrix.get i j) (matrix.get j i)

theorem unionAt_comm (mix : ℚ) (matrix : SparseMatrix) (i j : ℕ) :
    matrix.unionAt mix i j = matrix.unionAt mix j i :=
  fuzzyUnion_comm ..

section

variable (h : matrix.Square n rows)

include h

theorem mem_symmetrizeTriples :
    triple ∈ matrix.symmetrizeTriples mix ↔
      ∃ i < n, ∃ entry ∈ matrix.entries i, triple ∈ symmetrizeEntry mix matrix i entry := by
  rw [symmetrizeTriples, h.shape]
  simp only [mem_flatMap, mem_range]

/-- What an entry gives: if the formula is positive, a triple for its position, and one for the
opposite position where nothing is read. -/
theorem mem_symmetrizeEntry (hi : i < n) {entry : ℕ × ℚ} (hentry : entry ∈ matrix.entries i) :
    triple ∈ symmetrizeEntry mix matrix i entry ↔
      0 < matrix.unionAt mix i entry.1 ∧ triple.weight = matrix.unionAt mix i entry.1 ∧
        (triple.row = i ∧ triple.col = entry.1 ∨
          matrix.get entry.1 i = 0 ∧ triple.row = entry.1 ∧ triple.col = i) := by
  have hvalue : fuzzyUnion mix entry.2 (matrix.get entry.1 i) = matrix.unionAt mix i entry.1 := by
    rw [unionAt, (h.get_of_mem hi hentry).1]
  obtain ⟨row, col, weight⟩ := triple
  unfold symmetrizeEntry
  dsimp only
  rw [hvalue]
  split_ifs with hpos hzero
  · simp only [mem_cons, not_mem_nil, or_false, Triple.mk.injEq]
    tauto
  · simp only [mem_cons, not_mem_nil, or_false, Triple.mk.injEq]
    tauto
  · exact iff_of_false not_mem_nil fun hall => hpos hall.1

/-- Every triple has the positive value of the formula at its position. -/
theorem weight_of_mem (hmem : triple ∈ matrix.symmetrizeTriples mix) :
    triple.weight = matrix.unionAt mix triple.row triple.col ∧ 0 < triple.weight ∧
      triple.row < n ∧ triple.col < n := by
  obtain ⟨i, hi, entry, hentry, hmem⟩ := (mem_symmetrizeTriples h).mp hmem
  obtain ⟨hpos, hweight, hplace⟩ := (mem_symmetrizeEntry h hi hentry).mp hmem
  have hcol := (h.get_of_mem hi hentry).2
  rw [hweight]
  rcases hplace with ⟨hrow, hcol'⟩ | ⟨-, hrow, hcol'⟩
  · rw [hrow, hcol']
    exact ⟨rfl, hpos, hi, hcol⟩
  · rw [hrow, hcol']
    exact ⟨unionAt_comm .., hpos, hcol, hi⟩

/-- Where the formula is positive, a triple is listed. -/
theorem exists_mem_of_pos (hi : i < n) (hj : j < n) (hpos : 0 < matrix.unionAt mix i j) :
    ∃ triple ∈ matrix.symmetrizeTriples mix, triple.row = i ∧ triple.col = j := by
  by_cases hstored : matrix.get i j = 0
  · -- the opposite entry is the one that is stored
    have hopposite : matrix.get j i ≠ 0 := by
      intro hzero
      rw [unionAt, hstored, hzero, fuzzyUnion_zero] at hpos
      exact lt_irrefl _ hpos
    have hentry := h.mem_of_get hj hopposite
    have htriple : (⟨i, j, matrix.unionAt mix j i⟩ : Triple) ∈
        symmetrizeEntry mix matrix j (i, matrix.get j i) :=
      (mem_symmetrizeEntry h hj hentry).mpr
        ⟨unionAt_comm mix matrix i j ▸ hpos, rfl, .inr ⟨hstored, rfl, rfl⟩⟩
    exact ⟨_, (mem_symmetrizeTriples h).mpr ⟨j, hj, _, hentry, htriple⟩, rfl, rfl⟩
  · have hentry := h.mem_of_get hi hstored
    have htriple : (⟨i, j, matrix.unionAt mix i j⟩ : Triple) ∈
        symmetrizeEntry mix matrix i (j, matrix.get i j) :=
      (mem_symmetrizeEntry h hi hentry).mpr ⟨hpos, rfl, .inl ⟨rfl, rfl⟩⟩
    exact ⟨_, (mem_symmetrizeTriples h).mpr ⟨i, hi, _, hentry, htriple⟩, rfl, rfl⟩

/-- The largest weight that is listed for a position is the value of the formula. -/
theorem max?_listed_symmetrize (hi : i < n) (hj : j < n) (hnonneg : 0 ≤ matrix.unionAt mix i j) :
    (listed (matrix.symmetrizeTriples mix) i j).max?.getD 0 = matrix.unionAt mix i j := by
  have hall : ∀ weight ∈ listed (matrix.symmetrizeTriples mix) i j,
      weight = matrix.unionAt mix i j ∧ 0 < weight := by
    intro weight hweight
    obtain ⟨triple, htriple, rfl⟩ := mem_map.mp hweight
    obtain ⟨hmem, hat⟩ := mem_filter.mp htriple
    obtain ⟨hrow, hcol⟩ := of_decide_eq_true hat
    obtain ⟨hvalue, hpos, -⟩ := weight_of_mem h hmem
    rw [← hrow, ← hcol]
    exact ⟨hvalue, hpos⟩
  rcases hnonneg.lt_or_eq with hpos | hzero
  · obtain ⟨triple, hmem, hrow, hcol⟩ := exists_mem_of_pos h hi hj hpos
    have hlisted : triple.weight ∈ listed (matrix.symmetrizeTriples mix) i j :=
      mem_map_of_mem (mem_filter.mpr ⟨hmem, decide_eq_true ⟨hrow, hcol⟩⟩)
    have hmax : (listed (matrix.symmetrizeTriples mix) i j).max? =
        some (matrix.unionAt mix i j) := by
      refine max?_eq_some_iff.mpr ⟨(hall _ hlisted).1 ▸ hlisted, fun weight hweight => ?_⟩
      exact (hall weight hweight).1.le
    rw [hmax]
    rfl
  · have hnone : listed (matrix.symmetrizeTriples mix) i j = [] := by
      rw [eq_nil_iff_forall_not_mem]
      intro weight hweight
      obtain ⟨hvalue, hpos⟩ := hall weight hweight
      rw [hvalue, ← hzero] at hpos
      exact lt_irrefl _ hpos
    rw [hnone, ← hzero]
    rfl

end

end Symmetrize

/-! ## Prune -/

section Prune

variable {threshold : ℚ}

/-- A matrix has exactly the entries of another one that are not below a threshold: in each row they
are stored, and they are read, and zero elsewhere. -/
structure PrunedFrom (matrix : SparseMatrix) (threshold : ℚ) (pruned : SparseMatrix) : Prop where
  isCsr : pruned.IsCsr
  shape : pruned.shape = matrix.shape
  entries : ∀ row < matrix.shape.1,
    pruned.entries row = (matrix.entries row).filter fun entry => threshold ≤ entry.2
  get : ∀ row < matrix.shape.1, ∀ col,
    pruned.get row col = if threshold ≤ matrix.get row col then matrix.get row col else 0

theorem pruneRow_eq (entries : List (ℕ × ℚ)) (matrix : SparseMatrix) :
    matrix.pruneRow threshold entries =
      (matrix.pushEntries (entries.filter fun entry => threshold ≤ entry.2)).closeRow := by
  unfold pruneRow
  congr 1
  induction entries generalizing matrix with
  | nil => exact pushEntries_nil.symm
  | cons entry entries ih =>
    rw [foldl_cons, ih]
    split_ifs with hkept
    · have hkept' : decide (threshold ≤ entry.2) = true := decide_eq_true hkept
      simp only [filter_cons, hkept', if_true, pushEntries_cons]
    · have hdropped : decide (threshold ≤ entry.2) = false := decide_eq_false hkept
      simp only [filter_cons, hdropped, Bool.false_eq_true, if_false]

theorem hasRows_prune (threshold : ℚ) (h : matrix.Square n rows) (count : ℕ) (hcount : count ≤ n) :
    ((List.range count).foldl (fun pruned row =>
      pruned.pruneRow threshold (matrix.entries row)) (empty matrix.shape)).HasRows
        ((rows.take count).map fun row => row.filter fun entry => threshold ≤ entry.2) ∧
    ((List.range count).foldl (fun pruned row =>
      pruned.pruneRow threshold (matrix.entries row)) (empty matrix.shape)).shape = matrix.shape := by
  induction count with
  | zero => exact ⟨hasRows_empty matrix.shape, rfl⟩
  | succ count ih =>
    obtain ⟨hrows, hshape⟩ := ih (Nat.le_of_succ_le hcount)
    obtain ⟨hlt, hrow⟩ := List.getElem?_eq_some_iff.mp (h.entries (Nat.lt_of_succ_le hcount))
    rw [range_succ, foldl_concat, pruneRow_eq, take_succ_eq_append_getElem hlt, hrow, map_append]
    exact ⟨hrows.closeRow _, hshape⟩

theorem square_prune (threshold : ℚ) (h : matrix.Square n rows) :
    (matrix.prune threshold).Square n
      (rows.map fun row => row.filter fun entry => threshold ≤ entry.2) := by
  obtain ⟨hrows, hshape⟩ := hasRows_prune threshold h n le_rfl
  rw [take_of_length_le h.length.le] at hrows
  have hprune : matrix.prune threshold =
      (List.range n).foldl (fun pruned row =>
        pruned.pruneRow threshold (matrix.entries row)) (empty matrix.shape) := by
    rw [prune, h.shape]
  refine ⟨hprune ▸ hrows, hprune ▸ hshape.trans h.shape, ?_, ?_, ?_⟩
  · rw [length_map, h.length]
  · intro row hrow
    obtain ⟨old, hold, rfl⟩ := mem_map.mp hrow
    exact (h.increasing old hold).sublist (filter_sublist.map _)
  · intro row hrow entry hentry
    obtain ⟨old, hold, rfl⟩ := mem_map.mp hrow
    exact h.within old hold entry (mem_of_mem_filter hentry)

theorem prunedFrom_prune (h : matrix.Square n rows) (hpos : 0 < threshold) :
    matrix.PrunedFrom threshold (matrix.prune threshold) := by
  have hpruned := square_prune threshold h
  have hentries : ∀ i < n, (matrix.prune threshold).entries i =
      (matrix.entries i).filter fun entry => threshold ≤ entry.2 := by
    intro i hi
    have hrow := hpruned.entries hi
    rw [getElem?_map, h.entries hi, Option.map_some] at hrow
    exact (Option.some.inj hrow).symm
  refine ⟨hpruned.isCsr, hpruned.shape.trans h.shape.symm, ?_, ?_⟩
  · rw [h.shape]
    exact hentries
  · rw [h.shape]
    intro i hi j
    split_ifs with hkept
    · have hne : matrix.get i j ≠ 0 := (hpos.trans_le hkept).ne'
      have hmem : (j, matrix.get i j) ∈ (matrix.prune threshold).entries i := by
        rw [hentries i hi]
        exact mem_filter.mpr ⟨h.mem_of_get hi hne, decide_eq_true hkept⟩
      exact (hpruned.get_of_mem hi hmem).1
    · by_contra hne
      have hmem := hpruned.mem_of_get hi hne
      rw [hentries i hi] at hmem
      obtain ⟨hmem, hle⟩ := mem_filter.mp hmem
      have hread := (h.get_of_mem hi hmem).1
      exact hkept (hread ▸ of_decide_eq_true hle)

end Prune

/-! ## From triples -/

section Triples

variable (sort : UnstableSort) {triples : List Triple}

/-- Triples within a square give a square matrix. -/
theorem square_fromCoo (hwithin : ∀ triple ∈ triples, triple.row < n ∧ triple.col < n) :
    ∃ rows, (fromCoo sort n n triples).Square n rows := by
  obtain ⟨rows, hrows, hshape, hlength, hisRow⟩ := fromCoo_rows sort n n triples
  refine ⟨rows, hrows, hshape, hlength, HasRows.increasing_of_isRow hisRow, ?_⟩
  intro row hrow entry hentry
  obtain ⟨i, hi⟩ := getElem?_of_mem hrow
  have hmax := ((hisRow i row hi).weight entry.1 entry.2).mp hentry
  obtain ⟨triple, htriple, -⟩ := mem_map.mp (max?_mem hmax)
  obtain ⟨hmem, hat⟩ := mem_filter.mp htriple
  exact (of_decide_eq_true hat).2 ▸ (hwithin triple hmem).2

theorem isWeight_get (hweights : ∀ triple ∈ triples, IsWeight triple.weight) (hi : i < n) (j : ℕ) :
    IsWeight ((fromCoo sort n n triples).get i j) := by
  rw [get_fromCoo sort triples hi]
  cases hmax : (listed triples i j).max? with
  | none => exact ⟨le_rfl, zero_le_one⟩
  | some weight =>
    obtain ⟨triple, htriple, rfl⟩ := mem_map.mp (max?_mem hmax)
    exact hweights triple (mem_of_mem_filter htriple)

/-- From triples of a square with weights between 0 and 1: the matrix reads the largest weight
listed for a position, its symmetrization reads the formula and is symmetric, and both are in CSR
format and are pruned to their entries that are not below a threshold. -/
theorem fromCoo_symmetrize_prune
    (hwithin : ∀ triple ∈ triples, triple.row < n ∧ triple.col < n)
    (hweights : ∀ triple ∈ triples, IsWeight triple.weight) {mix : ℚ} (hmix : IsWeight mix)
    {matrix union : SparseMatrix} (hmatrix : matrix = fromCoo sort n n triples)
    (hunion : union = matrix.symmetrize sort mix) :
    matrix.IsCsr ∧ union.IsCsr ∧
      (∀ i < n, ∀ j < n, matrix.get i j = (listed triples i j).max?.getD 0) ∧
      (∀ i < n, ∀ j < n, union.get i j =
        mix * (matrix.get i j + matrix.get j i - matrix.get i j * matrix.get j i) +
          (1 - mix) * (matrix.get i j * matrix.get j i)) ∧
      (∀ i < n, ∀ j < n, union.get i j = union.get j i) ∧
      ∀ threshold > 0, matrix.PrunedFrom threshold (matrix.prune threshold) ∧
        union.PrunedFrom threshold (union.prune threshold) := by
  subst hmatrix
  obtain ⟨rows, hsquare⟩ := square_fromCoo sort hwithin
  have hsymmetrize : union =
      fromCoo sort n n ((fromCoo sort n n triples).symmetrizeTriples mix) := by
    rw [hunion, symmetrize, hsquare.shape]
  have hwithin' : ∀ triple ∈ (fromCoo sort n n triples).symmetrizeTriples mix,
      triple.row < n ∧ triple.col < n := fun triple htriple => (weight_of_mem hsquare htriple).2.2
  obtain ⟨rows', hsquare'⟩ := square_fromCoo sort hwithin'
  rw [← hsymmetrize] at hsquare'
  have hget : ∀ i < n, ∀ j < n, union.get i j = (fromCoo sort n n triples).unionAt mix i j := by
    intro i hi j hj
    rw [hsymmetrize, get_fromCoo sort _ hi]
    refine max?_listed_symmetrize hsquare hi hj ?_
    exact fuzzyUnion_nonneg hmix (isWeight_get sort hweights hi j) (isWeight_get sort hweights hj i)
  refine ⟨hsquare.isCsr, hsquare'.isCsr, fun i hi j _ => get_fromCoo sort triples hi j, hget, ?_, ?_⟩
  · intro i hi j hj
    rw [hget i hi j hj, hget j hj i hi, unionAt_comm]
  · intro threshold hpos
    exact ⟨prunedFrom_prune hsquare hpos, prunedFrom_prune hsquare' hpos⟩

end Triples

/-- A weight that is listed twice, and zero in the other direction. -/
theorem symmetrize_one_edge :
    let triples : List Triple := [⟨0, 1, 1 / 2⟩, ⟨1, 0, 0⟩, ⟨0, 1, 1 / 4⟩]
    let matrix := fromCoo .stable 2 2 triples
    (matrix.symmetrize .stable (1 / 2)).get 1 0 =
      1 / 2 * (matrix.get 1 0 + matrix.get 0 1 - matrix.get 1 0 * matrix.get 0 1) +
        (1 - 1 / 2) * (matrix.get 1 0 * matrix.get 0 1) := by
  intro triples matrix
  have hwithin : ∀ triple ∈ triples, triple.row < 2 ∧ triple.col < 2 := by decide
  have hweights : ∀ triple ∈ triples, IsWeight triple.weight := by
    simp only [triples, IsWeight, forall_mem_cons]
    norm_num
  have hmix : IsWeight (1 / 2) := by
    unfold IsWeight
    norm_num
  have hall := fromCoo_symmetrize_prune .stable hwithin hweights hmix rfl rfl
  exact hall.2.2.2.1 1 (by decide) 0 (by decide)

end SparseMatrix

end DashQL.Umap
