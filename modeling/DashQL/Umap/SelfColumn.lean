import Mathlib

/-!
# The self column of a neighbor graph

Rows with and without the point itself, in any order, are brought into one shape: the point first,
then its nearest neighbors.  The neighbors of a row in the order by distance and index are the only
sorted list of its other entries, so the result depends on the rows as sets only, and the rows of a
result keep their neighbors.
-/

namespace DashQL.Umap

open List

structure KnnGraph (D : Type*) where
  nNeighbors : ℕ
  indices : List (List ℤ)
  distances : List (List D)
  length_eq : distances.length = indices.length
  indices_width : ∀ row ∈ indices, row.length = nNeighbors
  distances_width : ∀ row ∈ distances, row.length = nNeighbors

variable {D : Type*}

namespace KnnGraph

/-- The neighbors with their distances. -/
def rows (graph : KnnGraph D) : List (List (ℤ × D)) :=
  zipWith zip graph.indices graph.distances

def ofRows (nNeighbors : ℕ) (rows : List (List (ℤ × D)))
    (h : ∀ row ∈ rows, row.length = nNeighbors) : KnnGraph D where
  nNeighbors := nNeighbors
  indices := rows.map (map Prod.fst)
  distances := rows.map (map Prod.snd)
  length_eq := by rw [length_map, length_map]
  indices_width := by simpa using h
  distances_width := by simpa using h

@[simp] theorem rows_ofRows (nNeighbors : ℕ) (rows : List (List (ℤ × D)))
    (h : ∀ row ∈ rows, row.length = nNeighbors) : (ofRows nNeighbors rows h).rows = rows := by
  have hzip (row : List (ℤ × D)) : zip (row.map Prod.fst) (row.map Prod.snd) = row := by
    rw [← unzip_fst, ← unzip_snd, zip_unzip]
  simp [KnnGraph.rows, ofRows, zipWith_map, hzip]

end KnnGraph

/-! ## The code -/

/-- An entry of a row that is a neighbor other than the point. -/
def IsReal (i : ℕ) (entry : ℤ × D) : Prop := 0 ≤ entry.1 ∧ entry.1 ≠ i

instance (i : ℕ) : DecidablePred (IsReal (D := D) i) := fun _ => inferInstanceAs (Decidable (_ ∧ _))

/-- The largest number of neighbors that can be kept for every row. -/
def leastLength (perRow : List (List (ℤ × D))) : ℕ := ((perRow.map length).min?).getD 0

theorem leastLength_le {perRow : List (List (ℤ × D))} {row : List (ℤ × D)} (hrow : row ∈ perRow) :
    leastLength perRow ≤ row.length := by
  have hlength : row.length ∈ perRow.map length := mem_map_of_mem hrow
  unfold leastLength
  cases hmin : (perRow.map length).min? with
  | none => exact Nat.zero_le _
  | some m => exact (min?_eq_some_iff.mp hmin).2 _ hlength

theorem exists_leastLength {perRow : List (List (ℤ × D))} (h : perRow ≠ []) :
    ∃ row ∈ perRow, leastLength perRow = row.length := by
  unfold leastLength
  cases hmin : (perRow.map length).min? with
  | none => exact absurd (map_eq_nil_iff.mp (min?_eq_none_iff.mp hmin)) h
  | some m =>
    obtain ⟨row, hrow, hm⟩ := mem_map.mp (min?_eq_some_iff.mp hmin).1
    exact ⟨row, hrow, hm.symm⟩

theorem leastLength_map_take (perRow : List (List (ℤ × D))) :
    leastLength (perRow.map fun row => row.take (leastLength perRow)) = leastLength perRow := by
  rcases eq_or_ne perRow [] with rfl | hne
  · rfl
  · obtain ⟨kept, hkept, hleast⟩ := exists_leastLength
      (mt map_eq_nil_iff.mp hne : (perRow.map fun row => row.take (leastLength perRow)) ≠ [])
    obtain ⟨row, hrow, rfl⟩ := mem_map.mp hkept
    rw [hleast, length_take_of_le (leastLength_le hrow)]

/-- The rows that are written: the point itself and the neighbors that are kept. -/
def selfRows [Zero D] (perRow : List (List (ℤ × D))) : List (List (ℤ × D)) :=
  perRow.mapIdx fun i row => ((i : ℤ), 0) :: row.take (leastLength perRow)

theorem length_of_mem_selfRows [Zero D] {perRow : List (List (ℤ × D))} {row : List (ℤ × D)}
    (h : row ∈ selfRows perRow) : row.length = leastLength perRow + 1 := by
  obtain ⟨i, hi, rfl⟩ := mem_mapIdx.mp h
  rw [length_cons, length_take, Nat.min_eq_left (leastLength_le (getElem_mem hi))]

theorem selfRows_map_take [Zero D] (perRow : List (List (ℤ × D))) :
    selfRows (perRow.map fun row => row.take (leastLength perRow)) = selfRows perRow := by
  refine ext_getElem (by simp [selfRows]) fun i hi hi' => ?_
  simp [selfRows, leastLength_map_take, take_take]

variable [LinearOrder D]

/-- The order by distance and index. -/
def NeighborLe (a b : ℤ × D) : Prop := a.2 < b.2 ∨ a.2 = b.2 ∧ a.1 ≤ b.1

instance : DecidableRel (NeighborLe (D := D)) := fun _ _ => inferInstanceAs (Decidable (_ ∨ _))

def KnnGraph.perRow (graph : KnnGraph D) : List (List (ℤ × D)) :=
  graph.rows.mapIdx fun i row => (row.filter fun entry => IsReal i entry).insertionSort NeighborLe

def normalizeKnnSelfColumn [Zero D] (graph : KnnGraph D) : KnnGraph D :=
  .ofRows (leastLength graph.perRow + 1) (selfRows graph.perRow) fun _ => length_of_mem_selfRows

/-! ## Sorted rows -/

instance : Std.Total (NeighborLe (D := D)) where
  total a b := by
    unfold NeighborLe
    rcases lt_trichotomy a.2 b.2 with h | h | h
    · exact .inl (.inl h)
    · exact (le_total a.1 b.1).imp (fun h' => .inr ⟨h, h'⟩) fun h' => .inr ⟨h.symm, h'⟩
    · exact .inr (.inl h)

instance : IsTrans (ℤ × D) NeighborLe where
  trans a b c hab hbc := by
    unfold NeighborLe at *
    rcases hab with hab | ⟨hab, hab'⟩
    · rcases hbc with hbc | ⟨hbc, -⟩
      · exact .inl (hab.trans hbc)
      · exact .inl (hab.trans_eq hbc)
    · rcases hbc with hbc | ⟨hbc, hbc'⟩
      · exact .inl (hab.trans_lt hbc)
      · exact .inr ⟨hab.trans hbc, hab'.trans hbc'⟩

instance : Std.Antisymm (NeighborLe (D := D)) where
  antisymm a b hab hba := by
    unfold NeighborLe at *
    rcases hab with hab | ⟨hab, hab'⟩
    · rcases hba with hba | ⟨hba, -⟩
      · exact absurd hba hab.not_gt
      · exact absurd hba hab.ne'
    · rcases hba with hba | ⟨-, hba'⟩
      · exact absurd hab hba.ne'
      · exact Prod.ext (le_antisymm hab' hba') hab

/-- A row has one sorted form. -/
theorem insertionSort_eq_of_perm {row row' : List (ℤ × D)} (h : row.Perm row') :
    row.insertionSort NeighborLe = row'.insertionSort NeighborLe :=
  ((perm_insertionSort _ _).trans (h.trans (perm_insertionSort _ _).symm)).eq_of_pairwise'
    (pairwise_insertionSort _ _) (pairwise_insertionSort _ _)

/-- The rows of real neighbors depend on the order in no row. -/
theorem perRow_eq_of_perm {graph other : KnnGraph D} (h : Forall₂ Perm other.rows graph.rows) :
    other.perRow = graph.perRow := by
  refine ext_getElem ?_ fun i hi hi' => ?_
  · simp only [KnnGraph.perRow, length_mapIdx, h.length_eq]
  · simp only [KnnGraph.perRow, length_mapIdx] at hi hi'
    simp only [KnnGraph.perRow, getElem_mapIdx]
    exact insertionSort_eq_of_perm ((h.get hi hi').filter _)

/-- The real neighbors that are kept are the real neighbors of the result. -/
theorem perRow_normalize [Zero D] (graph : KnnGraph D) :
    (normalizeKnnSelfColumn graph).perRow =
      graph.perRow.map fun row => row.take (leastLength graph.perRow) := by
  set m := leastLength graph.perRow with hm
  refine ext_getElem ?_ fun i hi hi' => ?_
  · simp [KnnGraph.perRow, normalizeKnnSelfColumn, selfRows]
  · have hi : i < graph.rows.length := by simpa [KnnGraph.perRow] using hi'
    set kept := (graph.rows[i].filter fun entry => IsReal i entry).insertionSort NeighborLe
      with hkept
    have hreal (entry) (hentry : entry ∈ kept.take m) : IsReal i entry :=
      of_decide_eq_true (mem_filter.mp ((perm_insertionSort _ _).mem_iff.mp
        (mem_of_mem_take hentry))).2
    have hsorted : (kept.take m).Pairwise NeighborLe :=
      (pairwise_insertionSort NeighborLe _).sublist (take_sublist m kept)
    have hself : ¬ IsReal i ((i : ℤ), (0 : D)) := fun h => h.2 rfl
    have hrow : ((((i : ℤ), (0 : D)) :: kept.take m).filter fun entry => IsReal i entry) =
        kept.take m := by
      rw [filter_cons_of_neg (by simpa using hself)]
      exact filter_eq_self.mpr fun entry hentry => decide_eq_true (hreal entry hentry)
    have hresult : (normalizeKnnSelfColumn graph).perRow[i] =
        ((((i : ℤ), (0 : D)) :: kept.take m).filter fun entry => IsReal i entry).insertionSort
          NeighborLe := by
      simp [KnnGraph.perRow, normalizeKnnSelfColumn, selfRows, hkept, hm]
    rw [hresult, hrow, hsorted.insertionSort_eq, getElem_map]
    simp [KnnGraph.perRow, hkept]

theorem normalize_congr [Zero D] {graph other : KnnGraph D}
    (hleast : leastLength other.perRow = leastLength graph.perRow)
    (hrows : selfRows other.perRow = selfRows graph.perRow) :
    normalizeKnnSelfColumn other = normalizeKnnSelfColumn graph := by
  simp only [normalizeKnnSelfColumn, hleast, hrows]

/-! ## The result -/

/-- What a caller promises of a graph: the points of the graph as neighbors, with the point itself
at most once in its own row. -/
structure KnnGraph.Contract (graph : KnnGraph D) : Prop where
  inRange : ∀ row ∈ graph.indices, ∀ idx ∈ row, 0 ≤ idx ∧ idx < graph.indices.length
  selfOnce : ∀ (i : ℕ) (row : List ℤ), graph.indices[i]? = some row → row.count (i : ℤ) ≤ 1

/-- The entries of a row other than the point itself. -/
def others (i : ℕ) (row : List (ℤ × D)) : List (ℤ × D) := row.filter fun entry => entry.1 ≠ i

theorem perRow_getElem? {graph : KnnGraph D} (contract : graph.Contract) {i : ℕ}
    {row : List (ℤ × D)} (hrow : graph.rows[i]? = some row) :
    graph.perRow[i]? = some ((others i row).insertionSort NeighborLe) := by
  have hnonneg (entry) (hentry : entry ∈ row) : 0 ≤ entry.1 := by
    obtain ⟨indices, hindices, distances, -, hzip⟩ :
        ∃ indices ∈ graph.indices, ∃ distances ∈ graph.distances, zip indices distances = row := by
      obtain ⟨indices, distances, hindices, hdistances, hzip⟩ := getElem?_zipWith_eq_some.mp hrow
      exact ⟨indices, mem_of_getElem? hindices, distances, mem_of_getElem? hdistances, hzip⟩
    subst hzip
    exact (contract.inRange indices hindices entry.1 (of_mem_zip hentry).1).1
  have hothers : (row.filter fun entry => IsReal i entry) = others i row :=
    filter_congr fun entry hentry => by simp [IsReal, hnonneg entry hentry]
  rw [KnnGraph.perRow, getElem?_mapIdx, hrow, Option.map_some, hothers]

/-- Every row becomes the point itself and, of one number for all rows, its nearest neighbors.  The
order of the rows' entries does not matter, and a second pass changes nothing. -/
theorem normalizeKnnSelfColumn_spec [Zero D] (graph : KnnGraph D) (contract : graph.Contract) :
    let result := normalizeKnnSelfColumn graph
    (∃ m, result.nNeighbors = m + 1 ∧ result.rows.length = graph.rows.length ∧
      (graph.rows ≠ [] → ∃ i row, graph.rows[i]? = some row ∧ m = (others i row).length) ∧
      ∀ i row, graph.rows[i]? = some row → m ≤ (others i row).length ∧
        ∃ sorted : List (ℤ × D), sorted.Perm (others i row) ∧ sorted.Pairwise NeighborLe ∧
          result.rows[i]? = some (((i : ℤ), 0) :: sorted.take m)) ∧
    (∀ other : KnnGraph D, Forall₂ Perm other.rows graph.rows →
      normalizeKnnSelfColumn other = result) ∧
    normalizeKnnSelfColumn result = result := by
  intro result
  have hlength : graph.perRow.length = graph.rows.length := by simp [KnnGraph.perRow]
  refine ⟨⟨leastLength graph.perRow, rfl, ?_, fun hrows => ?_, fun i row hrow => ?_⟩, ?_, ?_⟩
  · simp [result, normalizeKnnSelfColumn, selfRows, hlength]
  · -- the least number is that of some row
    obtain ⟨real, hreal, hm⟩ := exists_leastLength
      (ne_nil_of_length_pos (hlength ▸ length_pos_of_ne_nil hrows))
    obtain ⟨i, hi, rfl⟩ := getElem_of_mem hreal
    have hrow := getElem?_eq_getElem (hlength ▸ hi)
    refine ⟨i, _, hrow, hm.trans ?_⟩
    have hsorted := perRow_getElem? contract hrow
    rw [getElem?_eq_getElem hi, Option.some_inj] at hsorted
    rw [hsorted, length_insertionSort]
  · have hsorted := perRow_getElem? contract hrow
    refine ⟨?_, _, perm_insertionSort _ _, pairwise_insertionSort _ _, ?_⟩
    · rw [← length_insertionSort NeighborLe]
      exact leastLength_le (mem_of_getElem? hsorted)
    · simp [result, normalizeKnnSelfColumn, selfRows, hsorted]
  · intro other hother
    have hreal := perRow_eq_of_perm hother
    exact normalize_congr (by rw [hreal]) (by rw [hreal])
  · have hreal := perRow_normalize graph
    exact normalize_congr (by rw [hreal, leastLength_map_take]) (by rw [hreal, selfRows_map_take])

/-- Three points, of which one lists itself. -/
def threePoints : KnnGraph ℕ where
  nNeighbors := 2
  indices := [[1, 2], [2, 1], [0, 1]]
  distances := [[4, 2], [3, 0], [2, 2]]
  length_eq := rfl
  indices_width := by decide
  distances_width := by decide

theorem contract_threePoints : threePoints.Contract where
  inRange := by decide
  selfOnce i row hrow := by
    have hnodup : ∀ row ∈ threePoints.indices, row.Nodup := by decide
    exact nodup_iff_count_le_one.mp (hnodup row (mem_of_getElem? hrow)) i

theorem normalizeKnnSelfColumn_threePoints :
    (normalizeKnnSelfColumn threePoints).rows = [[(0, 0), (2, 2)], [(1, 0), (2, 3)],
      [(2, 0), (0, 2)]] ∧
    normalizeKnnSelfColumn (normalizeKnnSelfColumn threePoints) =
      normalizeKnnSelfColumn threePoints :=
  ⟨by decide, (normalizeKnnSelfColumn_spec threePoints contract_threePoints).2.2⟩

end DashQL.Umap
