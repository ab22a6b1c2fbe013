import Mathlib

/-!
# Positions in rows

Rows are stored one behind the other, with the offset of each row and the length of all of them.
A row is the slice between its offset and the next one.

An element of the flat list of some rows is in one row, at one place in it
(`IsPosition`).  The order of the elements is that of the positions, by row and then by
place.

Rows are dense if no empty row follows one that is not empty.  Then the position after a
place is the next one in its row, or the first one in the next row.

The elements of rows without empty ones are searched row by row and then place by place
(`exists_searched`).
-/

namespace DashQL

open List Option

section Slices

variable {α β : Type*}

/-- Where a row starts. -/
def rowOffset (rows : List (List α)) (row : ℕ) : ℕ := (rows.take row).flatten.length

def rowOffsets (rows : List (List α)) : List ℕ :=
  (List.range (rows.length + 1)).map (rowOffset rows)

/-- The elements between two offsets. -/
def slice (xs : List α) (start stop : ℕ) : List α := (xs.drop start).take (stop - start)

variable {rows : List (List α)} {row : List α} {i : ℕ}

theorem getD_rowOffsets (h : i ≤ rows.length) : (rowOffsets rows).getD i 0 = rowOffset rows i := by
  rw [getD_eq_getElem?_getD, rowOffsets, getElem?_map, getElem?_range (Nat.lt_succ_of_le h)]
  rfl

theorem length_rowOffsets : (rowOffsets rows).length = rows.length + 1 := by
  rw [rowOffsets, length_map, length_range]

@[simp] theorem rowOffset_zero : rowOffset rows 0 = 0 := rfl

theorem rowOffset_length : rowOffset rows rows.length = rows.flatten.length := by
  rw [rowOffset, List.take_length]

theorem rowOffset_succ (h : rows[i]? = some row) :
    rowOffset rows (i + 1) = rowOffset rows i + row.length := by
  obtain ⟨hi, rfl⟩ := List.getElem?_eq_some_iff.mp h
  rw [rowOffset, take_succ_eq_append_getElem hi, flatten_append, length_append, flatten_singleton]
  rfl

theorem rowOffsets_concat :
    rowOffsets (rows ++ [row]) = rowOffsets rows ++ [rows.flatten.length + row.length] := by
  have hkept : (List.range (rows.length + 1)).map (rowOffset (rows ++ [row])) = rowOffsets rows := by
    refine map_congr_left fun i hi => ?_
    have hle : i ≤ rows.length := Nat.le_of_lt_succ (mem_range.mp hi)
    rw [rowOffset, take_append_of_le_length hle]
    rfl
  have hlast : rowOffset (rows ++ [row]) (rows.length + 1) = rows.flatten.length + row.length := by
    rw [rowOffset, take_of_length_le (by rw [length_append]; rfl), flatten_append,
      length_append, flatten_singleton]
  rw [rowOffsets, length_append, length_singleton, range_succ, map_append,
    hkept, map_singleton, hlast]

theorem slice_flatten (h : rows[i]? = some row) :
    slice rows.flatten (rowOffset rows i) (rowOffset rows (i + 1)) = row := by
  obtain ⟨hi, hrow⟩ := List.getElem?_eq_some_iff.mp h
  have hsplit : rows.flatten = (rows.take i).flatten ++ (row ++ (rows.drop (i + 1)).flatten) := by
    conv_lhs => rw [← take_append_drop i rows]
    rw [flatten_append, drop_eq_getElem_cons hi, flatten_cons, hrow]
  rw [slice, rowOffset_succ h, Nat.add_sub_cancel_left, hsplit, rowOffset, drop_left, take_left]

theorem map_slice {f : α → β} {xs : List α} {start stop : ℕ} :
    slice (xs.map f) start stop = (slice xs start stop).map f := by
  rw [slice, slice, ← map_drop, ← map_take]

/-- Reading a list index by index between two offsets. -/
theorem map_range'_getD {xs : List α} {start stop : ℕ} (default : α) (h : stop ≤ xs.length) :
    (List.range' start (stop - start)).map (fun p => xs.getD p default) = slice xs start stop := by
  apply ext_getElem?
  intro k
  rw [slice, getElem?_map, getElem?_take, getElem?_drop]
  split_ifs with hk
  · rw [getElem?_range' hk, Option.map_some, Nat.one_mul, getD_eq_getElem?_getD,
      getElem?_eq_getElem (by omega)]
    rfl
  · rw [getElem?_eq_none (by rw [length_range']; omega)]
    rfl

theorem rowOffset_le_length : rowOffset rows i ≤ rows.flatten.length := by
  rw [rowOffset]
  conv_rhs => rw [← take_append_drop i rows, flatten_append, length_append]
  exact Nat.le_add_right _ _

end Slices

variable {α : Type*}

def IsPosition (rows : List (List α)) (index row place : ℕ) : Prop :=
  place < (rows.getD row []).length ∧ rowOffset rows row + place = index

/-- No empty row follows one that is not empty. -/
def Dense (rows : List (List α)) : Prop :=
  ∀ row, rows.getD row [] ≠ [] → row + 1 < rows.length → rows.getD (row + 1) [] ≠ []

variable {rows : List (List α)} {index index' row row' place place' : ℕ}

theorem rowOffset_getD_succ (rows : List (List α)) (row : ℕ) :
    rowOffset rows (row + 1) = rowOffset rows row + (rows.getD row []).length := by
  rw [getD_eq_getElem?_getD]
  cases h : rows[row]? with
  | some found => exact rowOffset_succ h
  | none =>
    have hle := List.getElem?_eq_none_iff.mp h
    unfold rowOffset
    rw [take_of_length_le hle, take_of_length_le (Nat.le_succ_of_le hle)]
    rfl

theorem rowOffset_mono (rows : List (List α)) : Monotone (rowOffset rows) :=
  monotone_nat_of_le_succ fun row => by
    rw [rowOffset_getD_succ]
    exact Nat.le_add_right _ _

theorem rowOffset_cons_succ (head : List α) (rows : List (List α)) (row : ℕ) :
    rowOffset (head :: rows) (row + 1) = head.length + rowOffset rows row := by
  unfold rowOffset
  rw [take_succ_cons, flatten_cons, length_append]

namespace IsPosition

section

variable (h : IsPosition rows index row place)

include h

theorem row_lt : row < rows.length := by
  by_contra hge
  have hnone := getD_eq_default rows [] (Nat.le_of_not_lt hge)
  have hplace := h.1
  rw [hnone] at hplace
  exact Nat.not_lt_zero _ hplace

theorem lt_rowOffset_succ : index < rowOffset rows (row + 1) := by
  rw [rowOffset_getD_succ, ← h.2]
  exact Nat.add_lt_add_left h.1 _

theorem rowOffset_le : rowOffset rows row ≤ index := by
  rw [← h.2]
  exact Nat.le_add_right _ _

theorem index_lt : index < rows.flatten.length :=
  Nat.lt_of_lt_of_le h.lt_rowOffset_succ rowOffset_le_length

/-- Of two positions, that in the earlier row belongs to the lower index. -/
theorem index_lt_of_row_lt (h' : IsPosition rows index' row' place') (hrow : row < row') :
    index < index' :=
  Nat.lt_of_lt_of_le h.lt_rowOffset_succ ((rowOffset_mono rows hrow).trans h'.rowOffset_le)

theorem row_unique (h' : IsPosition rows index row' place') : row = row' := by
  rcases Nat.lt_trichotomy row row' with hlt | heq | hgt
  · exact (Nat.lt_irrefl _ (h.index_lt_of_row_lt h' hlt)).elim
  · exact heq
  · exact (Nat.lt_irrefl _ (h'.index_lt_of_row_lt h hgt)).elim

theorem place_unique (h' : IsPosition rows index row' place') : place = place' := by
  have hsum := h.2.trans h'.2.symm
  rw [h.row_unique h'] at hsum
  exact Nat.add_left_cancel hsum

theorem index_unique (h' : IsPosition rows index' row place) : index = index' := h.2.symm.trans h'.2

/-- The order of the indices is that of the rows, and then of the places. -/
theorem le_iff (h' : IsPosition rows index' row' place') :
    index' ≤ index ↔ row' < row ∨ row' = row ∧ place' ≤ place := by
  rcases Nat.lt_trichotomy row' row with hlt | heq | hgt
  · have hindex := h'.index_lt_of_row_lt h hlt
    exact ⟨fun _ => .inl hlt, fun _ => hindex.le⟩
  · subst heq
    rw [← h.2, ← h'.2]
    omega
  · have hindex := h.index_lt_of_row_lt h' hgt
    omega

theorem getElem? : rows.flatten[index]? = (rows.getD row [])[place]? := by
  induction rows generalizing index row with
  | nil =>
    have hplace := h.1
    rw [getD_nil] at hplace
    exact (Nat.not_lt_zero _ hplace).elim
  | cons head rows ih =>
    rw [flatten_cons]
    cases row with
    | zero =>
      rw [← h.2, rowOffset_zero, Nat.zero_add]
      exact getElem?_append_left h.1
    | succ row =>
      have hindex := h.2
      rw [rowOffset_cons_succ, Nat.add_assoc] at hindex
      rw [← hindex, getElem?_append_right (Nat.le_add_right _ _),
        Nat.add_sub_cancel_left, getD_cons_succ]
      exact ih ⟨h.1, rfl⟩

end

end IsPosition

theorem exists_isPosition (h : index < rows.flatten.length) :
    ∃ row place, IsPosition rows index row place := by
  induction rows generalizing index with
  | nil => exact (Nat.not_lt_zero _ h).elim
  | cons head rows ih =>
    rw [flatten_cons, length_append] at h
    by_cases hhead : index < head.length
    · exact ⟨0, index, hhead, Nat.zero_add _⟩
    · obtain ⟨row, place, hplace, hindex⟩ := @ih (index - head.length) (by omega)
      refine ⟨row + 1, place, hplace, ?_⟩
      rw [rowOffset_cons_succ]
      omega

/-! ## Dense rows -/

section

variable (h : IsPosition rows index row place)

include h

theorem IsPosition.succ_place (hplace : place + 1 < (rows.getD row []).length) :
    IsPosition rows (index + 1) row (place + 1) :=
  ⟨hplace, by rw [← h.2, Nat.add_assoc]⟩

theorem IsPosition.succ_row (hdense : Dense rows) (hplace : (rows.getD row []).length ≤ place + 1)
    (hrow : row + 1 < rows.length) : IsPosition rows (index + 1) (row + 1) 0 := by
  have hne : rows.getD row [] ≠ [] := ne_nil_of_length_pos (Nat.zero_lt_of_lt h.1)
  refine ⟨length_pos_iff.mpr (hdense row hne hrow), ?_⟩
  have hlast := h.1
  rw [rowOffset_getD_succ, ← h.2]
  omega

theorem IsPosition.last (hplace : (rows.getD row []).length ≤ place + 1)
    (hrow : rows.length ≤ row + 1) : index + 1 = rows.flatten.length := by
  have hend : rowOffset rows (row + 1) = rows.flatten.length := by
    rw [← rowOffset_length]
    exact congrArg _ (Nat.le_antisymm h.row_lt hrow)
  have hlast := h.1
  rw [← hend, rowOffset_getD_succ, ← h.2]
  omega

end

/-- If dense rows start with elements, the first of them is that of the first row. -/
theorem isPosition_zero (hfirst : rows.getD 0 [] ≠ []) : IsPosition rows 0 0 0 :=
  ⟨length_pos_iff.mpr hfirst, rfl⟩

theorem dense_singleton (row : List α) : Dense [row] := by
  intro i _ hi
  exact absurd hi (by rw [length_singleton]; omega)

/-- A row that is not empty follows. -/
theorem Dense.concat (hdense : Dense rows) {last : List α} (hlast : last ≠ []) :
    Dense (rows ++ [last]) := by
  intro i hi hlt
  rw [length_append, length_singleton] at hlt
  by_cases hend : i + 1 = rows.length
  · rw [getD_append_right _ _ _ _ hend.ge, hend, Nat.sub_self]
    exact hlast
  · rw [getD_append _ _ _ _ (by omega)]
    rw [getD_append _ _ _ _ (by omega)] at hi
    exact hdense i hi (by omega)

/-- The last row may become a row that is not empty. -/
theorem Dense.replace_last {last last' : List α} (hdense : Dense (rows ++ [last]))
    (hlast : last' ≠ []) : Dense (rows ++ [last']) := by
  have hrows : Dense rows := by
    intro i hi hlt
    have hnext := hdense i (by rwa [getD_append _ _ _ _ (by omega)]) (by rw [length_append]; omega)
    rwa [getD_append _ _ _ _ hlt] at hnext
  exact hrows.concat hlast

/-! ## Searching -/

section Search

variable {p : α → Bool}

theorem exists_getElem?_findIdx {xs : List α} (h : xs.findIdx p < xs.length) :
    ∃ a, xs[xs.findIdx p]? = some a ∧ p a = true :=
  ⟨_, getElem?_eq_getElem h, findIdx_getElem⟩

theorem not_of_getElem?_findIdx {xs : List α} {i : ℕ} {a : α} (h : i < xs.findIdx p)
    (ha : xs[i]? = some a) : p a = false := by
  obtain ⟨hlt, rfl⟩ := List.getElem?_eq_some_iff.mp ha
  exact not_of_lt_findIdx h

/-- Behind an element that is searched for are only such elements. -/
theorem IsPosition.found_behind (h : IsPosition rows index row place)
    (hsorted : rows.flatten.Pairwise fun a b => p a = true → p b = true) {a b : α}
    (hb : (rows.getD row [])[place]? = some b) (hpb : p b = true) {j : ℕ} (hj : index ≤ j)
    (ha : rows.flatten[j]? = some a) : p a = true := by
  rw [← h.getElem?] at hb
  rcases Nat.eq_or_lt_of_le hj with rfl | hlt
  · obtain rfl := some.inj (hb.symm.trans ha)
    exact hpb
  · obtain ⟨hi, rfl⟩ := List.getElem?_eq_some_iff.mp hb
    obtain ⟨hj, rfl⟩ := List.getElem?_eq_some_iff.mp ha
    exact pairwise_iff_getElem.mp hsorted index j hi hj hlt hpb

/-- The row in front of the first one that begins with an element that is searched for, and in it
the place in front of the first such element: only such elements are behind that position, and it
has none itself unless it is the first one. -/
theorem exists_searched (hne : rows ≠ []) (hrows : ∀ r ∈ rows, r ≠ [])
    (hsorted : rows.flatten.Pairwise fun a b => p a = true → p b = true)
    (hrow : rows.findIdx (fun r => r.head?.any p) - 1 = row)
    (hplace : (rows.getD row []).findIdx p - 1 = place) :
    ∃ index, IsPosition rows index row place ∧
      (∀ j a, index < j → rows.flatten[j]? = some a → p a = true) ∧
      (index = 0 ∨ ∀ a, rows.flatten[index]? = some a → p a = false) := by
  have hlength := length_pos_iff.mpr hne
  have hrowLt : row < rows.length := by
    have := @findIdx_le_length _ (fun r => r.head?.any p) rows
    omega
  have hsome := getElem?_eq_getElem hrowLt
  have hget : rows.getD row [] = rows[row] := by rw [getD_eq_getElem?_getD, hsome, getD_some]
  have hpos : 0 < (rows.getD row []).length := by
    rw [hget]
    exact length_pos_iff.mpr (hrows _ (getElem_mem hrowLt))
  have hplaceLt : place < (rows.getD row []).length := by
    have := @findIdx_le_length _ p (rows.getD row [])
    omega
  have hposition : IsPosition rows (rowOffset rows row + place) row place := ⟨hplaceLt, rfl⟩
  refine ⟨_, hposition, fun j a hj ha => ?_, ?_⟩
  · obtain ⟨row', place', hj'⟩ := exists_isPosition (List.getElem?_eq_some_iff.mp ha).1
    rw [← Nat.not_le, hposition.le_iff hj', not_or, not_and] at hj
    rcases Nat.eq_or_lt_of_le (Nat.not_lt.mp hj.1) with rfl | hlt
    · -- the first element that is searched for in the row
      have hlater := Nat.not_le.mp (hj.2 rfl)
      have hfirst : (rows.getD row []).findIdx p < (rows.getD row []).length := by
        have := hj'.1
        omega
      obtain ⟨b, hb, hpb⟩ := exists_getElem?_findIdx hfirst
      have hfound : IsPosition rows _ row ((rows.getD row []).findIdx p) := ⟨hfirst, rfl⟩
      exact hfound.found_behind hsorted hb hpb ((hj'.le_iff hfound).mpr (.inr ⟨rfl, by omega⟩)) ha
    · -- the first element of the first row that begins with one
      have hfirst : rows.findIdx (fun r => r.head?.any p) < rows.length := by
        have := hj'.row_lt
        omega
      obtain ⟨r, hr, hhead⟩ := exists_getElem?_findIdx hfirst
      generalize rows.findIdx (fun r => r.head?.any p) = first at hrow hfirst hr
      have hgetFirst : rows.getD first [] = r := by rw [getD_eq_getElem?_getD, hr, getD_some]
      cases r with
      | nil => cases hhead
      | cons b r =>
        have hfound : IsPosition rows _ first 0 := ⟨by rw [hgetFirst]; exact Nat.succ_pos _, rfl⟩
        refine hfound.found_behind hsorted (by rw [hgetFirst]; rfl) hhead
          ((hj'.le_iff hfound).mpr ?_) ha
        rcases Nat.eq_or_lt_of_le (show first ≤ row' by omega) with rfl | hlt
        · exact .inr ⟨rfl, Nat.zero_le _⟩
        · exact .inl hlt
  · by_cases hzero : (rows.getD row []).findIdx p = 0
    · left
      obtain ⟨b, hb, hpb⟩ := exists_getElem?_findIdx (hzero ▸ hpos)
      have hfirst : ¬ row < rows.findIdx fun r => r.head?.any p := by
        intro hlt
        have hnot := not_of_getElem?_findIdx hlt hsome
        rw [hzero, hget, ← head?_eq_getElem?] at hb
        rw [hb, any_some, hpb] at hnot
        cases hnot
      obtain rfl : row = 0 := by omega
      rw [rowOffset_zero]
      omega
    · right
      intro a ha
      rw [hposition.getElem?] at ha
      exact not_of_getElem?_findIdx (by omega) ha

end Search

end DashQL
