import Mathlib

/-!
# Binary search

In a strictly increasing list the search finds an element exactly under its index.
-/

namespace DashQL

variable {α : Type*} [LinearOrder α]

def binarySearchBetween (xs : List α) (target : α) (low high : ℕ) : Option ℕ :=
  if low < high then
    let middle := (low + high) / 2
    match xs[middle]? with
    | none => none
    | some found =>
      if found = target then some middle
      else if found < target then binarySearchBetween xs target (middle + 1) high
      else binarySearchBetween xs target low middle
  else none
termination_by high - low
decreasing_by all_goals omega

def binarySearch (xs : List α) (target : α) : Option ℕ :=
  binarySearchBetween xs target 0 xs.length

variable {xs : List α} {target : α} {low high index : ℕ}

theorem getElem?_of_binarySearchBetween
    (h : binarySearchBetween xs target low high = some index) : xs[index]? = some target := by
  fun_induction binarySearchBetween xs target low high with
  | case1 => exact absurd h (by simp)
  | case2 low high hlt middle hfound => rw [← Option.some.inj h, hfound]
  | case3 low high hlt middle found hfound hne hless ih => exact ih h
  | case4 low high hlt middle found hfound hne hmore ih => exact ih h
  | case5 => exact absurd h (by simp)

/-- In an increasing list the elements are ordered as their indices. -/
theorem index_lt_of_getElem? (hsorted : xs.Pairwise (· < ·)) {i j : ℕ} {x y : α}
    (hi : xs[i]? = some x) (hj : xs[j]? = some y) (h : x < y) : i < j := by
  obtain ⟨hilt, rfl⟩ := List.getElem?_eq_some_iff.mp hi
  obtain ⟨hjlt, rfl⟩ := List.getElem?_eq_some_iff.mp hj
  by_contra hnot
  rcases Nat.eq_or_lt_of_le (Nat.le_of_not_lt hnot) with rfl | hlt
  · exact lt_irrefl _ h
  · exact lt_asymm h (List.pairwise_iff_getElem.mp hsorted j i hjlt hilt hlt)

theorem binarySearchBetween_of_getElem? (hsorted : xs.Pairwise (· < ·)) (hhigh : high ≤ xs.length)
    (hget : xs[index]? = some target) (hlow : low ≤ index) (hindex : index < high) :
    binarySearchBetween xs target low high = some index := by
  fun_induction binarySearchBetween xs target low high with
  | case1 low high hlt middle hnone =>
    rw [List.getElem?_eq_none_iff] at hnone
    omega
  | case2 low high hlt middle hfound =>
    obtain ⟨hmiddle, hfound⟩ := List.getElem?_eq_some_iff.mp hfound
    obtain ⟨hindex', hget⟩ := List.getElem?_eq_some_iff.mp hget
    have hnodup : xs.Nodup := hsorted.imp ne_of_lt
    rw [(List.Nodup.getElem_inj_iff hnodup).mp (hfound.trans hget.symm)]
  | case3 low high hlt middle found hfound hne hless ih =>
    exact ih hhigh (index_lt_of_getElem? hsorted hfound hget hless) hindex
  | case4 low high hlt middle found hfound hne hmore ih =>
    have hgreater : target < found := lt_of_le_of_ne (not_lt.mp hmore) (Ne.symm hne)
    exact ih (by omega) hlow (index_lt_of_getElem? hsorted hget hfound hgreater)
  | case5 low high hnot => omega

/-- The search finds an element under its index, and nothing else. -/
theorem binarySearch_eq_some_iff (hsorted : xs.Pairwise (· < ·)) :
    binarySearch xs target = some index ↔ xs[index]? = some target := by
  constructor
  · exact getElem?_of_binarySearchBetween
  · intro hget
    obtain ⟨hindex, -⟩ := List.getElem?_eq_some_iff.mp hget
    exact binarySearchBetween_of_getElem? hsorted le_rfl hget (Nat.zero_le _) hindex

end DashQL
