import Mathlib.Data.List.Induction
import Mathlib.Tactic.SplitIfs

/-!
# First occurrences

A list without the elements that are the same as one in front of them.  What counts as the same is
a relation that need not be reflexive: an element that is not the same as itself is always kept.
-/

namespace DashQL

variable {α : Type*} {same : α → α → Prop} [DecidableRel same]

/-- An element is kept behind others if it is the same as none of them. -/
def keepFirst (same : α → α → Prop) [DecidableRel same] (kept : List α) (x : α) : List α :=
  if ∃ y ∈ kept, same y x then kept else kept ++ [x]

/-- The elements that are the same as none in front of them, in order. -/
def firstOccurrences (same : α → α → Prop) [DecidableRel same] (xs : List α) : List α :=
  xs.foldl (keepFirst same) []

theorem firstOccurrences_concat (xs : List α) (x : α) :
    firstOccurrences same (xs ++ [x]) = keepFirst same (firstOccurrences same xs) x := by
  unfold firstOccurrences
  rw [List.foldl_append, List.foldl_cons, List.foldl_nil]

theorem firstOccurrences_singleton (x : α) : firstOccurrences same [x] = [x] := by
  calc firstOccurrences same [x] = keepFirst same [] x := firstOccurrences_concat [] x
    _ = [x] := if_neg (by simp)

theorem firstOccurrences_concat_of_same {xs : List α} {x y : α}
    (hy : y ∈ firstOccurrences same xs) (hsame : same y x) :
    firstOccurrences same (xs ++ [x]) = firstOccurrences same xs := by
  rw [firstOccurrences_concat]
  exact if_pos ⟨y, hy, hsame⟩

theorem firstOccurrences_concat_of_new {xs : List α} {x : α}
    (hnew : ∀ y ∈ firstOccurrences same xs, ¬ same y x) :
    firstOccurrences same (xs ++ [x]) = firstOccurrences same xs ++ [x] := by
  rw [firstOccurrences_concat]
  apply if_neg
  rintro ⟨y, hy, hsame⟩
  exact hnew y hy hsame

end DashQL
