import Mathlib

/-!
# The first candidate that is free

A name that is taken is numbered until it is free.  Among one more candidate than there are
taken names one is free, so the loop ends (`firstFree_not_mem`).
-/

namespace DashQL.Candidates

open List

variable {α : Type*} [DecidableEq α] {candidate : ℕ → α} {taken : List α}

/-- The first candidate that is not taken, with so many tries. -/
def firstFree (candidate : ℕ → α) (taken : List α) : ℕ → ℕ → α
  | 0, suffix => candidate suffix
  | tries + 1, suffix =>
    if candidate suffix ∈ taken then firstFree candidate taken tries (suffix + 1)
    else candidate suffix

/-- What is found is one of the candidates. -/
theorem exists_firstFree_eq (candidate : ℕ → α) (taken : List α) (tries suffix : ℕ) :
    ∃ n, firstFree candidate taken tries suffix = candidate n := by
  induction tries generalizing suffix with
  | zero => exact ⟨suffix, rfl⟩
  | succ tries ih =>
    unfold firstFree
    split_ifs
    · exact ih (suffix + 1)
    · exact ⟨suffix, rfl⟩

theorem firstFree_of_not_mem {tries suffix : ℕ} (h : candidate suffix ∉ taken) :
    firstFree candidate taken tries suffix = candidate suffix := by
  cases tries with
  | zero => rfl
  | succ tries => exact if_neg h

/-- If what is found is taken, then all candidates that were tried are. -/
theorem candidate_mem_of_firstFree_mem {tries suffix : ℕ}
    (h : firstFree candidate taken tries suffix ∈ taken) :
    ∀ i ≤ tries, candidate (suffix + i) ∈ taken := by
  induction tries generalizing suffix with
  | zero =>
    intro i hi
    obtain rfl := Nat.le_zero.mp hi
    exact h
  | succ tries ih =>
    unfold firstFree at h
    split_ifs at h with hfirst
    · intro i hi
      cases i with
      | zero => exact hfirst
      | succ i =>
        have hnext := ih h i (by omega)
        have hindex : suffix + (i + 1) = suffix + 1 + i := by omega
        rwa [hindex]
    · exact absurd h hfirst

/-- Among one more candidate than taken names, one is free. -/
theorem firstFree_not_mem (hcandidate : Function.Injective candidate) (first : ℕ) :
    firstFree candidate taken taken.length first ∉ taken := by
  intro h
  have hall := candidate_mem_of_firstFree_mem h
  have hnodup : ((List.range (taken.length + 1)).map fun i => candidate (first + i)).Nodup := by
    refine List.Nodup.map ?_ nodup_range
    intro i j hij
    exact Nat.add_left_cancel (hcandidate hij)
  have hsub : (List.range (taken.length + 1)).map (fun i => candidate (first + i)) ⊆ taken := by
    intro name hname
    obtain ⟨i, hi, rfl⟩ := mem_map.mp hname
    exact hall i (Nat.le_of_lt_succ (mem_range.mp hi))
  have hlength := (subperm_of_subset hnodup hsub).length_le
  rw [length_map, length_range] at hlength
  omega

/-- A text, or with a number behind it from the second candidate on. -/
def numbered (separator : Char) (base : List Char) (suffix : ℕ) : List Char :=
  if suffix = 1 then base else base ++ separator :: Nat.toDigits 10 suffix

theorem toDigits_injective : Function.Injective (Nat.toDigits 10) := by
  intro n m h
  calc n = Nat.ofDigitChars 10 (Nat.toDigits 10 n) 0 := Nat.ofDigitChars_ten_toDigits.symm
    _ = Nat.ofDigitChars 10 (Nat.toDigits 10 m) 0 := by rw [h]
    _ = m := Nat.ofDigitChars_ten_toDigits

theorem numbered_injective (separator : Char) (base : List Char) :
    Function.Injective (numbered separator base) := by
  have hlonger : ∀ n, base ++ separator :: Nat.toDigits 10 n ≠ base := by
    intro n h
    have hlength := congrArg List.length h
    simp at hlength
  intro n m h
  unfold numbered at h
  split_ifs at h with hn hm hm
  · rw [hn, hm]
  · exact absurd h.symm (hlonger m)
  · exact absurd h (hlonger n)
  · exact toDigits_injective (cons_injective (append_cancel_left h))

end DashQL.Candidates
