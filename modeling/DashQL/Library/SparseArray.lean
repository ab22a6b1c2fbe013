import Mathlib

/-!
# Arrays that grow when they are assigned to

An assignment behind the end of an array extends it, and leaves holes in between.
`slot_assign` says what is read afterwards, and `sum_assign` how a total over the slots
changes.
-/

namespace DashQL.SparseArray

open List

variable {α : Type*}

/-- The assignment `array[index] = value`; slots that were never assigned hold `hole`. -/
def assign (hole : α) (array : List α) (index : ℕ) (value : α) : List α :=
  if index < array.length then array.set index value
  else array ++ List.replicate (index - array.length) hole ++ [value]

/-- The slot at an index, which is a hole behind the end. -/
def slot (array : List (Option α)) (index : ℕ) : Option α := array[index]?.join

section Assign

variable {hole value : α} {array : List α} {index : ℕ}

theorem length_assign : (assign hole array index value).length = max array.length (index + 1) := by
  unfold assign
  split
  next hlt => rw [length_set, max_eq_left hlt]
  next hge =>
    rw [length_append, length_append, length_replicate, length_singleton]
    omega

theorem length_le_assign : array.length ≤ (assign hole array index value).length := by
  rw [length_assign]
  exact le_max_left _ _

theorem getElem?_assign_self : (assign hole array index value)[index]? = some value := by
  unfold assign
  split
  next hlt => rw [getElem?_set_self hlt]
  next hge =>
    have hlength : (array ++ List.replicate (index - array.length) hole).length = index := by
      rw [length_append, length_replicate]
      omega
    rw [getElem?_append_right hlength.le, hlength, Nat.sub_self]
    rfl

/-- Other slots that there are keep their value. -/
theorem getElem?_assign_of_ne {other : ℕ} (hne : other ≠ index) (hlt : other < array.length) :
    (assign hole array index value)[other]? = array[other]? := by
  unfold assign
  split
  next => exact getElem?_set_ne hne.symm
  next => rw [append_assoc, getElem?_append_left hlt]

/-- Behind the end an assignment leaves holes, or nothing. -/
theorem getElem?_assign_behind {other : ℕ} (hne : other ≠ index) (hle : array.length ≤ other) :
    (assign hole array index value)[other]? = none ∨
      (assign hole array index value)[other]? = some hole := by
  unfold assign
  split
  next =>
    left
    rw [getElem?_set_ne hne.symm]
    exact getElem?_eq_none hle
  next hge =>
    rcases Nat.lt_or_gt_of_ne hne with hlt | hgt
    · right
      have hlength : other < (array ++ List.replicate (index - array.length) hole).length := by
        rw [length_append, length_replicate]
        omega
      rw [getElem?_append_left hlength, getElem?_append_right hle,
        getElem?_replicate_of_lt (by omega)]
    · left
      apply getElem?_eq_none
      rw [length_append, length_append, length_replicate, length_singleton]
      omega

end Assign

section Slots

variable {array : List (Option α)} {index other : ℕ} {value : Option α}

theorem slot_assign :
    slot (assign none array index value) other = if other = index then value else slot array other := by
  split_ifs with heq
  · rw [slot, heq, getElem?_assign_self]
    rfl
  · rcases Nat.lt_or_ge other array.length with hlt | hle
    · rw [slot, slot, getElem?_assign_of_ne heq hlt]
    · have hnone : array[other]? = none := getElem?_eq_none hle
      rw [slot, slot, hnone]
      have hbehind : (assign none array index value)[other]? = none ∨
          (assign none array index value)[other]? = some none := getElem?_assign_behind heq hle
      rcases hbehind with hslot | hslot
      · rw [hslot]
      · rw [hslot]
        rfl

/-- A total over the slots, in which holes count nothing, changes by what is replaced. -/
theorem sum_assign {M : Type*} [AddCommMonoid M] {weight : Option α → M} (hhole : weight none = 0) :
    ((assign none array index value).map weight).sum + weight (slot array index) =
      (array.map weight).sum + weight value := by
  unfold assign
  split
  next hlt =>
    obtain ⟨front, old, back, rfl, rfl⟩ : ∃ front old back, array = front ++ old :: back ∧
        index = front.length := by
      refine ⟨array.take index, array[index], array.drop (index + 1), ?_, ?_⟩
      · rw [← drop_eq_getElem_cons hlt, take_append_drop]
      · rw [length_take_of_le hlt.le]
    have hslot : slot (front ++ old :: back) front.length = old := by
      rw [slot, getElem?_append_right le_rfl, Nat.sub_self]
      rfl
    have hset : (front ++ old :: back).set front.length value = front ++ value :: back := by
      rw [set_append_right _ _ le_rfl, Nat.sub_self]
      rfl
    rw [hslot, hset, map_append, map_append, map_cons, map_cons,
      sum_append, sum_append, sum_cons, sum_cons]
    abel
  next hge =>
    have hslot : slot array index = none := by
      rw [slot, getElem?_eq_none (Nat.le_of_not_lt hge)]
      rfl
    rw [hslot, hhole, map_append, map_append, sum_append, sum_append,
      map_replicate, hhole, sum_replicate, smul_zero, map_singleton,
      sum_singleton, add_zero, add_zero]

end Slots

end DashQL.SparseArray
