import Mathlib

/-!
# Lists in a strict order

A list in which every element comes strictly before the later ones is what an
insertion sort makes of each of its permutations.  The relation need not be an
order outside of the list: all that is asked of it concerns the elements.
-/

namespace DashQL

open List

variable {α : Type*} {r : α → α → Prop} [DecidableRel r]

/-- An element goes between the elements that come before it and the others. -/
theorem orderedInsert_between {a : α} {front back : List α} (hfront : ∀ b ∈ front, ¬ r a b)
    (hback : ∀ b ∈ back, r a b) : (front ++ back).orderedInsert r a = front ++ a :: back := by
  induction front with
  | nil =>
    cases back with
    | nil => rfl
    | cons b back => exact orderedInsert_cons_of_le r back (hback b mem_cons_self)
  | cons b front ih =>
    rw [cons_append, orderedInsert_of_not_le r _ (hfront b mem_cons_self),
      ih fun c hc => hfront c (mem_cons_of_mem b hc)]
    rfl

theorem insertionSort_eq_of_strict {order elements : List α} (hperm : elements.Perm order)
    (hstrict : order.Pairwise fun a b => r a b ∧ ¬ r b a) : elements.insertionSort r = order := by
  induction elements generalizing order with
  | nil => rw [nil_perm.mp hperm]; rfl
  | cons a elements ih =>
    obtain ⟨front, back, rfl⟩ := append_of_mem (hperm.subset mem_cons_self)
    have hrest : elements.Perm (front ++ back) :=
      (hperm.trans perm_middle).cons_inv
    have hsublist : (front ++ back).Sublist (front ++ a :: back) :=
      (List.Sublist.refl front).append (sublist_cons_self a back)
    rw [insertionSort_cons, ih hrest (hstrict.sublist hsublist)]
    rw [pairwise_append, pairwise_cons] at hstrict
    obtain ⟨-, ⟨hback, -⟩, hacross⟩ := hstrict
    exact orderedInsert_between (fun b hb => (hacross b hb a mem_cons_self).2)
      fun b hb => (hback b hb).1

theorem getLast_insertionSort {a : α} {elements : List α} [Std.Total r] [IsTrans α r]
    (h : (elements.insertionSort r).getLast? = some a) : ∀ b ∈ elements, b = a ∨ r b a := by
  intro b hb
  obtain ⟨front, hfront⟩ := getLast?_eq_some_iff.mp h
  have hsorted := pairwise_insertionSort r elements
  have hmem : b ∈ elements.insertionSort r := (perm_insertionSort r elements).symm.subset hb
  rw [hfront, pairwise_append] at hsorted
  rw [hfront, mem_append, mem_singleton] at hmem
  rcases hmem with hmem | rfl
  · exact .inr (hsorted.2.2 b hmem a (mem_singleton_self a))
  · exact .inl rfl

/-- An element behind others that may all come before it stays behind them. -/
theorem insertionSort_concat {a : α} {elements : List α} (h : ∀ b ∈ elements, r b a) :
    (elements ++ [a]).insertionSort r = elements.insertionSort r ++ [a] := by
  induction elements with
  | nil => rfl
  | cons b elements ih =>
    have hb := h b mem_cons_self
    rw [cons_append, insertionSort_cons, insertionSort_cons,
      ih fun c hc => h c (mem_cons_of_mem b hc)]
    generalize elements.insertionSort r = sorted
    induction sorted with
    | nil => exact orderedInsert_cons_of_le r [] hb
    | cons c sorted ihsorted =>
      by_cases hc : r b c
      · rw [cons_append, orderedInsert_cons_of_le r _ hc, orderedInsert_cons_of_le r _ hc]
        rfl
      · rw [cons_append, orderedInsert_of_not_le r _ hc, orderedInsert_of_not_le r _ hc, ihsorted]
        rfl

end DashQL
