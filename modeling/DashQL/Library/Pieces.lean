import Mathlib

/-!
# Sequences that hold a text in pieces

A sequence of containers covers a text if the text is the concatenation of one
piece for each container, in order.  What a container holds is a parameter, so
the same lemmas serve the children of a tree node, whatever their height, and
the lists of nodes between two cuts.
-/

namespace DashQL

open List

/-- The text is the concatenation of what the elements hold. -/
def Covers {α β : Type} (holds : α → List β → Prop) : List α → List β → Prop
  | [], text => text = []
  | x :: xs, text => ∃ first rest, text = first ++ rest ∧ holds x first ∧ Covers holds xs rest

namespace Covers

variable {α β : Type} {holds : α → List β → Prop} {xs ys : List α} {x : α} {text : List β}

theorem cons_iff : Covers holds (x :: xs) text ↔
    ∃ first rest, text = first ++ rest ∧ holds x first ∧ Covers holds xs rest := Iff.rfl

theorem cons {first rest : List β} (hx : holds x first) (hxs : Covers holds xs rest) :
    Covers holds (x :: xs) (first ++ rest) :=
  ⟨first, rest, rfl, hx, hxs⟩

theorem append_iff : Covers holds (xs ++ ys) text ↔
    ∃ left right, text = left ++ right ∧ Covers holds xs left ∧ Covers holds ys right := by
  induction xs generalizing text with
  | nil =>
    constructor
    · exact fun h => ⟨[], text, rfl, rfl, h⟩
    · rintro ⟨left, right, rfl, rfl, h⟩
      exact h
  | cons x xs ih =>
    constructor
    · rintro ⟨first, rest, rfl, hx, hrest⟩
      obtain ⟨left, right, rfl, hleft, hright⟩ := ih.mp hrest
      exact ⟨first ++ left, right, (append_assoc ..).symm, cons hx hleft, hright⟩
    · rintro ⟨left, right, rfl, ⟨first, rest, rfl, hx, hrest⟩, hright⟩
      exact ⟨first, rest ++ right, append_assoc .., hx, ih.mpr ⟨rest, right, rfl, hrest, hright⟩⟩

theorem append {left right : List β} (hleft : Covers holds xs left) (hright : Covers holds ys right) :
    Covers holds (xs ++ ys) (left ++ right) :=
  append_iff.mpr ⟨left, right, rfl, hleft, hright⟩

theorem singleton_iff : Covers holds [x] text ↔ holds x text := by
  constructor
  · rintro ⟨first, rest, rfl, hx, rfl⟩
    rwa [append_nil]
  · exact fun h => ⟨text, [], (append_nil text).symm, h, rfl⟩

theorem mono {holds' : α → List β → Prop} (h : Covers holds xs text)
    (himp : ∀ x ∈ xs, ∀ piece, holds x piece → holds' x piece) : Covers holds' xs text := by
  induction xs generalizing text with
  | nil => exact h
  | cons x xs ih =>
    obtain ⟨first, rest, rfl, hx, hrest⟩ := h
    exact cons (himp x (mem_cons_self ..) first hx)
      (ih hrest fun y hy => himp y (mem_cons_of_mem x hy))

theorem flatMap_iff {γ : Type} {inner : γ → List α} {outer : List γ} :
    Covers holds (outer.flatMap inner) text ↔
      Covers (fun y => Covers holds (inner y)) outer text := by
  induction outer generalizing text with
  | nil => exact Iff.rfl
  | cons y outer ih =>
    rw [flatMap_cons, append_iff, cons_iff]
    simp only [ih]

theorem map_iff {γ : Type} {f : γ → α} {outer : List γ} :
    Covers holds (outer.map f) text ↔ Covers (fun y => holds (f y)) outer text := by
  induction outer generalizing text with
  | nil => exact Iff.rfl
  | cons y outer ih =>
    rw [map_cons, cons_iff, cons_iff]
    simp only [ih]

/-- A quantity that is additive in the text is summed over the containers. -/
theorem sum_map {M : Type} [AddCommMonoid M] {amount : α → M} {measure : List β → M}
    (h : Covers holds xs text) (hnil : measure [] = 0)
    (happend : ∀ left right, measure (left ++ right) = measure left + measure right)
    (hamount : ∀ x piece, holds x piece → amount x = measure piece) :
    (xs.map amount).sum = measure text := by
  induction xs generalizing text with
  | nil =>
    obtain rfl := h
    exact hnil.symm
  | cons x xs ih =>
    obtain ⟨first, rest, rfl, hx, hrest⟩ := h
    rw [map_cons, sum_cons, happend, ih hrest, hamount x first hx]

/-- If every piece is nonempty, only the empty sequence covers the empty text. -/
theorem eq_nil (h : Covers holds xs []) (hne : ∀ x ∈ xs, ¬ holds x []) : xs = [] := by
  cases xs with
  | nil => rfl
  | cons x xs =>
    obtain ⟨first, rest, heq, hx, -⟩ := h
    obtain ⟨rfl, -⟩ := nil_eq_append_iff.mp heq
    exact absurd hx (hne x (mem_cons_self ..))

end Covers

end DashQL
