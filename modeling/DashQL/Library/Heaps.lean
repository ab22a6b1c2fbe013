import Mathlib

/-!
# Binary heaps in lists

The places below place `i` of a list are `2 * i + 1` and `2 * i + 2`.  In a heap for a strict weak
order no element comes before the one above it, so that none comes before the root.  `siftDown`
mends a heap whose order is broken below one place only, by swaps along a path down
(`siftDown_spec`).
-/

namespace DashQL.Heaps

open List

variable {α : Type*} (lt : α → α → Prop)

/-- The places below a place. -/
def IsChild (i c : ℕ) : Prop := c = 2 * i + 1 ∨ c = 2 * i + 2

/-- If there are two elements, then the second does not come before the first. -/
def Above (x y : Option α) : Prop := ∀ a ∈ x, ∀ b ∈ y, ¬ lt b a

def IsHeap (l : List α) : Prop := ∀ i c, IsChild i c → Above lt l[i]? l[c]?

section Sift

variable [DecidableRel lt]

/-- The place of the one of two elements that comes first. -/
def better (l : List α) (best c : ℕ) : ℕ :=
  match l[c]?, l[best]? with
  | some a, some b => if lt a b then c else best
  | _, _ => best

/-- The place of what comes first among an element and those below it. -/
def topmost (l : List α) (i : ℕ) : ℕ := better lt l (better lt l i (2 * i + 1)) (2 * i + 2)

end Sift

/-- Moves the element at a place down until nothing below it comes before it.  The places left
below bound the steps. -/
def siftDown [DecidableRel lt] : ℕ → List α → ℕ → List α
  | 0, l, _ => l
  | fuel + 1, l, i =>
    if topmost lt l i = i then l
    else siftDown fuel (l.swap i (topmost lt l i)) (topmost lt l i)

/-! ## Strict weak orders -/

instance lt_isStrictWeakOrder {β : Type*} [LinearOrder β] : IsStrictWeakOrder β (· < ·) where
  incomp_trans a b c hab hbc := by
    simp only [not_lt] at hab hbc ⊢
    exact ⟨hbc.1.trans hab.1, hab.2.trans hbc.2⟩

variable {lt}

theorem isHeap_of_sorted {l : List α} (h : l.Pairwise fun a b => ¬ lt b a) : IsHeap lt l := by
  intro i c hc a ha b hb
  obtain ⟨hi, rfl⟩ := List.getElem?_eq_some_iff.mp ha
  obtain ⟨hj, rfl⟩ := List.getElem?_eq_some_iff.mp hb
  refine pairwise_iff_getElem.mp h i c hi hj ?_
  unfold IsChild at hc
  omega

theorem IsHeap.left {l l' : List α} (h : IsHeap lt (l ++ l')) : IsHeap lt l := by
  have hmem (k : ℕ) (a) (ha : a ∈ l[k]?) : a ∈ (l ++ l')[k]? := by
    rw [getElem?_append_left (List.getElem?_eq_some_iff.mp ha).1]
    exact ha
  intro i c hc a ha b hb
  exact h i c hc a (hmem i a ha) b (hmem c b hb)

variable [IsStrictWeakOrder α lt]

theorem not_lt_trans {a b c : α} (hab : ¬ lt b a) (hbc : ¬ lt c b) : ¬ lt c a := by
  intro hca
  have hba : ¬ lt a b := fun h => hbc (trans_of lt hca h)
  have hcb : ¬ lt b c := fun h => hab (trans_of lt h hca)
  exact (IsStrictWeakOrder.incomp_trans a b c ⟨hba, hab⟩ ⟨hcb, hbc⟩).2 hca

theorem not_lt_of_lt {a b : α} (h : lt a b) : ¬ lt b a := fun h' => irrefl a (trans_of lt h h')

/-- Nothing comes before the root. -/
theorem IsHeap.above {l : List α} (h : IsHeap lt l) (i : ℕ) : Above lt l[0]? l[i]? := by
  induction i using Nat.strongRecOn with
  | ind i ih =>
    cases i with
    | zero =>
      intro a ha b hb
      obtain rfl := Option.some.inj (ha.symm.trans hb)
      exact irrefl a
    | succ i =>
      intro a ha b hb
      have hlt : i / 2 < l.length := by
        have := (List.getElem?_eq_some_iff.mp hb).1
        omega
      have hparent := getElem?_eq_getElem hlt
      have hchild : IsChild (i / 2) (i + 1) := by
        unfold IsChild
        omega
      exact not_lt_trans (ih (i / 2) (by omega) a ha _ hparent) (h _ _ hchild _ hparent b hb)

theorem IsHeap.root {first : α} {rest : List α} (h : IsHeap lt (first :: rest)) {a : α}
    (ha : a ∈ first :: rest) : ¬ lt a first := by
  obtain ⟨i, hi⟩ := mem_iff_getElem?.mp ha
  exact h.above i first rfl a hi

/-! ## Sifting down -/

section SiftDown

variable [DecidableRel lt] {l : List α} {i j best c : ℕ}

theorem better_spec {b : α} (hbest : l[best]? = some b) :
    (better lt l best c = best ∨ better lt l best c = c) ∧
      ∃ a, l[better lt l best c]? = some a ∧ ¬ lt b a ∧ (∀ x ∈ l[c]?, ¬ lt x a) ∧
        (better lt l best c ≠ best → lt a b) := by
  unfold better
  rw [hbest]
  cases hc : l[c]? with
  | none => exact ⟨.inl rfl, b, hbest, irrefl b, by simp, fun h => absurd rfl h⟩
  | some x =>
    dsimp only
    by_cases hlt : lt x b
    · rw [if_pos hlt]
      exact ⟨.inr rfl, x, hc, not_lt_of_lt hlt, by simpa using irrefl x, fun _ => hlt⟩
    · rw [if_neg hlt]
      exact ⟨.inl rfl, b, hbest, irrefl b, by simpa using hlt, fun h => absurd rfl h⟩

/-- The topmost of an element and those below it comes behind none of them. -/
theorem topmost_spec {a : α} (hi : l[i]? = some a) :
    (topmost lt l i = i ∨ IsChild i (topmost lt l i)) ∧
      ∃ b, l[topmost lt l i]? = some b ∧ ¬ lt a b ∧ (∀ c, IsChild i c → Above lt (some b) l[c]?) := by
  obtain ⟨hfirst, x, hx, hax, hleft, -⟩ := @better_spec α lt _ _ l i (2 * i + 1) a hi
  obtain ⟨hsecond, b, hb, hxb, hright, -⟩ := @better_spec α lt _ _ l _ (2 * i + 2) x hx
  refine ⟨?_, b, hb, not_lt_trans hxb hax, fun c hc b' hb' y hy => ?_⟩
  · unfold topmost IsChild
    rcases hsecond with h | h
    · rw [h]
      exact hfirst.imp_right .inl
    · exact .inr (.inr h)
  · obtain rfl := Option.some.inj hb'
    rcases hc with rfl | rfl
    · exact not_lt_trans hxb (hleft y hy)
    · exact hright y hy

theorem getElem?_swap {a b : α} (hi : l[i]? = some a) (hj : l[j]? = some b) (k : ℕ) :
    (l.swap i j)[k]? = if k = j then some a else if k = i then some b else l[k]? := by
  obtain ⟨hli, rfl⟩ := List.getElem?_eq_some_iff.mp hi
  obtain ⟨hlj, rfl⟩ := List.getElem?_eq_some_iff.mp hj
  rw [swap_eq_of_lt hli hlj]
  simp only [getElem?_set, length_set, eq_comm (a := k)]
  split_ifs <;> simp_all

/-- If the order is broken below one place only, sifting down from there makes a heap. -/
theorem siftDown_spec (fuel : ℕ) (hlt : i < l.length) (hfuel : l.length ≤ i + fuel)
    (hothers : ∀ j c, j ≠ i → IsChild j c → Above lt l[j]? l[c]?)
    (habove : ∀ j c, IsChild j i → IsChild i c → Above lt l[j]? l[c]?) :
    IsHeap lt (siftDown lt fuel l i) ∧ (siftDown lt fuel l i).Perm l := by
  induction fuel generalizing l i with
  | zero => omega
  | succ fuel ih =>
    have hi := getElem?_eq_getElem hlt
    obtain ⟨hplace, b, hb, hab, hchildren⟩ := @topmost_spec α lt _ _ l i _ hi
    unfold siftDown
    generalize topmost lt l i = best at *
    by_cases hbest : best = i
    · rw [if_pos hbest]
      refine ⟨fun j c hc => ?_, .refl l⟩
      by_cases hj : j = i
      · subst hj hbest
        exact hb ▸ hchildren c hc
      · exact hothers j c hj hc
    · rw [if_neg hbest]
      have hchild := hplace.resolve_left hbest
      have hswap := getElem?_swap hi hb
      have hperm := swap_perm l i best
      refine And.imp_right (fun h => h.trans hperm)
        (@ih (l.swap i best) best ?_ ?_ (fun j c hj hc => ?_) (fun j c hj hc => ?_))
      · rw [hperm.length_eq]
        exact (List.getElem?_eq_some_iff.mp hb).1
      · rw [hperm.length_eq]
        unfold IsChild at hchild
        omega
      · rw [hswap, hswap, if_neg hj]
        by_cases hji : j = i
        · -- the swapped element has come up
          rw [if_pos hji]
          split_ifs with hcb hci
          · simpa [Above] using hab
          · simpa [Above] using irrefl b
          · exact hchildren c (hji ▸ hc)
        · rw [if_neg hji]
          split_ifs with hcb hci
          · unfold IsChild at hc hchild
            omega
          · subst hci
            exact hb ▸ habove j best hc hchild
          · exact hothers j c hji hc
      · unfold IsChild at hj hc hchild
        obtain rfl : j = i := by omega
        rw [hswap, hswap, if_neg (Ne.symm hbest), if_pos rfl, if_neg (by omega), if_neg (by omega),
          ← hb]
        exact hothers best c hbest hc

/-- Another element at the root is sifted down. -/
theorem IsHeap.replaceRoot {first value : α} {rest : List α} (h : IsHeap lt (first :: rest)) :
    IsHeap lt (siftDown lt (rest.length + 1) (value :: rest) 0) ∧
      (siftDown lt (rest.length + 1) (value :: rest) 0).Perm (value :: rest) := by
  refine siftDown_spec _ (Nat.succ_pos _) (by simp) (fun j c hj hc => ?_) fun j c hj => ?_
  · obtain ⟨j, rfl⟩ := Nat.exists_eq_succ_of_ne_zero hj
    obtain ⟨c, rfl⟩ : ∃ d, c = d + 1 := ⟨c - 1, by unfold IsChild at hc; omega⟩
    exact h _ _ hc
  · unfold IsChild at hj
    omega

end SiftDown

/-! ## Keys -/

section Keys

variable {β : Type*} (f : β → α)

omit [IsStrictWeakOrder α lt] in
theorem topmost_map [DecidableRel lt] (l : List β) (i : ℕ) :
    topmost lt (l.map f) i = topmost (fun a b => lt (f a) (f b)) l i := by
  have hbetter (best c) :
      better lt (l.map f) best c = better (fun a b => lt (f a) (f b)) l best c := by
    unfold better
    rw [getElem?_map, getElem?_map]
    cases l[c]? <;> cases l[best]? <;> rfl
  unfold topmost
  rw [hbetter, hbetter]

theorem swap_map (l : List β) (i j : ℕ) : (l.map f).swap i j = (l.swap i j).map f := by
  by_cases h : i < l.length ∧ j < l.length
  · rw [swap_eq_of_lt (by simpa using h.1) (by simpa using h.2), swap_eq_of_lt h.1 h.2]
    simp [map_set]
  · rw [swap_eq, swap_eq, dif_neg h, dif_neg (by simpa using h)]

end Keys

end DashQL.Heaps
