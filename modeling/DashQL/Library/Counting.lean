import DashQL.Library.InsertionMap

/-!
# Counting references

A registry counts how often each item is held; an item whose count falls to zero is destroyed.
The holders are a multiset of items.  If the counts are exact before a step that acquires some
items and then releases others, and the holders change by the same items, then the counts are
exact afterwards (`Exact.step_iff`), and no item was destroyed that is still held.
-/

namespace DashQL

open List

/-- The counts of the items that are held, and the items that were destroyed, in order. -/
structure CountRegistry (D : Type*) where
  counts : InsertionMap D ℕ+
  destroyed : List D

namespace CountRegistry

variable {D : Type*} [DecidableEq D]

/-- How often an item is held. -/
def count (registry : CountRegistry D) (item : D) : ℕ :=
  (registry.counts.get? item).elim 0 fun count => count

def acquire (item : D) (times : ℕ+) (registry : CountRegistry D) : CountRegistry D :=
  match registry.counts.get? item with
  | some count => { registry with counts := registry.counts.set item (count + times) }
  | none => { registry with counts := registry.counts.set item times }

/-- Hold an item once less, if it is held. -/
def release (item : D) (registry : CountRegistry D) : CountRegistry D :=
  match registry.counts.get? item with
  | some count =>
    if hpos : 0 < (count : ℕ) - 1 then
      { registry with counts := registry.counts.set item (Nat.toPNat (count - 1) hpos) }
    else
      { counts := registry.counts.delete item, destroyed := registry.destroyed ++ [item] }
  | none => registry

def destroyedSince (earlier registry : CountRegistry D) : List D :=
  registry.destroyed.drop earlier.destroyed.length

variable {registry registry' middle : CountRegistry D} {item other : D} {times : ℕ+}
  {acquired released holders holders' : Multiset D} {base : D → ℕ}

theorem count_acquire : (registry.acquire item times).count other =
    registry.count other + if other = item then (times : ℕ) else 0 := by
  unfold acquire count
  split
  next count hget =>
    rw [InsertionMap.get?_set]
    split_ifs with heq
    · rw [heq, hget]
      exact PNat.add_coe count times
    · rfl
  next hget =>
    rw [InsertionMap.get?_set]
    split_ifs with heq
    · rw [heq, hget]
      exact (Nat.zero_add _).symm
    · rfl

theorem count_release : (registry.release item).count other =
    registry.count other - if other = item then 1 else 0 := by
  unfold release
  split
  next count hget =>
    split
    next hpos =>
      unfold CountRegistry.count
      rw [InsertionMap.get?_set]
      split_ifs with heq
      · rw [heq, hget]
        rfl
      · rfl
    next hlast =>
      unfold CountRegistry.count
      rw [InsertionMap.get?_delete]
      split_ifs with heq
      · rw [heq, hget]
        exact (Nat.eq_zero_of_not_pos hlast).symm
      · rfl
  next hget =>
    split_ifs with heq
    · rw [heq, CountRegistry.count, hget]
      rfl
    · rfl

/-! ## What a step acquires and releases -/

structure Acquired (registry registry' : CountRegistry D) (acquired : Multiset D) : Prop where
  count : ∀ item, registry'.count item = registry.count item + acquired.count item
  destroyed : registry'.destroyed = registry.destroyed

/-- The registry with some items released; what was destroyed is not held. -/
structure Released (registry registry' : CountRegistry D) (released : Multiset D) : Prop where
  count : ∀ item, registry'.count item = registry.count item - released.count item
  destroyed : ∃ gone, registry'.destroyed = registry.destroyed ++ gone ∧
    ∀ item ∈ gone, registry'.count item = 0

theorem Acquired.refl (registry : CountRegistry D) : Acquired registry registry 0 :=
  ⟨fun _ => rfl, rfl⟩

theorem Acquired.trans {acquired' : Multiset D} (h : Acquired registry middle acquired)
    (h' : Acquired middle registry' acquired') : Acquired registry registry' (acquired + acquired') where
  count item := by rw [h'.count, h.count, Multiset.count_add, Nat.add_assoc]
  destroyed := h'.destroyed.trans h.destroyed

theorem acquired_acquire (registry : CountRegistry D) (item : D) (times : ℕ+) :
    Acquired registry (registry.acquire item times) (Multiset.replicate times item) where
  count other := by
    rw [count_acquire, Multiset.count_replicate]
    simp only [eq_comm]
  destroyed := by
    unfold acquire
    split <;> rfl

theorem Released.refl (registry : CountRegistry D) : Released registry registry 0 :=
  ⟨fun _ => rfl, [], (append_nil _).symm, fun _ hitem => absurd hitem not_mem_nil⟩

theorem Released.trans {released' : Multiset D} (h : Released registry middle released)
    (h' : Released middle registry' released') : Released registry registry' (released + released') where
  count item := by rw [h'.count, h.count, Multiset.count_add, Nat.sub_sub]
  destroyed := by
    obtain ⟨gone, hgone, hzero⟩ := h.destroyed
    obtain ⟨gone', hgone', hzero'⟩ := h'.destroyed
    refine ⟨gone ++ gone', by rw [hgone', hgone, append_assoc], ?_⟩
    intro item hitem
    rcases mem_append.mp hitem with hearly | hlate
    · -- it stays at zero
      rw [h'.count, hzero item hearly, Nat.zero_sub]
    · exact hzero' item hlate

theorem released_release (registry : CountRegistry D) (item : D) :
    Released registry (registry.release item) {item} where
  count other := by rw [count_release, Multiset.count_singleton]
  destroyed := by
    have hzero : (registry.release item).count item = registry.count item - 1 := by
      rw [count_release, if_pos rfl]
    cases hget : registry.counts.get? item with
    | none =>
      refine ⟨[], ?_, fun _ hitem => absurd hitem not_mem_nil⟩
      rw [release, hget, append_nil]
    | some count =>
      by_cases hpos : 0 < (count : ℕ) - 1
      · refine ⟨[], ?_, fun _ hitem => absurd hitem not_mem_nil⟩
        rw [release, hget]
        dsimp only
        rw [dif_pos hpos, append_nil]
      · refine ⟨[item], ?_, fun other hother => ?_⟩
        · rw [release, hget]
          dsimp only
          rw [dif_neg hpos]
        · rw [mem_singleton.mp hother, hzero, CountRegistry.count, hget]
          exact Nat.eq_zero_of_not_pos hpos

/-! ## Exact counts -/

/-- Every item is counted as often as it is held, besides what others hold. -/
def Exact (base : D → ℕ) (holders : Multiset D) (registry : CountRegistry D) : Prop :=
  ∀ item, registry.count item = base item + holders.count item

/-- A step that acquires some items and then releases some of those that are held keeps the counts
exact if the holders change by the same items, and only then. -/
theorem Exact.iff_balance (hexact : Exact base holders registry)
    (hacquired : Acquired registry middle acquired) (hreleased : Released middle registry' released)
    (hheld : released ≤ holders + acquired) :
    Exact base holders' registry' ↔ holders + acquired = holders' + released := by
  have hcount : ∀ item, registry'.count item =
      base item + holders.count item + acquired.count item - released.count item := by
    intro item
    rw [hreleased.count, hacquired.count, hexact item]
  have hle : ∀ item, released.count item ≤ holders.count item + acquired.count item := by
    intro item
    rw [← Multiset.count_add]
    exact Multiset.count_le_of_le item hheld
  constructor
  · intro hexact'
    ext item
    have hitem := hexact' item
    rw [hcount] at hitem
    rw [Multiset.count_add, Multiset.count_add]
    have hitemLe := hle item
    omega
  · intro hbalance item
    have hitem := congrArg (Multiset.count item) hbalance
    rw [Multiset.count_add, Multiset.count_add] at hitem
    rw [hcount]
    omega

/-- A step that acquires some items, then releases some that are held, and that changes the holders
alike exactly under a condition. -/
def BalancedIf (condition : Prop) (holders holders' : Multiset D)
    (registry registry' : CountRegistry D) : Prop :=
  ∃ middle acquired released, Acquired registry middle acquired ∧
    Released middle registry' released ∧ released ≤ holders + acquired ∧
      (holders + acquired = holders' + released ↔ condition)

theorem balancedIf_of_eq (hacquired : Acquired registry middle acquired)
    (hreleased : Released middle registry' released)
    (hbalance : holders + acquired = holders' + released) :
    BalancedIf True holders holders' registry registry' :=
  ⟨middle, acquired, released, hacquired, hreleased, hbalance ▸ Multiset.le_add_left _ _,
    iff_true_intro hbalance⟩

theorem BalancedIf.refl (holders : Multiset D) (registry : CountRegistry D) :
    BalancedIf True holders holders registry registry :=
  balancedIf_of_eq (.refl _) (.refl _) rfl

variable {condition condition' : Prop}

theorem BalancedIf.congr (hiff : condition ↔ condition')
    (h : BalancedIf condition holders holders' registry registry') :
    BalancedIf condition' holders holders' registry registry' := by
  obtain ⟨middle, acquired, released, hacquired, hreleased, hheld, hbalance⟩ := h
  exact ⟨middle, acquired, released, hacquired, hreleased, hheld, hbalance.trans hiff⟩

theorem Exact.step_iff (hexact : Exact base holders registry)
    (h : BalancedIf condition holders holders' registry registry') :
    Exact base holders' registry' ↔ condition := by
  obtain ⟨middle, acquired, released, hacquired, hreleased, hheld, hbalance⟩ := h
  rw [hexact.iff_balance hacquired hreleased hheld, hbalance]

/-- If the counts are exact after such a step, then it destroyed no item that is held. -/
theorem Exact.not_mem_of_destroyed (hexact' : Exact base holders' registry')
    (h : BalancedIf condition holders holders' registry registry') :
    ∀ item ∈ destroyedSince registry registry', item ∉ holders' := by
  intro item hitem
  have hcount := hexact' item
  obtain ⟨middle, acquired, released, hacquired, hreleased, -, -⟩ := h
  obtain ⟨gone, hgone, hzero⟩ := hreleased.destroyed
  rw [destroyedSince, hgone, hacquired.destroyed, drop_left] at hitem
  rw [hzero item hitem] at hcount
  rw [← Multiset.count_eq_zero]
  omega

/-- Where nothing is held any more the counts are those of the others. -/
theorem Exact.count_eq (hexact : Exact base 0 registry) (item : D) : registry.count item = base item :=
  (hexact item).trans (Nat.add_zero _)

end CountRegistry

end DashQL
