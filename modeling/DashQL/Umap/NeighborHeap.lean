import DashQL.Library.Heaps

/-!
# Neighbor heaps

A row of a neighbor heap keeps the nearest neighbors of a point, the furthest of them at the root,
in three parallel arrays.  A push moves a hole down from the root; written as slots the row is
sifted down (`hole_ofSlots`).  Whatever has been pushed and is not in the row is at least as far as
all that is (`Kept`): so an index that comes back later does not come back into the row.
-/

namespace DashQL.Umap

open List Heaps

variable {D : Type*}

/-! ## The code -/

/-- The order of a max-heap. -/
def Farther [LT D] {α : Type*} (distance : α → D) (a b : α) : Prop := distance b < distance a

instance [LinearOrder D] {α : Type*} (distance : α → D) : DecidableRel (Farther distance) :=
  fun _ _ => inferInstanceAs (Decidable (_ < _))

instance [LinearOrder D] {α : Type*} (distance : α → D) : IsStrictWeakOrder α (Farther distance) :=
  inferInstanceAs (IsStrictWeakOrder α (Function.swap (Order.Preimage distance (· < ·))))

/-- What stands at one place of the arrays. -/
structure Slot (D : Type*) where
  distance : D
  index : ℤ
  flag : ℕ
  deriving DecidableEq

structure HeapRow (D : Type*) where
  priorities : List D
  indices : List ℤ
  flags : List ℕ
  deriving DecidableEq

/-- A copy inside of an array. -/
def copyPlace {α : Type*} (l : List α) (i j : ℕ) : List α :=
  match l[j]? with
  | some a => l.set i a
  | none => l

namespace HeapRow

def ofSlots (slots : List (Slot D)) : HeapRow D where
  priorities := slots.map Slot.distance
  indices := slots.map Slot.index
  flags := slots.map Slot.flag

def make [Top D] (size : ℕ) : HeapRow D where
  priorities := replicate size ⊤
  indices := replicate size (-1)
  flags := replicate size 0

def write (row : HeapRow D) (i : ℕ) (slot : Slot D) : HeapRow D where
  priorities := row.priorities.set i slot.distance
  indices := row.indices.set i slot.index
  flags := row.flags.set i slot.flag

def copy (row : HeapRow D) (i j : ℕ) : HeapRow D where
  priorities := copyPlace row.priorities i j
  indices := copyPlace row.indices i j
  flags := copyPlace row.flags i j

variable [LinearOrder D]

/-- `i_swap`: the place below that the hole moves to, if it does. -/
def swapPlace (priorities : List D) (p : D) (i : ℕ) : Option ℕ :=
  match priorities[2 * i + 1]?, priorities[2 * i + 2]? with
  | none, _ => none
  | some p1, none => if p < p1 then some (2 * i + 1) else none
  | some p1, some p2 =>
    if p2 ≤ p1 then if p < p1 then some (2 * i + 1) else none
    else if p < p2 then some (2 * i + 2) else none

/-- The loop of a push, with the number of places as a bound of its rounds. -/
def hole (p : D) : ℕ → HeapRow D → ℕ → HeapRow D × ℕ
  | 0, row, i => (row, i)
  | fuel + 1, row, i =>
    match swapPlace row.priorities p i with
    | none => (row, i)
    | some j => hole p fuel (row.copy i j) j

def checkedFlaggedHeapPush (row : HeapRow D) (slot : Slot D) : HeapRow D × ℕ :=
  match row.priorities with
  | [] => (row, 0)
  | first :: _ =>
    if first ≤ slot.distance then (row, 0)
    else if slot.index ∈ row.indices.take row.priorities.length then (row, 0)
    else
      let holed := hole slot.distance row.priorities.length (row.write 0 slot) 0
      (holed.1.write holed.2 slot, 1)

end HeapRow

/-- `siftdown` of the first places of the parallel arrays. -/
def siftdown [LinearOrder D] : ℕ → List D → List ℤ → ℕ → List D × List ℤ
  | 0, heap1, heap2, _ => (heap1, heap2)
  | fuel + 1, heap1, heap2, elt =>
    let swapped := topmost (Farther id) heap1 elt
    if swapped = elt then (heap1, heap2)
    else siftdown fuel (heap1.swap elt swapped) (heap2.swap elt swapped) swapped

/-- A round of `deheap_sort`: the root moves behind the heap. -/
def deheapStep [LinearOrder D] (arrays : List D × List ℤ) (j : ℕ) : List D × List ℤ :=
  let distances := arrays.1.swap 0 j
  let indices := arrays.2.swap 0 j
  let sifted := siftdown j (distances.take j) (indices.take j) 0
  (sifted.1 ++ distances.drop j, sifted.2 ++ indices.drop j)

def deheapSort [LinearOrder D] (row : HeapRow D) : List D × List ℤ :=
  (range' 1 (row.priorities.length - 1)).reverse.foldl deheapStep (row.priorities, row.indices)

/-! ## Rows as slots -/

namespace HeapRow

theorem copyPlace_map {α β : Type*} (f : α → β) (l : List α) {i j : ℕ} {a : α}
    (hj : l[j]? = some a) : copyPlace (l.map f) i j = (l.set i a).map f := by
  unfold copyPlace
  rw [getElem?_map, hj, Option.map_some, map_set]

theorem write_ofSlots (slots : List (Slot D)) (i : ℕ) (slot : Slot D) :
    (ofSlots slots).write i slot = ofSlots (slots.set i slot) := by
  unfold write ofSlots
  simp only [map_set]

variable [LinearOrder D] {slots : List (Slot D)} {slot : Slot D}

/-- The hole moves to where a swap of the new slot would put it. -/
theorem swapPlace_eq {i : ℕ} (hi : i < slots.length) :
    swapPlace (slots.map Slot.distance) slot.distance i =
      if topmost (Farther Slot.distance) (slots.set i slot) i = i then none
      else some (topmost (Farther Slot.distance) (slots.set i slot) i) := by
  have hplace : (slots.set i slot)[i]? = some slot := getElem?_set_self hi
  have hleft : (slots.set i slot)[2 * i + 1]? = slots[2 * i + 1]? := getElem?_set_ne (by omega)
  have hright : (slots.set i slot)[2 * i + 2]? = slots[2 * i + 2]? := getElem?_set_ne (by omega)
  unfold swapPlace topmost
  rw [getElem?_map, getElem?_map]
  cases hl : slots[2 * i + 1]? with
  | none =>
    have hr : slots[2 * i + 2]? = none := by
      rw [getElem?_eq_none_iff] at hl ⊢
      omega
    simp [better, hplace, hleft, hright, hl, hr]
  | some left =>
    cases hr : slots[2 * i + 2]? with
    | none =>
      by_cases h : slot.distance < left.distance <;>
        simp [better, hplace, hleft, hright, hl, hr, Farther, h]
      omega
    | some right =>
      by_cases h : slot.distance < left.distance
      · by_cases h' : left.distance < right.distance
        · have := h.trans h'
          simp [better, hplace, hleft, hright, hl, hr, Farther, h, h', this, not_le.mpr h']
          omega
        · simp [better, hplace, hleft, hright, hl, hr, Farther, h, h', not_lt.mp h']
          omega
      · by_cases h' : slot.distance < right.distance
        · have := (not_lt.mp h).trans_lt h'
          simp [better, hplace, hleft, hright, hl, hr, Farther, h, h', not_le.mpr this]
          omega
        · simp [better, hplace, hleft, hright, hl, hr, Farther, h, h']

/-- The hole with the new slot in it moves like a slot that is sifted down. -/
theorem hole_ofSlots (fuel : ℕ) {i : ℕ} (hi : i < slots.length) :
    (hole slot.distance fuel (ofSlots slots) i).1.write
        (hole slot.distance fuel (ofSlots slots) i).2 slot =
      ofSlots (siftDown (Farther Slot.distance) fuel (slots.set i slot) i) := by
  induction fuel generalizing slots i with
  | zero => exact write_ofSlots slots i slot
  | succ fuel ih =>
    have hplace : (slots.set i slot)[i]? = some slot := getElem?_set_self hi
    obtain ⟨-, b, hb, -, -⟩ :=
      @topmost_spec _ (Farther Slot.distance) _ _ (slots.set i slot) i slot hplace
    unfold hole siftDown
    have hswapPlace := @swapPlace_eq _ _ slots slot i hi
    generalize topmost (Farther Slot.distance) (slots.set i slot) i = place at *
    simp only [show (ofSlots slots).priorities = slots.map Slot.distance from rfl, hswapPlace]
    by_cases hmoves : place = i
    · rw [if_pos hmoves, if_pos hmoves]
      exact write_ofSlots slots i slot
    · rw [if_neg hmoves, if_neg hmoves]
      rw [getElem?_set_ne (Ne.symm hmoves)] at hb
      obtain ⟨hlt, rfl⟩ := List.getElem?_eq_some_iff.mp hb
      have hcopy : (ofSlots slots).copy i place = ofSlots (slots.set i slots[place]) := by
        unfold copy ofSlots
        simp only [copyPlace_map _ _ hb]
      have hswap : (slots.set i slot).swap i place = (slots.set i slots[place]).set place slot := by
        rw [swap_eq_of_lt (by simpa using hi) (by simpa using hlt), set_set,
          getElem_set_ne (Ne.symm hmoves), getElem_set_self]
      dsimp only
      rw [hcopy, hswap]
      exact ih (by simpa using hlt)

/-- A push of slots. -/
theorem checkedFlaggedHeapPush_ofSlots (first : Slot D) (rest : List (Slot D)) (slot : Slot D) :
    checkedFlaggedHeapPush (ofSlots (first :: rest)) slot =
      if first.distance ≤ slot.distance ∨ slot.index ∈ (first :: rest).map Slot.index then
        (ofSlots (first :: rest), 0)
      else
        (ofSlots (siftDown (Farther Slot.distance) (rest.length + 1) (slot :: rest) 0), 1) := by
  have htake : (ofSlots (first :: rest)).indices.take (ofSlots (first :: rest)).priorities.length =
      (first :: rest).map Slot.index := by
    simp [ofSlots]
  have hlength : (ofSlots (first :: rest)).priorities.length = rest.length + 1 := by
    simp [ofSlots]
  unfold checkedFlaggedHeapPush
  rw [htake, hlength]
  change (if first.distance ≤ slot.distance then _ else if _ then _ else _) = _
  by_cases hfar : first.distance ≤ slot.distance
  · rw [if_pos hfar, if_pos (.inl hfar)]
  · rw [if_neg hfar]
    by_cases hknown : slot.index ∈ (first :: rest).map Slot.index
    · rw [if_pos hknown, if_pos (.inr hknown)]
    · rw [if_neg hknown, if_neg (not_or.mpr ⟨hfar, hknown⟩), write_ofSlots]
      exact congrArg (·, 1)
        (@hole_ofSlots _ _ (slot :: rest) slot (rest.length + 1) 0 (Nat.succ_pos _))

end HeapRow

/-! ## The sort of a row -/

variable [LinearOrder D]

/-- Neighbors as two arrays. -/
def arrays (l : List (D × ℤ)) : List D × List ℤ := (l.map Prod.fst, l.map Prod.snd)

theorem siftdown_arrays (fuel : ℕ) (l : List (D × ℤ)) (i : ℕ) :
    siftdown fuel (l.map Prod.fst) (l.map Prod.snd) i =
      arrays (siftDown (Farther Prod.fst) fuel l i) := by
  induction fuel generalizing l i with
  | zero => rfl
  | succ fuel ih =>
    have htopmost : topmost (Farther id) (l.map Prod.fst) i = topmost (Farther Prod.fst) l i :=
      topmost_map Prod.fst l i
    unfold siftdown siftDown
    dsimp only
    rw [htopmost]
    split_ifs
    · rfl
    · rw [swap_map, swap_map, ih]

theorem swap_ends {α : Type*} (a b : α) (mid suffix : List α) :
    (a :: (mid ++ b :: suffix)).swap 0 (mid.length + 1) = b :: (mid ++ a :: suffix) := by
  simp

theorem deheapStep_arrays (first last : D × ℤ) (mid suffix : List (D × ℤ)) :
    deheapStep (arrays (first :: (mid ++ last :: suffix))) (mid.length + 1) =
      arrays (siftDown (Farther Prod.fst) (mid.length + 1) (last :: mid) 0 ++ first :: suffix) := by
  have htake : (last :: (mid ++ first :: suffix)).take (mid.length + 1) = last :: mid := by simp
  have hdrop : (last :: (mid ++ first :: suffix)).drop (mid.length + 1) = first :: suffix := by simp
  unfold deheapStep
  simp only [arrays, swap_map, swap_ends, ← map_take, ← map_drop, htake, hdrop, siftdown_arrays,
    map_append]

/-- The roots come out behind the heap one by one, in descending order. -/
theorem foldl_deheapStep (j : ℕ) {heap suffix : List (D × ℤ)} (hlength : heap.length = j + 1)
    (hheap : IsHeap (Farther Prod.fst) heap) (hsuffix : suffix.Pairwise fun a b => a.1 ≤ b.1)
    (hle : ∀ a ∈ heap, ∀ b ∈ suffix, a.1 ≤ b.1) :
    ∃ sorted, (range' 1 j).reverse.foldl deheapStep (arrays (heap ++ suffix)) = arrays sorted ∧
      sorted.Perm (heap ++ suffix) ∧ sorted.Pairwise fun a b => a.1 ≤ b.1 := by
  induction j generalizing heap suffix with
  | zero =>
    obtain ⟨a, rfl⟩ := length_eq_one_iff.mp hlength
    exact ⟨a :: suffix, rfl, .refl _, pairwise_cons.mpr ⟨hle a mem_cons_self, hsuffix⟩⟩
  | succ j ih =>
    obtain ⟨first, rest, rfl⟩ := exists_cons_of_length_eq_add_one hlength
    have hrest : rest ≠ [] := ne_nil_of_length_eq_add_one (Nat.succ.inj hlength)
    obtain ⟨mid, last, rfl⟩ : ∃ mid last, rest = mid ++ [last] :=
      ⟨rest.dropLast, rest.getLast hrest, (dropLast_append_getLast hrest).symm⟩
    have hmid : mid.length = j := by simpa using hlength
    have hroot (a) (ha : a ∈ first :: (mid ++ [last])) : a.1 ≤ first.1 :=
      not_lt.mp (hheap.root ha)
    have hmidHeap : IsHeap (Farther Prod.fst) (first :: mid) :=
      @IsHeap.left _ _ (first :: mid) [last] hheap
    obtain ⟨hheap', hperm⟩ := @IsHeap.replaceRoot _ (Farther Prod.fst) _ _ _ last _ hmidHeap
    have hstep := deheapStep_arrays first last mid suffix
    generalize siftDown (Farther Prod.fst) (mid.length + 1) (last :: mid) 0 = heap' at *
    have hmem (a) (ha : a ∈ heap') : a ∈ first :: (mid ++ [last]) := by
      have := hperm.mem_iff.mp ha
      simp only [mem_cons, mem_append] at this ⊢
      tauto
    obtain ⟨sorted, hsorted, hsortedPerm, hpairwise⟩ := @ih heap' (first :: suffix)
      (hperm.length_eq.trans (by simp [hmid])) hheap'
      (pairwise_cons.mpr ⟨hle first mem_cons_self, hsuffix⟩)
      (fun a ha => forall_mem_cons.mpr ⟨hroot a (hmem a ha), hle a (hmem a ha)⟩)
    refine ⟨sorted, ?_, hsortedPerm.trans ?_, hpairwise⟩
    · rw [range'_1_concat, reverse_append, reverse_singleton, singleton_append, foldl_cons,
        Nat.add_comm 1 j, ← hmid, cons_append, append_assoc, singleton_append, hstep, hmid,
        hsorted]
    · have hends : (last :: (mid ++ first :: suffix)).Perm (first :: (mid ++ last :: suffix)) :=
        swap_ends first last mid suffix ▸ swap_perm _ 0 (mid.length + 1)
      exact ((hperm.append_right _).trans hends).trans (Perm.of_eq (by simp))

theorem deheapSort_ofSlots {slots : List (Slot D)} (h : IsHeap (Farther Slot.distance) slots)
    (hpos : 0 < slots.length) :
    ∃ sorted, deheapSort (.ofSlots slots) = arrays sorted ∧
      sorted.Perm (slots.map fun slot => (slot.distance, slot.index)) ∧
      sorted.Pairwise fun a b => a.1 ≤ b.1 := by
  set pairs := slots.map fun slot => (slot.distance, slot.index) with hpairs
  have hheap : IsHeap (Farther Prod.fst) pairs := by
    intro i c hc a ha b hb
    simp only [hpairs, getElem?_map, Option.mem_def, Option.map_eq_some_iff] at ha hb
    obtain ⟨a, ha, rfl⟩ := ha
    obtain ⟨b, hb, rfl⟩ := hb
    exact h i c hc a ha b hb
  obtain ⟨sorted, hsorted, hperm, hpairwise⟩ := @foldl_deheapStep _ _ (slots.length - 1) pairs []
    (by rw [hpairs, length_map]; omega) hheap Pairwise.nil (by simp)
  rw [append_nil] at hsorted hperm
  refine ⟨sorted, ?_, hperm, hpairwise⟩
  rw [← hsorted]
  simp [deheapSort, HeapRow.ofSlots, arrays, hpairs, Function.comp_def]

/-! ## What the row keeps -/

/-- A slot without a neighbor. -/
def Slot.empty [Top D] : Slot D := ⟨⊤, -1, 0⟩

omit [LinearOrder D] in
theorem not_nonneg_empty [Top D] : ¬ 0 ≤ (Slot.empty (D := D)).index :=
  not_le.mpr (by decide : (-1 : ℤ) < 0)

variable [OrderTop D]

/-- The row has the nearest of what was pushed: what is not in it is no nearer than what is. -/
structure Kept (size : ℕ) (pushes slots : List (Slot D)) : Prop where
  length_eq : slots.length = size
  isHeap : IsHeap (Farther Slot.distance) slots
  nodup : ((slots.filter fun slot => 0 ≤ slot.index).map Slot.index).Nodup
  origin : ∀ slot ∈ slots, slot = .empty ∨ slot ∈ pushes
  nearest : ∀ push ∈ pushes, push.index ∈ slots.map Slot.index ∨
    ∀ slot ∈ slots, slot.distance ≤ push.distance

/-- What the callers push: neighbors at finite distances, each always at the same distance. -/
structure Consistent (pushes : List (Slot D)) : Prop where
  index_nonneg : ∀ push ∈ pushes, 0 ≤ push.index
  distance_lt : ∀ push ∈ pushes, push.distance < ⊤
  distance_eq : ∀ push ∈ pushes, ∀ other ∈ pushes, push.index = other.index →
    push.distance = other.distance

theorem kept_make (size : ℕ) : Kept size [] (replicate size (Slot.empty (D := D))) where
  length_eq := length_replicate
  isHeap i c _ a ha b hb := by
    obtain rfl := eq_of_mem_replicate (mem_of_getElem? ha)
    obtain rfl := eq_of_mem_replicate (mem_of_getElem? hb)
    exact irrefl _
  nodup := by
    have hfilter :
        ((replicate size (Slot.empty (D := D))).filter fun slot => 0 ≤ slot.index) = [] :=
      filter_eq_nil_iff.mpr fun slot hslot => by
        rw [eq_of_mem_replicate hslot]
        simpa using not_nonneg_empty (D := D)
    rw [hfilter]
    exact nodup_nil
  origin slot hslot := .inl (eq_of_mem_replicate hslot)
  nearest := by simp

theorem Kept.push {size : ℕ} {pushes slots : List (Slot D)} {slot : Slot D}
    (h : Kept size pushes slots) (hsize : 1 ≤ size) (hpushes : Consistent (pushes ++ [slot])) :
    ∃ slots', Kept size (pushes ++ [slot]) slots' ∧
      ((HeapRow.ofSlots slots).checkedFlaggedHeapPush slot).1 = .ofSlots slots' ∧
      (((HeapRow.ofSlots slots).checkedFlaggedHeapPush slot).2 = 1 ↔
        HeapRow.ofSlots slots' ≠ .ofSlots slots) := by
  obtain ⟨first, rest, rfl⟩ := exists_cons_of_length_pos (by have := h.length_eq; omega :
    0 < slots.length)
  have hroot (a) (ha : a ∈ first :: rest) : a.distance ≤ first.distance :=
    not_lt.mp (h.isHeap.root ha)
  rw [HeapRow.checkedFlaggedHeapPush_ofSlots]
  by_cases hskip : first.distance ≤ slot.distance ∨ slot.index ∈ (first :: rest).map Slot.index
  · rw [if_pos hskip]
    refine ⟨first :: rest, ⟨h.length_eq, h.isHeap, h.nodup, fun a ha => ?_, fun push hpush => ?_⟩,
      rfl, by simp⟩
    · exact (h.origin a ha).imp_right (mem_append_left _)
    · rcases mem_append.mp hpush with hpush | hpush
      · exact h.nearest push hpush
      · obtain rfl := mem_singleton.mp hpush
        exact hskip.symm.imp_right fun hfar a ha => (hroot a ha).trans hfar
  · rw [if_neg hskip]
    obtain ⟨hnear, hnew⟩ := not_or.mp hskip
    rw [not_le] at hnear
    obtain ⟨hheap, hperm⟩ := @IsHeap.replaceRoot _ (Farther Slot.distance) _ _ _ slot _ h.isHeap
    generalize siftDown (Farther Slot.distance) (rest.length + 1) (slot :: rest) 0 = slots' at *
    have hslot : slot ∈ pushes ++ [slot] := mem_append_right _ mem_cons_self
    have hbound (a) (ha : a ∈ slots') : a.distance ≤ first.distance := by
      rcases mem_cons.mp (hperm.mem_iff.mp ha) with rfl | ha
      · exact hnear.le
      · exact hroot a (mem_cons_of_mem _ ha)
    refine ⟨slots', ⟨hperm.length_eq.trans h.length_eq, hheap, ?_, fun a ha => ?_,
      fun push hpush => ?_⟩, rfl, ?_⟩
    · have hfilter : ((slot :: rest).filter fun slot => 0 ≤ slot.index) =
          slot :: rest.filter fun slot => 0 ≤ slot.index :=
        filter_cons_of_pos (decide_eq_true (hpushes.index_nonneg slot hslot))
      rw [((hperm.filter _).map _).nodup_iff, hfilter, map_cons, nodup_cons]
      constructor
      · intro hmem
        exact hnew (mem_cons_of_mem _ (map_subset _ (filter_subset_self _) hmem))
      · exact h.nodup.sublist (((sublist_cons_self first rest).filter _).map _)
    · rcases mem_cons.mp (hperm.mem_iff.mp ha) with rfl | ha
      · exact .inr hslot
      · exact (h.origin a (mem_cons_of_mem _ ha)).imp_right (mem_append_left _)
    · rcases mem_append.mp hpush with hold | hpush
      · rcases h.nearest push hold with hmem | hfar
        · rcases mem_cons.mp hmem with hfirst | hmem
          · -- the neighbor at the root is dropped
            right
            have hfirst' : first ∈ pushes := by
              refine (h.origin first mem_cons_self).resolve_left fun hempty => ?_
              have hnonneg := hpushes.index_nonneg push (mem_append_left _ hold)
              rw [hfirst, hempty] at hnonneg
              exact not_nonneg_empty hnonneg
            have := hpushes.distance_eq push (mem_append_left _ hold) first
              (mem_append_left _ hfirst') hfirst
            exact fun a ha => this ▸ hbound a ha
          · exact .inl ((hperm.map _).mem_iff.mpr (mem_cons_of_mem _ hmem))
        · exact .inr fun a ha => (hbound a ha).trans (hfar first mem_cons_self)
      · obtain rfl := mem_singleton.mp hpush
        exact .inl (mem_map_of_mem (hperm.mem_iff.mpr mem_cons_self))
    · refine iff_of_true rfl fun heq => hnew ?_
      have hindices : slots'.map Slot.index = (first :: rest).map Slot.index :=
        congrArg HeapRow.indices heq
      rw [← hindices]
      exact mem_map_of_mem (hperm.mem_iff.mpr mem_cons_self)

/-! ## All pushes -/

def pushAll (size : ℕ) (pushes : List (Slot D)) : HeapRow D :=
  pushes.foldl (fun row slot => (row.checkedFlaggedHeapPush slot).1) (.make size)

theorem Consistent.left {pushes later : List (Slot D)} (h : Consistent (pushes ++ later)) :
    Consistent pushes where
  index_nonneg push hpush := h.index_nonneg push (mem_append_left _ hpush)
  distance_lt push hpush := h.distance_lt push (mem_append_left _ hpush)
  distance_eq push hpush other hother :=
    h.distance_eq push (mem_append_left _ hpush) other (mem_append_left _ hother)

theorem exists_kept {size : ℕ} (hsize : 1 ≤ size) {pushes : List (Slot D)}
    (hpushes : Consistent pushes) :
    ∃ slots, pushAll size pushes = .ofSlots slots ∧ Kept size pushes slots := by
  induction pushes using List.reverseRecOn with
  | nil => exact ⟨_, by simp [pushAll, HeapRow.make, HeapRow.ofSlots, Slot.empty], kept_make size⟩
  | append_singleton pushes slot ih =>
    obtain ⟨slots, hrow, hkept⟩ := ih hpushes.left
    obtain ⟨slots', hkept', hpush, -⟩ := hkept.push hsize hpushes
    refine ⟨slots', ?_, hkept'⟩
    rw [← hpush, ← hrow, pushAll, foldl_append]
    rfl

/-- The neighbors of a row, with their distances. -/
def neighbors (slots : List (Slot D)) : List (D × ℤ) :=
  (slots.filter fun slot => 0 ≤ slot.index).map fun slot => (slot.distance, slot.index)

/-- All but the nearest distinct neighbors are left out. -/
theorem Kept.exists_left {size : ℕ} {pushes slots : List (Slot D)} (h : Kept size pushes slots)
    (hpushes : Consistent pushes) :
    (neighbors slots).length = min size (neighbors pushes).dedup.length ∧
      ∃ left, (neighbors slots ++ left).Perm (neighbors pushes).dedup ∧
        ∀ a ∈ left, ∀ slot ∈ slots, slot.distance ≤ a.1 := by
  have hslots (slot) (hslot : slot ∈ slots) (hnonneg : 0 ≤ slot.index) : slot ∈ pushes :=
    (h.origin slot hslot).resolve_left fun hempty => not_nonneg_empty (hempty ▸ hnonneg)
  set left := (neighbors pushes).dedup.filter (· ∉ neighbors slots) with hleft
  have hfar (a) (ha : a ∈ left) (slot) (hslot : slot ∈ slots) : slot.distance ≤ a.1 := by
    obtain ⟨hmem, hout⟩ := mem_filter.mp ha
    obtain ⟨push, hpush, rfl⟩ := mem_map.mp (mem_dedup.mp hmem)
    have hpush := (mem_filter.mp hpush).1
    refine (h.nearest push hpush).resolve_left (fun hindex => ?_) slot hslot
    obtain ⟨kept, hkept, hindex⟩ := mem_map.mp hindex
    have hnonneg : 0 ≤ kept.index := hindex ▸ hpushes.index_nonneg push hpush
    have hdistance := hpushes.distance_eq kept (hslots kept hkept hnonneg) push hpush hindex
    refine of_decide_eq_true hout (mem_map.mpr ⟨kept, ?_, by rw [hdistance, hindex]⟩)
    exact mem_filter.mpr ⟨hkept, decide_eq_true hnonneg⟩
  have hsub : neighbors slots ⊆ (neighbors pushes).dedup := by
    intro a ha
    obtain ⟨slot, hslot, rfl⟩ := mem_map.mp ha
    obtain ⟨hslot, hnonneg⟩ := mem_filter.mp hslot
    refine mem_dedup.mpr (mem_map_of_mem (mem_filter.mpr ⟨?_, hnonneg⟩))
    exact hslots slot hslot (of_decide_eq_true hnonneg)
  have hnodup : (neighbors slots).Nodup := by
    refine Nodup.of_map Prod.snd ?_
    rw [neighbors, map_map]
    exact h.nodup
  have hperm : (neighbors slots ++ left).Perm (neighbors pushes).dedup := by
    refine (perm_ext_iff_of_nodup ?_ (nodup_dedup _)).mpr fun a => ?_
    · refine nodup_append'.mpr ⟨hnodup, (nodup_dedup _).filter _, fun a ha ha' => ?_⟩
      exact of_decide_eq_true (mem_filter.mp ha').2 ha
    · have := @hsub a
      simp only [hleft, mem_append, mem_filter, decide_eq_true_eq]
      tauto
  refine ⟨?_, left, hperm, hfar⟩
  have hlength := hperm.length_eq
  have hle : (neighbors slots).length ≤ size := by
    rw [neighbors, length_map, ← h.length_eq]
    exact length_filter_le _ _
  rw [length_append] at hlength
  rcases eq_or_ne left [] with hnil | hne
  · rw [hnil, length_nil] at hlength
    omega
  · -- no slot is empty
    obtain ⟨a, ha⟩ := exists_mem_of_ne_nil left hne
    obtain ⟨push, hpush, rfl⟩ := mem_map.mp (mem_dedup.mp (mem_filter.mp ha).1)
    have hfull : (slots.filter fun slot => 0 ≤ slot.index) = slots := by
      refine filter_eq_self.mpr fun slot hslot => decide_eq_true ?_
      rcases h.origin slot hslot with rfl | hslot'
      · exact absurd (hfar _ ha _ hslot)
          (not_le.mpr (hpushes.distance_lt push (mem_filter.mp hpush).1))
      · exact hpushes.index_nonneg slot hslot'
    have : (neighbors slots).length = size := by rw [neighbors, hfull, length_map, h.length_eq]
    omega

/-- Whatever is pushed, the row is a heap of the nearest neighbors, each once, padded with empty
slots, a push says whether it has changed the row, and the sort puts the row in ascending order. -/
theorem pushAll_spec {size : ℕ} (hsize : 1 ≤ size) {pushes : List (Slot D)}
    (hpushes : Consistent pushes) :
    ∃ slots, pushAll size pushes = .ofSlots slots ∧ slots.length = size ∧
      IsHeap (Farther Slot.distance) slots ∧
      ((slots.filter fun slot => 0 ≤ slot.index).map Slot.index).Nodup ∧
      (∀ slot ∈ slots, slot = .empty ∨ slot ∈ pushes) ∧
      ((neighbors slots).length = min size (neighbors pushes).dedup.length ∧
        ∃ left, (neighbors slots ++ left).Perm (neighbors pushes).dedup ∧
          ∀ a ∈ left, ∀ slot ∈ slots, slot.distance ≤ a.1) ∧
      (∀ earlier slot later, pushes = earlier ++ slot :: later →
        (((pushAll size earlier).checkedFlaggedHeapPush slot).2 = 1 ↔
          pushAll size (earlier ++ [slot]) ≠ pushAll size earlier)) ∧
      ∃ sorted, deheapSort (pushAll size pushes) = arrays sorted ∧
        sorted.Perm (slots.map fun slot => (slot.distance, slot.index)) ∧
        sorted.Pairwise fun a b => a.1 ≤ b.1 := by
  obtain ⟨slots, hrow, h⟩ := exists_kept hsize hpushes
  refine ⟨slots, hrow, h.length_eq, h.isHeap, h.nodup, h.origin, h.exists_left hpushes, ?_,
    hrow ▸ deheapSort_ofSlots h.isHeap (h.length_eq ▸ hsize)⟩
  intro earlier slot later hsplit
  rw [hsplit, append_cons] at hpushes
  have hconsistent : Consistent (earlier ++ [slot]) := hpushes.left
  obtain ⟨slots, hrow, hkept⟩ := exists_kept hsize hconsistent.left
  obtain ⟨slots', -, hpush, hchanged⟩ := hkept.push hsize hconsistent
  have hnext : pushAll size (earlier ++ [slot]) =
      ((pushAll size earlier).checkedFlaggedHeapPush slot).1 := by
    rw [pushAll, foldl_append]
    rfl
  rw [hnext, hrow, hpush]
  exact hchanged

/-- A neighbor that has been dropped comes back. -/
def fourPushes : List (Slot (Fin 10)) := [⟨5, 1, 1⟩, ⟨3, 2, 1⟩, ⟨4, 3, 0⟩, ⟨5, 1, 0⟩]

theorem pushAll_fourPushes :
    deheapSort (pushAll 2 fourPushes) = ([3, 4], [2, 3]) ∧
      ∃ slots, pushAll 2 fourPushes = .ofSlots slots ∧ slots.length = 2 ∧
        IsHeap (Farther Slot.distance) slots := by
  refine ⟨by decide, ?_⟩
  have hconsistent : Consistent fourPushes := ⟨by decide, by decide, by decide⟩
  obtain ⟨slots, hrow, hlength, hheap, -⟩ := pushAll_spec (by decide : 1 ≤ 2) hconsistent
  exact ⟨slots, hrow, hlength, hheap⟩

end DashQL.Umap
