import DashQL.Library.Heaps

/-!
# The top-k heap

A min-heap of the best elements so far, with the worst of them at the root: once it is full, a
better element replaces the root and is sifted down.  `finish_insertAll` says that whatever is
inserted, the best of it comes out in descending order.
-/

namespace DashQL.Utils

open List Heaps

variable {α : Type*} (lt : α → α → Prop)

/-- `std::sort`, which leaves the order of equivalent elements open. -/
structure StdSort where
  run : List α → List α
  perm : ∀ l, (run l).Perm l
  sorted : ∀ l, (run l).Pairwise fun a b => ¬ lt b a

/-- A stable sort is one of them. -/
def StdSort.stable [DecidableRel lt] [IsStrictWeakOrder α lt] : StdSort lt where
  run l := l.insertionSort fun a b => ¬ lt b a
  perm := perm_insertionSort _
  sorted l :=
    @pairwise_insertionSort _ (fun a b => ¬ lt b a) _
      ⟨fun a b => (em (lt b a)).symm.imp id fun h => not_lt_of_lt h⟩
      ⟨fun _ _ _ => not_lt_trans⟩ l

/-- `TopKHeap`, with room for a number of entries. -/
structure TopKHeap (α : Type*) where
  capacity : ℕ
  entries : List α := []

namespace TopKHeap

variable [DecidableRel lt]

/-- `Insert`; `FixHeap` sifts the root down. -/
def insert (sort : StdSort lt) (heap : TopKHeap α) (value : α) : TopKHeap α :=
  if heap.entries.length < heap.capacity then
    let entries := heap.entries ++ [value]
    { heap with entries := if entries.length = heap.capacity then sort.run entries else entries }
  else
    match heap.entries with
    | [] => heap
    | first :: rest =>
      if lt first value then
        { heap with entries := siftDown lt (rest.length + 1) (value :: rest) 0 }
      else heap

/-- `Finish`, which sorts in descending order. -/
def finish (sort : StdSort fun a b => lt b a) (heap : TopKHeap α) : List α := sort.run heap.entries

variable {lt}

/-- The heap has the best of the values: all of them, or as many as it has room for. -/
structure Best (lt : α → α → Prop) (capacity : ℕ) (values : List α) (heap : TopKHeap α)
    (dropped : List α) : Prop where
  capacity_eq : heap.capacity = capacity
  perm : (heap.entries ++ dropped).Perm values
  kept : dropped = [] ∧ heap.entries.length < capacity ∨
    heap.entries.length = capacity ∧ IsHeap lt heap.entries ∧
      ∀ d ∈ dropped, ∀ e ∈ heap.entries, ¬ lt e d

variable [IsStrictWeakOrder α lt] {capacity : ℕ} {values dropped : List α} {heap : TopKHeap α}

theorem Best.insert (h : Best lt capacity values heap dropped) (hcapacity : 1 ≤ capacity)
    (sort : StdSort lt) (value : α) :
    ∃ dropped', Best lt capacity (values ++ [value]) (heap.insert lt sort value) dropped' := by
  unfold TopKHeap.insert
  rw [h.capacity_eq]
  rcases h.kept with ⟨rfl, hlt⟩ | ⟨hfull, hheap, hdropped⟩
  · have hperm : (heap.entries ++ [value] ++ []).Perm (values ++ [value]) := by
      rw [append_nil, ← append_nil heap.entries]
      exact h.perm.append_right _
    rw [if_pos hlt]
    dsimp only
    split_ifs with hend
    · exact ⟨[], rfl, ((sort.perm _).append_right _).trans hperm,
        .inr ⟨(sort.perm _).length_eq.trans hend, isHeap_of_sorted (sort.sorted _), by simp⟩⟩
    · rw [length_append, length_singleton] at hend
      exact ⟨[], rfl, hperm, .inl ⟨rfl, by rw [length_append, length_singleton]; omega⟩⟩
  · rw [if_neg (by omega)]
    obtain ⟨first, rest, hentries⟩ := exists_cons_of_length_pos (by omega : 0 < heap.entries.length)
    have hperm : (value :: (heap.entries ++ dropped)).Perm (values ++ [value]) :=
      (h.perm.cons value).trans (perm_append_singleton value values).symm
    rw [hentries] at hheap hdropped hfull hperm ⊢
    dsimp only
    by_cases hbetter : lt first value
    · -- the root is dropped
      obtain ⟨hheap', hperm'⟩ := @IsHeap.replaceRoot _ _ _ _ _ value _ hheap
      rw [if_pos hbetter]
      refine ⟨first :: dropped, rfl, ?_, .inr ⟨hperm'.length_eq.trans hfull, hheap', ?_⟩⟩
      · refine ((hperm'.append_right _).trans ?_).trans hperm
        exact (@perm_middle _ _ rest _).cons value
      · have hbehind (d) (hd : d ∈ first :: dropped) : ¬ lt first d := by
          rcases mem_cons.mp hd with rfl | hd
          · exact irrefl d
          · exact hdropped d hd first mem_cons_self
        intro d hd e he
        rcases mem_cons.mp (hperm'.mem_iff.mp he) with rfl | he
        · exact not_lt_trans (hbehind d hd) (not_lt_of_lt hbetter)
        · exact not_lt_trans (hbehind d hd) (hheap.root (mem_cons_of_mem _ he))
    · rw [if_neg hbetter]
      refine ⟨value :: dropped, h.capacity_eq, hentries ▸ perm_middle.trans hperm,
        .inr ⟨hentries ▸ hfull, hentries ▸ hheap, hentries ▸ fun d hd e he => ?_⟩⟩
      rcases mem_cons.mp hd with rfl | hd
      · exact not_lt_trans hbetter (hheap.root he)
      · exact hdropped d hd e he

/-- The heap after some insertions. -/
def insertAll (lt : α → α → Prop) [DecidableRel lt] (sort : StdSort lt) (capacity : ℕ)
    (values : List α) : TopKHeap α :=
  values.foldl (insert lt sort) { capacity := capacity }

theorem exists_best (sort : StdSort lt) (hcapacity : 1 ≤ capacity) (values : List α) :
    ∃ dropped, Best lt capacity values (insertAll lt sort capacity values) dropped := by
  induction values using List.reverseRecOn with
  | nil => exact ⟨[], rfl, .refl [], .inl ⟨rfl, hcapacity⟩⟩
  | append_singleton values value ih =>
    obtain ⟨dropped, h⟩ := ih
    unfold insertAll at h ⊢
    rw [foldl_append]
    exact h.insert hcapacity sort value

/-- As many of the values as fit, in descending order, and none that is left out is greater than one
of them. -/
structure TopOf (lt : α → α → Prop) (capacity : ℕ) (values result : List α) : Prop where
  length_eq : result.length = min capacity values.length
  descending : result.Pairwise fun a b => ¬ lt a b
  exists_dropped : ∃ dropped, (result ++ dropped).Perm values ∧
    ∀ d ∈ dropped, ∀ a ∈ result, ¬ lt a d

theorem topOf_finish (sort : StdSort lt) (descending : StdSort fun a b => lt b a)
    (hcapacity : 1 ≤ capacity) (values : List α) :
    TopOf lt capacity values (finish lt descending (insertAll lt sort capacity values)) := by
  set result := finish lt descending (insertAll lt sort capacity values)
  obtain ⟨dropped, h⟩ := exists_best sort hcapacity values
  have hresult : result.Perm (insertAll lt sort capacity values).entries := descending.perm _
  have hlength := h.perm.length_eq
  rw [length_append] at hlength
  refine ⟨?_, descending.sorted _, dropped, (hresult.append_right _).trans h.perm, ?_⟩
  · rw [hresult.length_eq]
    rcases h.kept with ⟨rfl, hlt⟩ | ⟨hfull, -⟩
    · rw [length_nil] at hlength
      omega
    · omega
  · intro d hd a ha
    rcases h.kept with ⟨rfl, -⟩ | ⟨-, -, hdropped⟩
    · cases hd
    · exact hdropped d hd a (hresult.mem_iff.mp ha)

/-- Whatever is inserted, the greatest of it comes out. -/
theorem finish_insertAll (sort : StdSort lt) (descending : StdSort fun a b => lt b a)
    (hcapacity : 1 ≤ capacity) (values : List α) :
    let result := finish lt descending (insertAll lt sort capacity values)
    result.length = min capacity values.length ∧ result.Pairwise (fun a b => ¬ lt a b) ∧
      ∃ dropped, (result ++ dropped).Perm values ∧ ∀ d ∈ dropped, ∀ a ∈ result, ¬ lt a d :=
  have h := topOf_finish sort descending hcapacity values
  ⟨h.length_eq, h.descending, h.exists_dropped⟩

/-- Of four insertions into a heap with room for two, the greatest two come out. -/
theorem finish_insertAll_two :
    let ascending : StdSort fun a b : ℕ => a < b := .stable _
    let descending : StdSort fun a b : ℕ => b < a := .stable _
    finish (· < ·) descending (insertAll (· < ·) ascending 2 [1, 4, 2, 3]) = [4, 3] ∧
      (finish (· < ·) descending (insertAll (· < ·) ascending 2 [1, 4, 2, 3])).Pairwise
        fun a b => ¬ a < b :=
  ⟨by decide, (finish_insertAll _ _ (by decide) [1, 4, 2, 3]).2.1⟩

end TopKHeap

end DashQL.Utils
