import Mathlib.Data.List.Perm.Basic
import Mathlib.Data.List.Pairwise

/-!
# Buffers with links in both directions

The nodes of a buffer have the indices of their children and the index of their parent.
The buffer is filled from below: a node that is still outside, a head, knows its children
already, and they have no parent until the head is put behind them (`Adopts`).  `Linked` is
what holds in between: parents and children agree, and the nodes without a parent are the
children of exactly one head, or loose.
-/

namespace DashQL

open List Option

variable {ν : Type*}

section Definitions

variable (children : ν → List ℕ) (parent : ν → Option ℕ)

/-- Nodes in a buffer, and the heads that are still outside. -/
structure Linked (buffer heads : List ν) (loose : List ℕ) : Prop where
  children_lt : ∀ i n, buffer[i]? = some n → ∀ c ∈ children n, c < i
  head_lt : ∀ head ∈ heads, ∀ c ∈ children head, c < buffer.length
  loose_lt : ∀ c ∈ loose, c < buffer.length
  parent_iff : ∀ i n, buffer[i]? = some n → ∀ p,
    parent n = some p ↔ ∃ m, buffer[p]? = some m ∧ i ∈ children m
  open_iff : ∀ i n, buffer[i]? = some n →
    (parent n = none ↔ (∃ head ∈ heads, i ∈ children head) ∨ i ∈ loose)
  heads_disjoint : heads.Pairwise fun head head' => ∀ c ∈ children head, c ∉ children head'
  loose_disjoint : ∀ head ∈ heads, ∀ c ∈ children head, c ∉ loose

/-- A head is put behind a buffer and becomes the parent of its children. -/
structure Adopts (buffer : List ν) (head : ν) (buffer' : List ν) : Prop where
  length_eq : buffer'.length = buffer.length + 1
  kept : ∀ i n, buffer[i]? = some n → ∃ n', buffer'[i]? = some n' ∧ children n' = children n ∧
    parent n' = if i ∈ children head then some buffer.length else parent n
  last : ∃ n', buffer'[buffer.length]? = some n' ∧ children n' = children head ∧
    parent n' = none

end Definitions

variable {children : ν → List ℕ} {parent : ν → Option ℕ} {buffer buffer' heads heads' : List ν}
  {head : ν} {loose : List ℕ}

theorem linked_nil : Linked children parent [] [] [] where
  children_lt i n h := by simp at h
  head_lt head h := absurd h not_mem_nil
  loose_lt c h := absurd h not_mem_nil
  parent_iff i n h := by simp at h
  open_iff i n h := by simp at h
  heads_disjoint := .nil
  loose_disjoint head h := absurd h not_mem_nil

namespace Linked

/-- The order of the heads does not matter. -/
theorem perm (h : Linked children parent buffer heads loose) (hperm : heads.Perm heads') :
    Linked children parent buffer heads' loose where
  children_lt := h.children_lt
  head_lt head hhead := h.head_lt head (hperm.mem_iff.mpr hhead)
  loose_lt := h.loose_lt
  parent_iff := h.parent_iff
  open_iff i n hn := by simp only [h.open_iff i n hn, hperm.mem_iff]
  heads_disjoint :=
    h.heads_disjoint.perm hperm fun hdisjoint c hc hc' => hdisjoint c hc' hc
  loose_disjoint head hhead := h.loose_disjoint head (hperm.mem_iff.mpr hhead)

/-- What a node of the new buffer was before. -/
theorem of_adopts (hadopts : Adopts children parent buffer head buffer') {i : ℕ} {n' : ν}
    (hn' : buffer'[i]? = some n') :
    (∃ n, buffer[i]? = some n ∧ children n' = children n ∧
      parent n' = if i ∈ children head then some buffer.length else parent n) ∨
    (i = buffer.length ∧ children n' = children head ∧ parent n' = none) := by
  have hi : i < buffer.length + 1 := by
    have hlt := (List.getElem?_eq_some_iff.mp hn').1
    rwa [hadopts.length_eq] at hlt
  rcases Nat.lt_succ_iff_lt_or_eq.mp hi with hlt | rfl
  · obtain ⟨m, hm, hchildren, hparent⟩ := hadopts.kept i _ (getElem?_eq_getElem hlt)
    obtain rfl : m = n' := some.inj (hm.symm.trans hn')
    exact .inl ⟨_, getElem?_eq_getElem hlt, hchildren, hparent⟩
  · obtain ⟨m, hm, hchildren, hparent⟩ := hadopts.last
    obtain rfl : m = n' := some.inj (hm.symm.trans hn')
    exact .inr ⟨rfl, hchildren, hparent⟩

/-- A child of a node in the old buffer is a child of that node in the new one. -/
theorem child_of_kept (hadopts : Adopts children parent buffer head buffer') {i p : ℕ} {m : ν}
    (hm : buffer[p]? = some m) (hi : i ∈ children m) :
    ∃ m', buffer'[p]? = some m' ∧ i ∈ children m' := by
  obtain ⟨m', hm', hchildren, -⟩ := hadopts.kept p m hm
  exact ⟨m', hm', hchildren ▸ hi⟩

section

variable (h : Linked children parent buffer (head :: heads) loose)

include h

theorem adopt_parent_iff (hadopts : Adopts children parent buffer head buffer') {i : ℕ} {n' : ν}
    (hn' : buffer'[i]? = some n') (p : ℕ) :
    parent n' = some p ↔ ∃ m, buffer'[p]? = some m ∧ i ∈ children m := by
  have hhead := h.head_lt head mem_cons_self
  rcases of_adopts hadopts hn' with ⟨n, hn, -, hparent⟩ | ⟨rfl, -, hparent⟩
  · by_cases hadopted : i ∈ children head
    · -- an open node that now has the head as its only parent
      have hopen : parent n = none :=
        (h.open_iff i n hn).mpr (.inl ⟨head, mem_cons_self, hadopted⟩)
      rw [hparent, if_pos hadopted, some_inj]
      constructor
      · rintro rfl
        obtain ⟨m, hm, hchildren, -⟩ := hadopts.last
        exact ⟨m, hm, hchildren ▸ hadopted⟩
      · rintro ⟨m, hm, him⟩
        rcases of_adopts hadopts hm with ⟨m₀, hm₀, hchildren, -⟩ | ⟨rfl, -, -⟩
        · have hsome := (h.parent_iff i n hn p).mpr ⟨m₀, hm₀, hchildren ▸ him⟩
          exact absurd (hopen.symm.trans hsome) (some_ne_none p).symm
        · rfl
    · rw [hparent, if_neg hadopted, h.parent_iff i n hn p]
      constructor
      · rintro ⟨m, hm, him⟩
        exact child_of_kept hadopts hm him
      · rintro ⟨m, hm, him⟩
        rcases of_adopts hadopts hm with ⟨m₀, hm₀, hchildren, -⟩ | ⟨rfl, hchildren, -⟩
        · exact ⟨m₀, hm₀, hchildren ▸ him⟩
        · exact absurd (hchildren ▸ him) hadopted
  · -- nothing has the new node as a child yet
    rw [hparent]
    refine iff_of_false (some_ne_none p).symm ?_
    rintro ⟨m, hm, him⟩
    rcases of_adopts hadopts hm with ⟨m₀, hm₀, hchildren, -⟩ | ⟨rfl, hchildren, -⟩
    · have hp := (List.getElem?_eq_some_iff.mp hm₀).1
      have hlt := h.children_lt p m₀ hm₀ _ (hchildren ▸ him)
      omega
    · exact absurd (hhead _ (hchildren ▸ him)) (Nat.lt_irrefl _)

/-- After a head was put into the buffer, the nodes without a parent are the ones that other
heads have, and the loose ones with the new node. -/
theorem adopt_open_iff (hadopts : Adopts children parent buffer head buffer') {i : ℕ} {n' : ν}
    (hn' : buffer'[i]? = some n') :
    parent n' = none ↔ (∃ other ∈ heads, i ∈ children other) ∨ i ∈ loose ++ [buffer.length] := by
  have hfirst := (pairwise_cons.mp h.heads_disjoint).1
  rcases of_adopts hadopts hn' with ⟨n, hn, -, hparent⟩ | ⟨rfl, -, hparent⟩
  · have hi := (List.getElem?_eq_some_iff.mp hn).1
    have hloose : i ∈ loose ++ [buffer.length] ↔ i ∈ loose := by
      rw [mem_append, mem_singleton]
      exact or_iff_left (Nat.ne_of_lt hi)
    rw [hloose]
    by_cases hadopted : i ∈ children head
    · rw [hparent, if_pos hadopted]
      refine iff_of_false (some_ne_none _) ?_
      rintro (⟨other, hother, hmem⟩ | hmem)
      · exact hfirst other hother i hadopted hmem
      · exact h.loose_disjoint head mem_cons_self i hadopted hmem
    · rw [hparent, if_neg hadopted, h.open_iff i n hn]
      constructor
      · rintro (⟨other, hother, hmem⟩ | hmem)
        · rcases mem_cons.mp hother with rfl | hother
          · exact absurd hmem hadopted
          · exact .inl ⟨other, hother, hmem⟩
        · exact .inr hmem
      · rintro (⟨other, hother, hmem⟩ | hmem)
        · exact .inl ⟨other, mem_cons_of_mem _ hother, hmem⟩
        · exact .inr hmem
  · rw [hparent]
    exact iff_of_true rfl (.inr (mem_append_right _ (mem_singleton_self _)))

theorem adopt (hadopts : Adopts children parent buffer head buffer') :
    Linked children parent buffer' heads (loose ++ [buffer.length]) where
  children_lt i n' hn' c hc := by
    rcases of_adopts hadopts hn' with ⟨n, hn, hchildren, -⟩ | ⟨rfl, hchildren, -⟩
    · exact h.children_lt i n hn c (hchildren ▸ hc)
    · exact h.head_lt head mem_cons_self c (hchildren ▸ hc)
  head_lt other hother c hc := by
    rw [hadopts.length_eq]
    exact Nat.lt_succ_of_lt (h.head_lt other (mem_cons_of_mem _ hother) c hc)
  loose_lt c hc := by
    rw [hadopts.length_eq]
    rcases mem_append.mp hc with hc | hc
    · exact Nat.lt_succ_of_lt (h.loose_lt c hc)
    · rw [mem_singleton.mp hc]
      exact Nat.lt_succ_self _
  parent_iff _ _ hn' := h.adopt_parent_iff hadopts hn'
  open_iff _ _ hn' := h.adopt_open_iff hadopts hn'
  heads_disjoint := (pairwise_cons.mp h.heads_disjoint).2
  loose_disjoint other hother c hc hmem := by
    rcases mem_append.mp hmem with hmem | hmem
    · exact h.loose_disjoint other (mem_cons_of_mem _ hother) c hc hmem
    · have hlt := h.head_lt other (mem_cons_of_mem _ hother) c hc
      rw [mem_singleton.mp hmem] at hlt
      exact Nat.lt_irrefl _ hlt

end

theorem gather (h : Linked children parent buffer heads loose) (hchildren : children head = loose) :
    Linked children parent buffer (head :: heads) [] where
  children_lt := h.children_lt
  head_lt other hother := by
    rcases mem_cons.mp hother with rfl | hother
    · exact hchildren ▸ h.loose_lt
    · exact h.head_lt other hother
  loose_lt c hc := absurd hc not_mem_nil
  parent_iff := h.parent_iff
  open_iff i n hn := by
    rw [h.open_iff i n hn]
    constructor
    · rintro (⟨other, hother, hmem⟩ | hmem)
      · exact .inl ⟨other, mem_cons_of_mem _ hother, hmem⟩
      · exact .inl ⟨head, mem_cons_self, hchildren ▸ hmem⟩
    · rintro (⟨other, hother, hmem⟩ | hmem)
      · rcases mem_cons.mp hother with rfl | hother
        · exact .inr (hchildren ▸ hmem)
        · exact .inl ⟨other, hother, hmem⟩
      · exact absurd hmem not_mem_nil
  heads_disjoint :=
    pairwise_cons.mpr
      ⟨fun other hother c hc hc' => h.loose_disjoint other hother c hc' (hchildren ▸ hc),
        h.heads_disjoint⟩
  loose_disjoint other _ c _ := not_mem_nil

end Linked

end DashQL
