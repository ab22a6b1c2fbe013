import Mathlib

/-!
# Doubly linked chains in a store

A store maps addresses to a pair of links.  A list of addresses is a segment of
the store if the links of each address are its neighbours in the list.  `Chains`
says that a family of lists are complete, disjoint chains of one store; an
operation that relinks a few addresses then changes one or two members of the
family and leaves the others alone, which is what the rules at the end of this
file state.

An operation returns `none` where it would follow a link of an address that is
not allocated, so a rule also says that the operation does not.
-/

namespace DashQL

open Function List Option

/-- The two links of a node. -/
structure Links (A : Type) where
  previous : Option A
  next : Option A

/-- The links of every allocated address. -/
abbrev LinkStore (A : Type) := A → Option (Links A)

namespace LinkStore

variable {A : Type}

/-! ## Segments -/

/-- The nodes are linked to each other in this order, the first one back to
`previous` and the last one on to `next`. -/
def Segment (store : LinkStore A) : Option A → List A → Option A → Prop
  | _, [], _ => True
  | previous, a :: rest, next =>
    store a = some ⟨previous, rest.head?.or next⟩ ∧ Segment store (some a) rest next

variable {previous : Option A}

theorem Segment.congr {store store' : LinkStore A} {next : Option A} {nodes : List A}
    (h : Segment store previous nodes next) (hsame : ∀ a ∈ nodes, store' a = store a) :
    Segment store' previous nodes next := by
  induction nodes generalizing previous with
  | nil => exact trivial
  | cons a rest ih =>
    obtain ⟨ha, hrest⟩ := h
    refine ⟨?_, ih hrest fun b hb => hsame b (mem_cons_of_mem a hb)⟩
    rw [hsame a (mem_cons_self ..), ha]

theorem segment_append {store : LinkStore A} {next : Option A} {left right : List A} :
    Segment store previous (left ++ right) next ↔
      Segment store previous left (right.head?.or next) ∧
        Segment store (left.getLast?.or previous) right next := by
  induction left generalizing previous with
  | nil => simp [Segment]
  | cons a rest ih =>
    simp only [cons_append, Segment, ih, head?_append, Option.or_assoc, and_assoc]
    rw [getLast?_cons, or_some, some_or]

theorem segment_focus {store : LinkStore A} {next : Option A} {left right : List A} {a : A} :
    Segment store previous (left ++ a :: right) next ↔
      Segment store previous left (some a) ∧
        store a = some ⟨left.getLast?.or previous, right.head?.or next⟩ ∧
        Segment store (some a) right next := by
  rw [segment_append]
  rfl

theorem Segment.allocated {store : LinkStore A} {next : Option A} {nodes : List A}
    (h : Segment store previous nodes next) : ∀ a ∈ nodes, store a ≠ none := by
  induction nodes generalizing previous with
  | nil => simp
  | cons a rest ih =>
    intro b hb
    rcases mem_cons.mp hb with rfl | hb
    · simp [h.1]
    · exact ih h.2 b hb

/-! ## Families of chains -/

/-- Each member of the family is a complete chain, and no node is in two places. -/
structure Chains {ι : Type} (store : LinkStore A) (chain : ι → List A) : Prop where
  segment : ∀ i, Segment store none (chain i) none
  nodup : ∀ i, (chain i).Nodup
  disjoint : ∀ i j, i ≠ j → List.Disjoint (chain i) (chain j)

namespace Chains

variable {ι : Type} {store : LinkStore A} {chain : ι → List A} {i j : ι} {a b : A}
  {left right : List A}

section

variable (h : Chains store chain)

include h

theorem not_mem_of_free (hfree : store a = none) (i : ι) : a ∉ chain i :=
  fun hmem => (h.segment i).allocated a hmem hfree

/-- Replacing some chains by chains of their nodes and of nodes outside the family. -/
theorem of_changed {store' : LinkStore A} {chain' : ι → List A} (changed : ι → Prop)
    (hsame : ∀ k, ¬ changed k → chain' k = chain k ∧ ∀ a ∈ chain k, store' a = store a)
    (hsegment : ∀ k, changed k → Segment store' none (chain' k) none ∧ (chain' k).Nodup)
    (hdisjoint : ∀ k l, changed k → changed l → k ≠ l → List.Disjoint (chain' k) (chain' l))
    (hnodes : ∀ k, changed k → ∀ a ∈ chain' k, (∃ l, changed l ∧ a ∈ chain l) ∨ ∀ l, a ∉ chain l) :
    Chains store' chain' := by
  have hold : ∀ k l, changed k → ¬ changed l → List.Disjoint (chain' k) (chain' l) := by
    intro k l hk hl a hak hal
    rw [(hsame l hl).1] at hal
    rcases hnodes k hk a hak with ⟨m, hm, ham⟩ | hnew
    · have hne : m ≠ l := fun heq => hl (heq ▸ hm)
      exact h.disjoint m l hne ham hal
    · exact hnew l hal
  refine ⟨?_, ?_, ?_⟩
  · intro k
    by_cases hk : changed k
    · exact (hsegment k hk).1
    · rw [(hsame k hk).1]
      exact (h.segment k).congr (hsame k hk).2
  · intro k
    by_cases hk : changed k
    · exact (hsegment k hk).2
    · rw [(hsame k hk).1]
      exact h.nodup k
  · intro k l hne
    by_cases hk : changed k
    · by_cases hl : changed l
      · exact hdisjoint k l hk hl hne
      · exact hold k l hk hl
    · by_cases hl : changed l
      · exact (hold l k hl hk).symm
      · rw [(hsame k hk).1, (hsame l hl).1]
        exact h.disjoint k l hne

/-- Replacing one chain by a chain of its nodes and of nodes outside the family,
when nothing else was relinked. -/
theorem update [DecidableEq ι] {store' : LinkStore A} {nodes : List A}
    (htouched : ∀ a, store' a ≠ store a → a ∈ chain i ∨ ∀ l, a ∉ chain l)
    (hsegment : Segment store' none nodes none) (hnodup : nodes.Nodup)
    (hnodes : ∀ a ∈ nodes, a ∈ chain i ∨ ∀ l, a ∉ chain l) :
    Chains store' (Function.update chain i nodes) := by
  refine h.of_changed (· = i) ?_ ?_ ?_ ?_
  · intro k hk
    refine ⟨update_of_ne hk .., fun a ha => ?_⟩
    by_contra hne
    rcases htouched a hne with hi | hnew
    · exact h.disjoint k i hk ha hi
    · exact hnew k ha
  · rintro k rfl
    rw [update_self]
    exact ⟨hsegment, hnodup⟩
  · rintro k l rfl rfl hne
    exact absurd rfl hne
  · rintro k rfl a ha
    rw [update_self] at ha
    exact (hnodes a ha).imp_left fun ha => ⟨k, rfl, ha⟩

/-- The links of a node are its neighbours. -/
theorem links_eq (hi : chain i = left ++ a :: right) :
    store a = some ⟨left.getLast?, right.head?⟩ := by
  have hsegment := h.segment i
  rw [hi] at hsegment
  simpa using (segment_focus.mp hsegment).2.1

end

end Chains

section Operations

variable [DecidableEq A]

/-! ## Operations -/

def setNext (store : LinkStore A) (a : A) (next : Option A) : Option (LinkStore A) :=
  (store a).map fun links => Function.update store a (some { links with next := next })

def setPrevious (store : LinkStore A) (a : A) (previous : Option A) : Option (LinkStore A) :=
  (store a).map fun links => Function.update store a (some { links with previous := previous })

/-- Adds an unlinked node. -/
def allocate (store : LinkStore A) (a : A) : LinkStore A :=
  Function.update store a (some ⟨none, none⟩)

/-- Makes `b` the next node of `a`; a node that followed `a` follows `b` now. -/
def linkRight (store : LinkStore A) (a b : A) : Option (LinkStore A) := do
  let links ← store a
  let store ← match links.next with
    | none => pure store
    | some next => (store.setNext b (some next)).bind fun store => store.setPrevious next (some b)
  let store ← store.setNext a (some b)
  store.setPrevious b (some a)

/-- Makes two nodes neighbours. -/
def connect (store : LinkStore A) (a b : A) : Option (LinkStore A) :=
  (store.setNext a (some b)).bind fun store => store.setPrevious b (some a)

/-! ## What the operations never do -/

/-- No node is allocated that was not. -/
def NoNewNodes (store store' : LinkStore A) : Prop := ∀ a, store a = none → store' a = none

section NoNewNodes

variable {store store' store'' : LinkStore A} {a b : A}

omit [DecidableEq A] in
theorem NoNewNodes.trans (h : NoNewNodes store store') (h' : NoNewNodes store' store'') :
    NoNewNodes store store'' := fun a ha => h' a (h a ha)

theorem NoNewNodes.update {links : Option (Links A)} (ha : store a ≠ none) :
    NoNewNodes store (Function.update store a links) := by
  intro b hb
  have hne : b ≠ a := by
    rintro rfl
    exact ha hb
  rwa [update_of_ne hne]

theorem noNewNodes_setNext {next : Option A} (h : store.setNext a next = some store') :
    NoNewNodes store store' := by
  obtain ⟨links, hlinks, rfl⟩ := map_eq_some_iff.mp h
  exact NoNewNodes.update (by simp [hlinks])

theorem noNewNodes_setPrevious (h : store.setPrevious a previous = some store') :
    NoNewNodes store store' := by
  obtain ⟨links, hlinks, rfl⟩ := map_eq_some_iff.mp h
  exact NoNewNodes.update (by simp [hlinks])

theorem noNewNodes_connect (h : store.connect a b = some store') : NoNewNodes store store' := by
  obtain ⟨middle, hnext, hprevious⟩ := bind_eq_some_iff.mp h
  exact (noNewNodes_setNext hnext).trans (noNewNodes_setPrevious hprevious)

end NoNewNodes

/-! ## Rules -/

namespace Chains

variable {ι : Type} {store : LinkStore A} {chain : ι → List A} {i j : ι} {a b : A}
  {left right : List A}

/-- A new node is in no chain. -/
theorem allocate (h : Chains store chain) (hfree : store a = none) :
    Chains (store.allocate a) chain ∧ ∀ l, a ∉ chain l := by
  have hnew : ∀ l, a ∉ chain l := h.not_mem_of_free hfree
  refine ⟨⟨fun k => (h.segment k).congr ?_, h.nodup, h.disjoint⟩, hnew⟩
  intro b hb
  have hne : b ≠ a := fun heq => hnew k (heq ▸ hb)
  exact update_of_ne hne ..

/-- Linking to the right of the last node of a chain, where nothing follows. -/
theorem linkRight_eq_connect (h : Chains store chain) (hi : chain i = left ++ [a]) :
    store.linkRight a b = store.connect a b := by
  simp [LinkStore.linkRight, LinkStore.connect, h.links_eq hi]

variable [DecidableEq ι]

theorem linkRight (h : Chains store chain) (hi : chain i = left ++ a :: right)
    (hb : store b = some ⟨none, none⟩) (hnew : ∀ l, b ∉ chain l) :
    ∃ store', store.linkRight a b = some store' ∧
      Chains store' (Function.update chain i (left ++ a :: b :: right)) := by
  have hsegment := h.segment i
  have hnodup := h.nodup i
  have hbi := hnew i
  rw [hi] at hsegment hnodup hbi
  obtain ⟨hleft, ha, hright⟩ := segment_focus.mp hsegment
  have hba : b ≠ a := by grind
  have hal : a ∉ left := by grind
  have har : a ∉ right := by grind
  have hbl : b ∉ left := by grind
  have hbr : b ∉ right := by grind
  have hnodup' : (left ++ a :: b :: right).Nodup := by grind
  have hnodes : ∀ x ∈ left ++ a :: b :: right, x ∈ chain i ∨ ∀ l, x ∉ chain l := by
    rw [hi]
    grind
  cases right with
  | nil =>
    refine ⟨_, by simp [LinkStore.linkRight, ha, setNext, setPrevious, hba, hb]; rfl,
      h.update ?_ ?_ hnodup' hnodes⟩
    · intro x hx
      rw [hi]
      grind [update_apply]
    · refine segment_focus.mpr ⟨hleft.congr ?_, ?_, ?_⟩
      · grind [update_apply]
      · simp [hba.symm]
      · simp [Segment]
  | cons next rest =>
    obtain ⟨hnext, hrest⟩ := hright
    have hna : next ≠ a := by grind
    have hnb : next ≠ b := by grind
    have hnl : next ∉ left := by grind
    have hnr : next ∉ rest := by grind
    refine ⟨_, by simp [LinkStore.linkRight, ha, setNext, setPrevious, hba, hba.symm, hna.symm,
      hb, hnext, hnb, hnb.symm]; rfl, h.update ?_ ?_ hnodup' hnodes⟩
    · intro x hx
      rw [hi]
      grind [update_apply]
    · refine segment_focus.mpr ⟨hleft.congr ?_, ?_, ?_, ?_, hrest.congr ?_⟩
      · grind [update_apply]
      · simp [hba.symm]
      · simp
      · simp [hna, hnb]
      · grind [update_apply]

/-- A new node alone in a chain. -/
theorem allocate_single (h : Chains store chain) (hfree : store a = none) (i : ι) :
    Chains (store.allocate a) (Function.update chain i [a]) := by
  have hnew : ∀ l, a ∉ chain l := h.not_mem_of_free hfree
  refine h.update ?_ ?_ (nodup_singleton a) ?_
  · intro x hx
    have hxa : x = a := by
      by_contra hne
      exact hx (update_of_ne hne ..)
    rw [hxa]
    exact Or.inr hnew
  · simp [LinkStore.allocate, Segment]
  · intro x hx
    rw [mem_singleton.mp hx]
    exact Or.inr hnew

end Chains

end Operations

end LinkStore

end DashQL
