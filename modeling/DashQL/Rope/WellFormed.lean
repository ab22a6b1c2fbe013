import DashQL.Library.LinkedChains
import DashQL.Rope.Node

/-!
# Well-formed ropes

A rope is a tree, the statistics of its whole text and its first leaf.  That all
leaves have the same depth is part of the type of the tree; `WellFormed` adds that
the tree holds a text within its capacities, that the recorded height and the
statistics are those of the tree, and that the nodes of every level are chained in
the order of the tree.

Every node lives on a page of its own, and the nodes of one level of a rope are
doubly linked.  `Pages` keeps these links for every allocated page, of all ropes.
`Owned` says that a family of lists of pages are disjoint chains of the store:
the levels of one rope, or those of several.

The rules of this file state what the operations of the code on links do to such a
family.  Following a null pointer, or one to a deleted page, has no result, so a
rule says as well that this does not happen.

`Rope.toString` follows the chain of leaves, and `toString_eq` says that it reads
the text.
-/

namespace DashQL

open List Option

namespace Rope

/-! ## Pages -/

/-- The links of the allocated pages, and the first address that was never used. -/
structure Pages where
  links : LinkStore PageId
  nextPage : PageId
  fresh : ∀ page, nextPage ≤ page → links page = none

namespace Pages

/-- Before the first allocation. -/
def empty : Pages := ⟨fun _ => none, 0, fun _ _ => rfl⟩

/-- A page that was not used before, with a node without neighbours. -/
def allocate (pages : Pages) : PageId × Pages :=
  (pages.nextPage,
    { links := pages.links.allocate pages.nextPage
      nextPage := pages.nextPage + 1
      fresh := fun page hpage =>
        (Function.update_of_ne (Nat.ne_of_gt hpage) ..).trans
          (pages.fresh page (Nat.le_of_succ_le hpage)) })

/-- Changes links without allocating pages. -/
def relink (pages : Pages) (update : LinkStore PageId → Option (LinkStore PageId))
    (hkeeps : ∀ {links links'}, update links = some links' → LinkStore.NoNewNodes links links') :
    Option Pages :=
  match h : update pages.links with
  | none => none
  | some links =>
    some ⟨links, pages.nextPage, fun page hpage => hkeeps h page (pages.fresh page hpage)⟩

/-- Makes two nodes neighbours. -/
def connect (pages : Pages) (left right : PageId) : Option Pages :=
  pages.relink (fun links => links.connect left right) LinkStore.noNewNodes_connect

/-- A new node behind the last node of a level, if there is one. -/
def allocateNext (pages : Pages) (prev : Option PageId) : Option (PageId × Pages) := do
  let (page, pages) := pages.allocate
  match prev with
  | none => return (page, pages)
  | some prev =>
    let pages ← pages.connect prev page
    return (page, pages)

theorem relink_eq {pages : Pages} {update : LinkStore PageId → Option (LinkStore PageId)}
    {links : LinkStore PageId} (hupdate : update pages.links = some links)
    (hkeeps : ∀ {links links'}, update links = some links' → LinkStore.NoNewNodes links links') :
    ∃ pages' : Pages, pages.relink update hkeeps = some pages' ∧ pages'.links = links ∧
      pages'.nextPage = pages.nextPage := by
  rw [relink]
  split
  · simp_all
  · rename_i links' hlinks
    rw [hupdate] at hlinks
    obtain rfl := Option.some.inj hlinks
    exact ⟨_, rfl, rfl, rfl⟩

end Pages

/-- The members of the family are disjoint, complete chains of allocated pages. -/
def Owned {ι : Type} (pages : Pages) (chain : ι → List PageId) : Prop :=
  LinkStore.Chains pages.links chain

namespace Owned

variable {ι : Type} {pages : Pages} {chain : ι → List PageId} {i j : ι} {a b : PageId}
  {left right : List PageId}

theorem congr (h : Owned pages chain) {chain' : ι → List PageId} (hsame : ∀ k, chain' k = chain k) :
    Owned pages chain' := by
  obtain rfl : chain' = chain := funext hsame
  exact h

theorem nil : Owned pages fun _ : ι => [] :=
  ⟨fun _ => trivial, fun _ => List.nodup_nil, fun _ _ _ => List.disjoint_nil_left _⟩

theorem nextPage_free (pages : Pages) : pages.links pages.nextPage = none :=
  pages.fresh _ le_rfl

/-- A new page is in no chain. -/
theorem allocate (h : Owned pages chain) :
    Owned pages.allocate.2 chain ∧ (∀ l, pages.allocate.1 ∉ chain l) ∧
      pages.allocate.2.links pages.allocate.1 = some ⟨none, none⟩ := by
  obtain ⟨hchains, hnew⟩ := LinkStore.Chains.allocate h (nextPage_free pages)
  exact ⟨hchains, hnew, Function.update_self ..⟩

variable [DecidableEq ι]

/-- A new page as the only one of a level. -/
theorem allocate_single (h : Owned pages chain) (i : ι) :
    Owned pages.allocate.2 (Function.update chain i [pages.allocate.1]) :=
  LinkStore.Chains.allocate_single h (nextPage_free pages) i

theorem allocateNext (h : Owned pages chain) (i : ι) :
    ∃ page pages', pages.allocateNext (chain i).getLast? = some (page, pages') ∧
      Owned pages' (Function.update chain i (chain i ++ [page])) := by
  rcases List.eq_nil_or_concat' (chain i) with hi | ⟨nodes, last, hi⟩
  · refine ⟨pages.allocate.1, pages.allocate.2, ?_, ?_⟩
    · rw [hi]
      rfl
    · rw [hi]
      exact h.allocate_single i
  · obtain ⟨howned, hnew, hlinks⟩ := h.allocate
    obtain ⟨links, hlink, hchains⟩ := LinkStore.Chains.linkRight howned hi hlinks hnew
    rw [LinkStore.Chains.linkRight_eq_connect howned hi] at hlink
    obtain ⟨pages', hpages, rfl, -⟩ := Pages.relink_eq hlink LinkStore.noNewNodes_connect
    refine ⟨pages.allocate.1, pages', ?_, ?_⟩
    · rw [hi, List.getLast?_concat]
      simp [Pages.allocateNext, Pages.connect, hpages]
    · rw [hi, List.append_assoc]
      exact hchains

end Owned

end Rope

/-! ## Ropes -/

open Rope in
structure Rope where
  pageSize : ℕ
  treeHeight : ℕ
  height : ℕ
  root : Node height
  rootInfo : TextStats
  firstLeaf : PageId

namespace Rope

/-- The pages of one level of the rope, in the order of the tree. -/
def levels (rope : Rope) : ℕ → List PageId := Node.pages rope.height rope.root

/-- The leaves below a node. -/
def Node.leafs : (height : ℕ) → Node height → List LeafNode
  | 0, leaf => [leaf]
  | height + 1, inner =>
    (InnerNode.children inner).flatMap fun child => Node.leafs height child.2

/-- The leaves of a rope. -/
def leafs (rope : Rope) : List LeafNode := Node.leafs rope.height rope.root

/-- The bytes of the leaves from one leaf on, up to but not including another.  The
leaves of the tree bound the steps of the loop. -/
def collectLeafs (leafs : List LeafNode) (pages : Pages) (last : Option PageId) :
    ℕ → Option PageId → Option (List UInt8)
  | 0, iter => if iter = last then some [] else none
  | fuel + 1, iter =>
    if iter = last then some []
    else do
      let page ← iter
      let leaf ← leafs.find? fun leaf => leaf.page = page
      let links ← pages.links page
      let rest ← collectLeafs leafs pages last fuel links.next
      return leaf.data ++ rest

def toString (rope : Rope) (pages : Pages) : Option (List UInt8) :=
  collectLeafs rope.leafs pages none rope.leafs.length (some rope.firstLeaf)

structure Represents (rope : Rope) (text : List Char) : Prop where
  /-- A page has room for the header of a node; below, the capacities would wrap around. -/
  header : 32 ≤ rope.pageSize
  holds : Node.Holds rope.pageSize rope.height rope.root text
  rootInfo_eq : rope.rootInfo = TextStats.ofText text
  treeHeight_eq : rope.treeHeight = rope.height + 1
  firstLeaf_eq : (rope.levels 0).head? = some rope.firstLeaf

/-- The rope is well-formed and has this text. -/
structure WellFormed (pages : Pages) (rope : Rope) (text : List Char) : Prop where
  represents : rope.Represents text
  owned : Owned pages rope.levels

/-- Two ropes are well-formed and share no page. -/
structure WellFormedPair (pages : Pages) (left right : Rope) (leftText rightText : List Char) :
    Prop where
  leftRepresents : left.Represents leftText
  rightRepresents : right.Represents rightText
  owned : Owned pages (Sum.elim left.levels right.levels)

/-! ## The leaves hold the text -/

def LeafNode.Holds (pageSize : ℕ) (leaf : LeafNode) (text : List Char) : Prop :=
  leaf.data = utf8 text ∧ leaf.data.length ≤ LeafNode.capacity pageSize

theorem Node.pages_zero {height : ℕ} (node : Node height) :
    Node.pages height node 0 = (Node.leafs height node).map LeafNode.page := by
  induction height with
  | zero => rfl
  | succ height ih =>
    refine (@Node.pages_inner height 0 node (Nat.succ_ne_zero height).symm).trans ?_
    rw [Node.leafs, map_flatMap]
    exact flatMap_congr fun child _ => ih child.2

theorem Node.Holds.leafs {pageSize height : ℕ} {node : Node height} {text : List Char}
    (h : Node.Holds pageSize height node text) :
    Covers (LeafNode.Holds pageSize) (Node.leafs height node) text := by
  induction height generalizing text with
  | zero => exact Covers.singleton_iff.mpr h
  | succ height ih =>
    obtain ⟨-, -, hchildren⟩ := h
    rw [Node.leafs]
    generalize InnerNode.children node = children at hchildren
    induction children generalizing text with
    | nil => exact hchildren
    | cons child rest ihrest =>
      obtain ⟨first, others, rfl, hchild, hrest⟩ := hchildren
      rw [flatMap_cons]
      exact (ih hchild.2.2).append (ihrest hrest)

theorem flatMap_data {pageSize : ℕ} {leafs : List LeafNode} {text : List Char}
    (h : Covers (LeafNode.Holds pageSize) leafs text) : leafs.flatMap LeafNode.data = utf8 text := by
  induction leafs generalizing text with
  | nil =>
    obtain rfl := h
    rfl
  | cons leaf rest ih =>
    obtain ⟨first, others, rfl, hleaf, hrest⟩ := h
    rw [flatMap_cons, hleaf.1, ih hrest, utf8_append]

/-! ## Following the chain of leaves -/

theorem find?_page {leafs : List LeafNode} (hnodup : (leafs.map LeafNode.page).Nodup)
    {leaf : LeafNode} (hleaf : leaf ∈ leafs) :
    (leafs.find? fun other => other.page = leaf.page) = some leaf := by
  induction leafs with
  | nil => cases hleaf
  | cons first rest ih =>
    rw [map_cons, nodup_cons] at hnodup
    rcases mem_cons.mp hleaf with rfl | hrest
    · rw [find?_cons_of_pos (by simp)]
    · have hne : first.page ≠ leaf.page := by
        intro heq
        exact hnodup.1 (heq ▸ mem_map_of_mem hrest)
      rw [find?_cons_of_neg (by simpa using hne)]
      exact ih hnodup.2 hrest

/-- Walking over consecutive leaves collects their bytes. -/
theorem collectLeafs_eq {leafs : List LeafNode} {pages : Pages} {last : Option PageId}
    (hnodup : (leafs.map LeafNode.page).Nodup) {previous : Option PageId} {walk : List LeafNode}
    (hsegment : LinkStore.Segment pages.links previous (walk.map LeafNode.page) last)
    (hwalk : ∀ leaf ∈ walk, leaf ∈ leafs) (hlast : ∀ leaf ∈ walk, some leaf.page ≠ last) {fuel : ℕ}
    (hfuel : walk.length ≤ fuel) :
    collectLeafs leafs pages last fuel ((walk.map LeafNode.page).head?.or last) =
      some (walk.flatMap LeafNode.data) := by
  induction walk generalizing previous fuel with
  | nil =>
    cases fuel with
    | zero => exact if_pos rfl
    | succ fuel => exact if_pos rfl
  | cons leaf rest ih =>
    obtain ⟨fuel, rfl⟩ := Nat.exists_eq_succ_of_ne_zero (Nat.ne_zero_of_lt hfuel)
    obtain ⟨hlinks, hrest⟩ := hsegment
    have hih := ih hrest (fun other hother => hwalk other (mem_cons_of_mem leaf hother))
      (fun other hother => hlast other (mem_cons_of_mem leaf hother))
      (Nat.le_of_succ_le_succ hfuel)
    show collectLeafs leafs pages last (fuel + 1) (some leaf.page) = _
    rw [collectLeafs, if_neg (hlast leaf (mem_cons_self ..))]
    simp only [bind_eq_bind, bind_some,
      find?_page hnodup (hwalk leaf (mem_cons_self ..)), hlinks, hih]
    rfl

theorem toString_eq {pages : Pages} {rope : Rope} {text : List Char}
    (h : rope.WellFormed pages text) : rope.toString pages = some (utf8 text) := by
  have hpages : rope.levels 0 = rope.leafs.map LeafNode.page := Node.pages_zero rope.root
  have hsegment := h.owned.segment 0
  have hnodup := h.owned.nodup 0
  have hfirst := h.represents.firstLeaf_eq
  rw [hpages] at hsegment hnodup hfirst
  have hcollect := collectLeafs_eq hnodup hsegment (fun leaf hleaf => hleaf)
    (fun leaf _ => some_ne_none leaf.page) le_rfl
  rw [hfirst, some_or] at hcollect
  rw [toString, hcollect]
  exact congrArg some (flatMap_data (Node.Holds.leafs h.represents.holds))

end Rope

end DashQL
