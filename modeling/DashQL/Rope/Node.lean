import DashQL.Library.Pieces
import DashQL.Rope.Utf8

/-!
# Text statistics and rope nodes

This file embeds `TextStats`, the two kinds of nodes of `rope.h` and the searches
over the children of an inner node.

A node is its page and its contents.  The pages are the identities of the nodes:
`NodePtr`s are compared by them, and the links between the nodes of one level are
kept by page, in `Pages`.  `Node height` is a node whose leaves are all `height`
levels below it, which is what the casts of `NodePtr` rely on.

Buffers are lists without a capacity of their own.  Writing behind the capacity of
a page is therefore not an error of an operation but a violation of
`Node.Holds`, which says what text a node holds and that it does so within its
capacity.
-/

namespace DashQL.Rope

open List

/-! ## Text statistics -/

@[ext]
structure TextStats where
  textBytes : ℕ
  utf8Codepoints : ℕ
  lineBreaks : ℕ
  deriving DecidableEq

namespace TextStats

instance zero : Zero TextStats := ⟨⟨0, 0, 0⟩⟩

instance add : Add TextStats :=
  ⟨fun a b => ⟨a.textBytes + b.textBytes, a.utf8Codepoints + b.utf8Codepoints,
    a.lineBreaks + b.lineBreaks⟩⟩

/-- The statistics of some bytes. -/
def ofBytes (data : List UInt8) : TextStats :=
  ⟨data.length, data.countP isCodepointBoundary, data.count 0x0a⟩

def ofText (text : List Char) : TextStats := ofBytes (utf8 text)

theorem add_def (a b : TextStats) : a + b =
    ⟨a.textBytes + b.textBytes, a.utf8Codepoints + b.utf8Codepoints, a.lineBreaks + b.lineBreaks⟩ :=
  rfl

theorem zero_def : (0 : TextStats) = ⟨0, 0, 0⟩ := rfl

instance addCommMonoid : AddCommMonoid TextStats where
  add_assoc a b c := by simp only [add_def, Nat.add_assoc]
  zero_add a := by simp only [add_def, zero_def, Nat.zero_add]
  add_zero a := by simp only [add_def, zero_def, Nat.add_zero]
  add_comm a b := by
    simp only [add_def, mk.injEq]
    omega
  nsmul := nsmulRec

@[simp]
theorem ofBytes_append (left right : List UInt8) :
    ofBytes (left ++ right) = ofBytes left + ofBytes right := by
  simp only [ofBytes, add_def, length_append, countP_append, count_append]

@[simp]
theorem ofText_nil : ofText [] = 0 := rfl

@[simp]
theorem ofText_append (left right : List Char) :
    ofText (left ++ right) = ofText left + ofText right := by
  rw [ofText, utf8_append, ofBytes_append]
  rfl

end TextStats

/-! ## Nodes -/

abbrev PageId := ℕ

structure LeafNode where
  page : PageId
  data : List UInt8
  deriving DecidableEq

def LeafNode.capacity (pageSize : ℕ) : ℕ := pageSize - 24

/-- The statistics and the node of every child. -/
abbrev Children (Child : Type) := List (TextStats × Child)

structure InnerNode (Child : Type) where
  page : PageId
  children : Children Child
  deriving DecidableEq

def InnerNode.capacity (pageSize : ℕ) : ℕ := (pageSize - 32) / 32

abbrev Node : ℕ → Type
  | 0 => LeafNode
  | height + 1 => InnerNode (Node height)

def Node.page : (height : ℕ) → Node height → PageId
  | 0, leaf => LeafNode.page leaf
  | _ + 1, inner => InnerNode.page inner

/-- `InnerNode::AggregateTextInfo`. -/
def aggregateTextInfo {Child : Type} (children : Children Child) : TextStats :=
  (children.map Prod.fst).sum

/-! ## Searching children -/

section Search

variable {Child : Type}

end Search

/-! ## The text of a node -/

/-- The node holds the text, within the capacities of its pages: the leaves hold
whole characters, and what an inner node records for a child are the statistics of
the text of the child, which is not empty. -/
def Node.Holds (pageSize : ℕ) : (height : ℕ) → Node height → List Char → Prop
  | 0, leaf, text =>
    LeafNode.data leaf = utf8 text ∧ (LeafNode.data leaf).length ≤ LeafNode.capacity pageSize
  | height + 1, inner, text =>
    InnerNode.children inner ≠ [] ∧
      (InnerNode.children inner).length ≤ InnerNode.capacity pageSize ∧
      Covers (fun child piece => child.1 = TextStats.ofText piece ∧ piece ≠ [] ∧
        Holds pageSize height child.2 piece) (InnerNode.children inner) text

/-- The child holds the text, and its statistics are recorded. -/
def ChildHolds (pageSize height : ℕ) (child : TextStats × Node height) (text : List Char) : Prop :=
  child.1 = TextStats.ofText text ∧ text ≠ [] ∧ Node.Holds pageSize height child.2 text

/-- The children hold the text, one after the other. -/
abbrev ChildrenHold (pageSize height : ℕ) : Children (Node height) → List Char → Prop :=
  Covers (ChildHolds pageSize height)

section Holds

variable {pageSize height : ℕ} {children : Children (Node height)} {text : List Char}

theorem Node.holds_leaf_iff {leaf : LeafNode} : Node.Holds pageSize 0 leaf text ↔
    leaf.data = utf8 text ∧ leaf.data.length ≤ LeafNode.capacity pageSize := Iff.rfl

theorem ChildrenHold.aggregateTextInfo_eq (h : ChildrenHold pageSize height children text) :
    aggregateTextInfo children = TextStats.ofText text :=
  h.sum_map TextStats.ofText_nil TextStats.ofText_append fun _ _ hchild => hchild.1

end Holds

/-! ## The pages of a node -/

/-- The pages of a node at one level above the leaves, in order. -/
def Node.pages : (height : ℕ) → Node height → ℕ → List PageId
  | 0, leaf, level => if level = 0 then [LeafNode.page leaf] else []
  | height + 1, inner, level =>
    if level = height + 1 then [InnerNode.page inner]
    else (InnerNode.children inner).flatMap fun child => Node.pages height child.2 level

def Children.pages {height : ℕ} (children : Children (Node height)) (level : ℕ) : List PageId :=
  children.flatMap fun child => Node.pages height child.2 level

section Pages

variable {height level : ℕ}

@[simp]
theorem Children.pages_append {left right : Children (Node height)} :
    Children.pages (left ++ right) level = left.pages level ++ right.pages level :=
  flatMap_append

theorem Node.pages_self (node : Node height) : Node.pages height node height = [node.page] := by
  cases height with
  | zero => rfl
  | succ height => exact if_pos rfl

theorem Node.pages_inner {inner : InnerNode (Node height)} (hlevel : level ≠ height + 1) :
    Node.pages (height + 1) inner level = inner.children.pages level := if_neg hlevel

theorem Node.pages_of_lt (node : Node height) (hlevel : height < level) :
    Node.pages height node level = [] := by
  induction height with
  | zero => exact if_neg hlevel.ne'
  | succ height ih =>
    refine (@Node.pages_inner height level node hlevel.ne').trans ?_
    rw [Children.pages, List.flatMap_eq_nil_iff]
    exact fun child _ => ih child.2 (Nat.lt_of_succ_lt hlevel)

theorem Children.pages_of_lt (children : Children (Node height)) (hlevel : height < level) :
    children.pages level = [] := by
  rw [Children.pages, List.flatMap_eq_nil_iff]
  exact fun child _ => Node.pages_of_lt child.2 hlevel

theorem Children.pages_self (children : Children (Node height)) :
    children.pages height = children.map fun child => child.2.page := by
  rw [Children.pages, map_eq_flatMap]
  exact flatMap_congr fun child _ => Node.pages_self child.2

end Pages

end DashQL.Rope
