import DashQL.Rope.WellFormed

/-!
# Building a rope from a text

This file embeds `LeafNode::FromString` and the constructor of `Rope` that packs a
text into leaves and these, level by level, into inner nodes.

`LeafNode::FromString` fills a leaf up to its capacity and then moves the cut back:
it ends the leaf *behind* the last byte that begins a character, which splits this
character if it is longer than one byte.  So the cut is right exactly if the last
byte within the capacity is an ASCII character; `CutsAscii` says so of all cuts that
the constructor makes, and `wellFormed_ofString_iff` says that this is exactly when
the rope is well-formed.
-/

namespace DashQL.Rope

open Function List Option

/-- The bytes up to and including the last one that is a boundary; all bytes, if
none is. -/
def trimToBoundary (bytes : List UInt8) : List UInt8 :=
  let trimmed := bytes.rdropWhile fun byte => !isCodepointBoundary byte
  if trimmed = [] then bytes else trimmed

/-- `LeafNode::FromString`: the data of the leaf, and the rest of the text. -/
def LeafNode.fromString (pageSize : ℕ) (text : List UInt8) (leafCapacity : ℕ) :
    List UInt8 × List UInt8 :=
  let leafCapacity := min leafCapacity (LeafNode.capacity pageSize)
  if text.length ≤ LeafNode.capacity pageSize then (text, [])
  else
    let bytes := trimToBoundary (text.take (min leafCapacity text.length))
    (bytes, text.drop bytes.length)

/-- The loop that creates the leaves.  Every leaf takes at least one byte, unless
the capacity is zero, so the length of the text bounds its steps. -/
def bulkLeafs (pageSize leafCapacity : ℕ) :
    ℕ → Option PageId → List UInt8 → Pages → Option (List LeafNode × Pages)
  | _, _, [], pages => some ([], pages)
  | 0, _, _ :: _, _ => none
  | fuel + 1, prevLeaf, byte :: text, pages => do
      let (page, pages) ← pages.allocateNext prevLeaf
      let cut := LeafNode.fromString pageSize (byte :: text) leafCapacity
      let (rest, pages) ← bulkLeafs pageSize leafCapacity fuel (some page) cut.2 pages
      return (⟨page, cut.1⟩ :: rest, pages)

/-- The loop that creates the inner nodes of one level. -/
def bulkInners {Child : Type} (innerCapacity : ℕ) :
    ℕ → Option PageId → Children Child → Pages → Option (List (InnerNode Child) × Pages)
  | _, _, [], pages => some ([], pages)
  | 0, _, _ :: _, _ => none
  | fuel + 1, prevInner, child :: children, pages => do
      let (page, pages) ← pages.allocateNext prevInner
      let next : InnerNode Child := ⟨page, (child :: children).take innerCapacity⟩
      let (rest, pages) ← bulkInners innerCapacity fuel (some page)
        ((child :: children).drop innerCapacity) pages
      return (next :: rest, pages)

/-- The nodes of a new level with their statistics. -/
def withTextInfo {height : ℕ} (inners : List (InnerNode (Node height))) :
    Children (Node (height + 1)) :=
  inners.map fun inner => (aggregateTextInfo inner.children, inner)

/-- The levels above some nodes, up to a root.  It is returned with the height of
the rope. -/
def bulkLevels (innerCapacity : ℕ) :
    ℕ → (height : ℕ) → Children (Node height) → ℕ → Pages →
      Option ((Σ height, InnerNode (Node height)) × ℕ × Pages)
  | 0, _, _, _, _ => none
  | fuel + 1, height, children, treeHeight, pages => do
      let (inners, pages) ← bulkInners innerCapacity children.length none children pages
      let treeHeight := treeHeight + 1
      match inners with
      | [root] => return (⟨height, root⟩, treeHeight, pages)
      | inners => bulkLevels innerCapacity fuel (height + 1) (withTextInfo inners) treeHeight pages

/-- The leaves with their statistics. -/
def leafsWithTextInfo (leafs : List LeafNode) : Children (Node 0) :=
  leafs.map fun leaf => (TextStats.ofBytes leaf.data, leaf)

/-- The constructor of `Rope` for a page size, a text, and the capacities of leaves
and inner nodes. -/
def ofString (pageSize : ℕ) (text : List UInt8) (leafCapacity innerCapacity : ℕ) (pages : Pages) :
    Option (Rope × Pages) :=
  if text = [] then
    let (page, pages) := pages.allocate
    some (⟨pageSize, 1, 0, LeafNode.mk page [], 0, page⟩, pages)
  else do
    let leafCapacity := min (LeafNode.capacity pageSize) leafCapacity
    let innerCapacity := min (InnerNode.capacity pageSize) innerCapacity
    let (leafs, pages) ← bulkLeafs pageSize leafCapacity text.length none text pages
    match leafs with
    | [leaf] => return (⟨pageSize, 1, 0, leaf, TextStats.ofBytes leaf.data, leaf.page⟩, pages)
    | leafs => do
        let firstLeaf ← leafs.head?
        let (⟨height, root⟩, treeHeight, pages) ←
          bulkLevels innerCapacity leafs.length 0 (leafsWithTextInfo leafs) 1 pages
        return (⟨pageSize, treeHeight, height + 1, root, aggregateTextInfo root.children,
          firstLeaf.page⟩, pages)

/-! ## Packing inner nodes -/

section Inners

variable {Child : Type} {innerCapacity fuel : ℕ} {prevInner : Option PageId}
  {children : Children Child} {inners : List (InnerNode Child)} {pages pages' : Pages}

/-- Packing chains the new nodes behind a level. -/
theorem bulkInners_owned {ι : Type} [DecidableEq ι] {chain : ι → List PageId}
    (hcapacity : 0 < innerCapacity) (i : ι) (children : Children Child)
    (hfuel : children.length ≤ fuel) (h : Owned pages chain) :
    ∃ inners pages', bulkInners innerCapacity fuel (chain i).getLast? children pages =
        some (inners, pages') ∧
      Owned pages' (Function.update chain i (chain i ++ inners.map InnerNode.page)) := by
  induction fuel generalizing children pages chain with
  | zero =>
    obtain rfl := length_eq_zero_iff.mp (Nat.le_zero.mp hfuel)
    exact ⟨[], pages, rfl, h.congr fun k => by rw [map_nil, append_nil, update_eq_self]⟩
  | succ fuel ih =>
    cases children with
    | nil =>
      exact ⟨[], pages, rfl, h.congr fun k => by
        rw [map_nil, append_nil, update_eq_self]⟩
    | cons child children =>
      obtain ⟨page, pages₁, hpage, h₁⟩ := h.allocateNext i
      have hrest : ((child :: children).drop innerCapacity).length ≤ fuel := by
        rw [length_drop]
        rw [length_cons] at hfuel ⊢
        omega
      obtain ⟨rest, pages₂, hpack, h₂⟩ := ih _ hrest h₁
      rw [update_self, getLast?_concat] at hpack
      refine ⟨⟨page, (child :: children).take innerCapacity⟩ :: rest, pages₂, ?_, ?_⟩
      · simp only [bulkInners, hpage, bind_eq_bind, bind_some, hpack]
        rfl
      · rw [update_self, update_idem, append_assoc] at h₂
        exact h₂

/-- What one step of the loop does. -/
theorem bulkInners_cases
    (h : bulkInners innerCapacity fuel prevInner children pages = some (inners, pages')) :
    (children = [] ∧ inners = []) ∨
      (children ≠ [] ∧ ∃ rest page pages₁ fuel', fuel = fuel' + 1 ∧
        inners = ⟨page, children.take innerCapacity⟩ :: rest ∧
        bulkInners innerCapacity fuel' (some page) (children.drop innerCapacity) pages₁ =
          some (rest, pages')) := by
  cases children with
  | nil =>
    rw [bulkInners] at h
    exact Or.inl ⟨rfl, (Prod.mk.inj (some.inj h)).1.symm⟩
  | cons child children =>
    cases fuel with
    | zero => cases h
    | succ fuel =>
      simp only [bulkInners, bind_eq_bind, bind_eq_some_iff] at h
      obtain ⟨⟨page, pages₁⟩, -, ⟨rest, pages₂⟩, hpack, heq⟩ := h
      obtain ⟨rfl, rfl⟩ := Prod.mk.inj (some.inj heq)
      exact Or.inr ⟨cons_ne_nil child children, rest, page, pages₁, fuel, rfl, rfl, hpack⟩

/-- The new nodes have the children, in order, and none more than the capacity. -/
theorem bulkInners_children (hcapacity : 0 < innerCapacity)
    (h : bulkInners innerCapacity fuel prevInner children pages = some (inners, pages')) :
    inners.flatMap InnerNode.children = children ∧
      ∀ inner ∈ inners, inner.children ≠ [] ∧ inner.children.length ≤ innerCapacity := by
  induction fuel generalizing children prevInner pages inners with
  | zero =>
    rcases bulkInners_cases h with ⟨rfl, rfl⟩ | ⟨-, rest, page, pages₁, fuel', hfuel, -⟩
    · exact ⟨rfl, by simp⟩
    · cases hfuel
  | succ fuel ih =>
    rcases bulkInners_cases h with ⟨rfl, rfl⟩ | ⟨hne, rest, page, pages₁, fuel', hfuel, rfl, hpack⟩
    · exact ⟨rfl, by simp⟩
    obtain rfl := Nat.succ.inj hfuel
    obtain ⟨hrest, hsizes⟩ := ih hpack
    refine ⟨?_, ?_⟩
    · rw [flatMap_cons, hrest, take_append_drop]
    · intro inner hinner
      rcases mem_cons.mp hinner with rfl | hinner
      · refine ⟨?_, length_take_le ..⟩
        rw [ne_eq, take_eq_nil_iff, not_or]
        exact ⟨hcapacity.ne', hne⟩
      · exact hsizes inner hinner

/-- The new level has half as many nodes if every node has room for two. -/
theorem bulkInners_length (hcapacity : 2 ≤ innerCapacity)
    (h : bulkInners innerCapacity fuel prevInner children pages = some (inners, pages')) :
    2 * inners.length ≤ children.length + 1 := by
  induction fuel generalizing children prevInner pages inners with
  | zero =>
    rcases bulkInners_cases h with ⟨rfl, rfl⟩ | ⟨-, rest, page, pages₁, fuel', hfuel, -⟩
    · exact Nat.zero_le _
    · cases hfuel
  | succ fuel ih =>
    rcases bulkInners_cases h with ⟨rfl, rfl⟩ | ⟨hne, rest, page, pages₁, fuel', hfuel, rfl, hpack⟩
    · exact Nat.zero_le _
    obtain rfl := Nat.succ.inj hfuel
    by_cases hlast : children.length ≤ innerCapacity
    · rw [drop_eq_nil_of_le hlast] at hpack
      rcases bulkInners_cases hpack with ⟨-, rfl⟩ | ⟨hnil, -⟩
      · have hpos := length_pos_iff.mpr hne
        rw [length_singleton]
        omega
      · exact absurd rfl hnil
    · have hrest := ih hpack
      rw [length_drop] at hrest
      rw [length_cons]
      omega

/-- A level does not get smaller if a node has no room for two children. -/
theorem length_le_bulkInners (hcapacity : innerCapacity ≤ 1)
    (h : bulkInners innerCapacity fuel prevInner children pages = some (inners, pages')) :
    children.length ≤ inners.length := by
  induction fuel generalizing children prevInner pages inners with
  | zero =>
    rcases bulkInners_cases h with ⟨rfl, rfl⟩ | ⟨-, rest, page, pages₁, fuel', hfuel, -⟩
    · exact le_rfl
    · cases hfuel
  | succ fuel ih =>
    rcases bulkInners_cases h with ⟨rfl, rfl⟩ | ⟨hne, rest, page, pages₁, fuel', hfuel, rfl, hpack⟩
    · exact le_rfl
    obtain rfl := Nat.succ.inj hfuel
    have hrest := ih hpack
    rw [length_drop] at hrest
    rw [length_cons]
    omega

end Inners

/-! ## Packing all levels -/

theorem withTextInfo_pages {height : ℕ} (inners : List (InnerNode (Node height))) (level : ℕ) :
    (withTextInfo inners).pages level =
      if level = height + 1 then inners.map InnerNode.page
      else Children.pages (inners.flatMap InnerNode.children) level := by
  induction inners with
  | nil => split <;> rfl
  | cons inner rest ih =>
    show Node.pages (height + 1) inner level ++ (withTextInfo rest).pages level = _
    rw [ih]
    by_cases hlevel : level = height + 1
    · rw [if_pos hlevel, if_pos hlevel, map_cons, hlevel]
      exact congrArg (· ++ _) (@Node.pages_self (height + 1) inner)
    · rw [if_neg hlevel, if_neg hlevel, flatMap_cons, Children.pages_append]
      exact congrArg (· ++ _) (Node.pages_inner hlevel)

theorem withTextInfo_leafs {height : ℕ} (inners : List (InnerNode (Node height))) :
    ((withTextInfo inners).flatMap fun child => Node.leafs (height + 1) child.2) =
      (inners.flatMap InnerNode.children).flatMap fun child => Node.leafs height child.2 := by
  induction inners with
  | nil => rfl
  | cons inner rest ih =>
    rw [flatMap_cons, flatMap_append, ← ih]
    rfl

theorem withTextInfo_hold {pageSize height innerCapacity : ℕ}
    (hcapacity : innerCapacity ≤ InnerNode.capacity pageSize)
    {inners : List (InnerNode (Node height))} {text : List Char}
    (hsizes : ∀ inner ∈ inners, inner.children ≠ [] ∧ inner.children.length ≤ innerCapacity)
    (h : ChildrenHold pageSize height (inners.flatMap InnerNode.children) text) :
    ChildrenHold pageSize (height + 1) (withTextInfo inners) text := by
  rw [ChildrenHold, Covers.flatMap_iff] at h
  rw [ChildrenHold, withTextInfo, Covers.map_iff]
  refine h.mono fun inner hinner piece hpiece => ?_
  obtain ⟨hne, hlength⟩ := hsizes inner hinner
  refine ⟨ChildrenHold.aggregateTextInfo_eq hpiece, ?_, hne, hlength.trans hcapacity, hpiece⟩
  rintro rfl
  exact hne (Covers.eq_nil hpiece fun child _ hchild => hchild.2.1 rfl)

theorem bulkLevels_holds {pageSize innerCapacity : ℕ} (htwo : 2 ≤ innerCapacity)
    (hcapacity : innerCapacity ≤ InnerNode.capacity pageSize) {text : List Char} {fuel height : ℕ}
    {children : Children (Node height)} (treeHeight : ℕ) {pages : Pages} (hne : children ≠ [])
    (hfuel : children.length ≤ fuel) (hholds : ChildrenHold pageSize height children text)
    (howned : Owned pages children.pages) :
    ∃ height' root treeHeight' pages',
      bulkLevels innerCapacity fuel height children treeHeight pages =
        some (⟨height', root⟩, treeHeight', pages') ∧
      Node.Holds pageSize (height' + 1) root text ∧
      treeHeight' + height = treeHeight + height' + 1 ∧
      Owned pages' (Node.pages (height' + 1) root) ∧
      Node.pages (height' + 1) root 0 = children.pages 0 := by
  induction fuel generalizing height treeHeight pages with
  | zero => exact absurd (length_eq_zero_iff.mp (Nat.le_zero.mp hfuel)) hne
  | succ fuel ih =>
    obtain ⟨inners, pages₁, hpack, h₁⟩ := bulkInners_owned (by omega : 0 < innerCapacity)
      (height + 1) children le_rfl howned
    rw [Children.pages_of_lt children (Nat.lt_succ_self height)] at hpack h₁
    obtain ⟨hchildren, hsizes⟩ := bulkInners_children (by omega) hpack
    have hlength := bulkInners_length htwo hpack
    have hlevel : ∀ level, (withTextInfo inners).pages level =
        Function.update children.pages (height + 1) ([] ++ inners.map InnerNode.page) level := by
      intro level
      rw [withTextInfo_pages, hchildren, update_apply]
      rfl
    have hnodes : ChildrenHold pageSize (height + 1) (withTextInfo inners) text :=
      withTextInfo_hold hcapacity hsizes (hchildren.symm ▸ hholds)
    have hbottom : (withTextInfo inners).pages 0 = children.pages 0 := by
      rw [withTextInfo_pages, if_neg (Nat.succ_ne_zero height).symm, hchildren]
    rw [getLast?_nil] at hpack
    match inners with
    | [] => exact absurd hchildren.symm hne
    | [root] =>
      have hroot : ∀ level, Node.pages (height + 1) root level =
          (withTextInfo [root]).pages level := fun level => (append_nil _).symm
      refine ⟨height, root, treeHeight + 1, pages₁, ?_, ?_, by omega, ?_, ?_⟩
      · rw [bulkLevels, hpack]
        rfl
      · exact (Covers.singleton_iff.mp hnodes).2.2
      · exact h₁.congr fun level => (hroot level).trans (hlevel level)
      · exact (hroot 0).trans hbottom
    | first :: second :: rest =>
      have hfuel' : (withTextInfo (first :: second :: rest)).length ≤ fuel := by
        rw [withTextInfo, length_map]
        simp only [length_cons] at hlength ⊢
        omega
      obtain ⟨height', root, treeHeight', pages', hresult, hroot, htree, hpages, hleaf⟩ :=
        ih (treeHeight + 1) (cons_ne_nil _ _) hfuel' hnodes (h₁.congr hlevel)
      refine ⟨height', root, treeHeight', pages', ?_, hroot, by omega, hpages, hleaf.trans hbottom⟩
      rw [bulkLevels, hpack]
      exact hresult

/-- The levels above some nodes keep their leaves. -/
theorem bulkLevels_leafs {innerCapacity : ℕ} (hcapacity : 0 < innerCapacity) {fuel height : ℕ}
    {children : Children (Node height)} {treeHeight : ℕ} {pages : Pages}
    {result : (Σ height, InnerNode (Node height)) × ℕ × Pages}
    (h : bulkLevels innerCapacity fuel height children treeHeight pages = some result) :
    Node.leafs (result.1.1 + 1) result.1.2 =
      children.flatMap fun child => Node.leafs height child.2 := by
  induction fuel generalizing height treeHeight pages with
  | zero => cases h
  | succ fuel ih =>
    simp only [bulkLevels, bind_eq_bind, bind_eq_some_iff] at h
    obtain ⟨⟨inners, pages₁⟩, hpack, h⟩ := h
    obtain ⟨hchildren, -⟩ := bulkInners_children hcapacity hpack
    rw [← hchildren, ← withTextInfo_leafs]
    match inners with
    | [] => exact ih h
    | [root] =>
      obtain rfl := some.inj h
      exact (append_nil _).symm
    | first :: second :: rest => exact ih h

/-- Nodes without room for two children never get fewer. -/
theorem bulkLevels_eq_none {innerCapacity : ℕ} (hcapacity : innerCapacity ≤ 1) {fuel height : ℕ}
    {children : Children (Node height)} {treeHeight : ℕ} {pages : Pages}
    (hlength : 2 ≤ children.length) :
    bulkLevels innerCapacity fuel height children treeHeight pages = none := by
  induction fuel generalizing height treeHeight pages with
  | zero => rfl
  | succ fuel ih =>
    rw [bulkLevels, bind_eq_bind, bind_eq_none_iff]
    intro ⟨inners, pages₁⟩ hpack
    have hle := length_le_bulkInners hcapacity hpack
    match inners with
    | [] =>
      rw [length_nil] at hle
      omega
    | [root] =>
      rw [length_singleton] at hle
      omega
    | first :: second :: rest => exact ih (Nat.le_add_left 2 _)

/-! ## Cutting leaves -/

/-- What is trimmed begins no character, and what is kept ends in a byte that does. -/
theorem trimToBoundary_spec {first : UInt8} (hfirst : isCodepointBoundary first = true)
    (bytes : List UInt8) :
    ∃ init last dropped, trimToBoundary (first :: bytes) = init ++ [last] ∧
      first :: bytes = init ++ [last] ++ dropped ∧ isCodepointBoundary last = true ∧
      ∀ byte ∈ dropped, isCodepointBoundary byte = false := by
  have hne : (first :: bytes).rdropWhile (fun byte => !isCodepointBoundary byte) ≠ [] := by
    intro hnil
    have hall := rdropWhile_eq_nil_iff.mp hnil first (mem_cons_self ..)
    rw [hfirst] at hall
    cases hall
  have hsplit : (first :: bytes).rdropWhile (fun byte => !isCodepointBoundary byte) ++
      (first :: bytes).rtakeWhile (fun byte => !isCodepointBoundary byte) = first :: bytes :=
    rdropWhile_append_rtakeWhile
  have hlast := rdropWhile_last_not (fun byte => !isCodepointBoundary byte) _ hne
  obtain ⟨init, last, hkept⟩ := (eq_nil_or_concat' _).resolve_left hne
  refine ⟨init, last, (first :: bytes).rtakeWhile (fun byte => !isCodepointBoundary byte), ?_, ?_,
    ?_, fun byte hbyte => ?_⟩
  · rw [trimToBoundary, if_neg hne, hkept]
  · rw [← hkept, hsplit]
  · simpa [hkept] using hlast
  · simpa using mem_rtakeWhile_imp hbyte

theorem trimToBoundary_of_ascii {first byte : UInt8} {bytes : List UInt8}
    (hfirst : isCodepointBoundary first = true)
    (hlast : (first :: bytes).getLast? = some byte) (hascii : byte.toNat < 128) :
    trimToBoundary (first :: bytes) = first :: bytes := by
  obtain ⟨init, last, dropped, htrim, hsplit, -, hdropped⟩ := trimToBoundary_spec hfirst bytes
  rw [hsplit, getLast?_append] at hlast
  rcases eq_nil_or_concat' dropped with rfl | ⟨others, other, rfl⟩
  · rw [htrim, hsplit, append_nil]
  · rw [getLast?_concat, some_or] at hlast
    have hother := hdropped other (by simp)
    rw [some.inj hlast, isCodepointBoundary_eq_false_iff] at hother
    omega

/-- Behind any other byte the kept bytes end in the first byte of a longer
character, so they are no text. -/
theorem trimToBoundary_of_not_ascii {text : List Char} {cut : ℕ} {byte : UInt8}
    (hlast : ((utf8 text).take (cut + 1)).getLast? = some byte) (hascii : ¬ byte.toNat < 128)
    (piece : List Char) : trimToBoundary ((utf8 text).take (cut + 1)) ≠ utf8 piece := by
  intro hpiece
  obtain ⟨first, rest, hbytes⟩ : ∃ first rest, utf8 text = first :: rest := by
    cases hbytes : utf8 text with
    | nil =>
      rw [hbytes] at hlast
      cases hlast
    | cons first rest => exact ⟨first, rest, rfl⟩
  have hfirst : isCodepointBoundary first = true :=
    (isBoundary_zero text).2 first (by rw [hbytes]; rfl)
  have htake : (utf8 text).take (cut + 1) = first :: rest.take cut := by
    rw [hbytes, take_succ_cons]
  obtain ⟨init, last, dropped, htrim, hsplit, hboundary, hdropped⟩ :=
    trimToBoundary_spec hfirst (rest.take cut)
  rw [htake] at hlast hpiece
  rw [htrim] at hpiece
  -- the last byte kept is a boundary, and as the last byte of a text an ASCII byte
  have hsmall : last.toNat < 192 := getLast?_utf8_lt (by rw [← hpiece, getLast?_concat])
  rw [isCodepointBoundary_iff] at hboundary
  have hlastAscii : last.toNat < 128 := by omega
  cases dropped with
  | nil =>
    rw [hsplit, append_nil, getLast?_concat] at hlast
    obtain rfl := some.inj hlast
    exact hascii hlastAscii
  | cons other dropped =>
    have htext : utf8 text = init ++ last :: other :: (dropped ++ (utf8 text).drop (cut + 1)) := by
      nth_rewrite 1 [← take_append_drop (cut + 1) (utf8 text), htake, hsplit]
      simp
    have hstart : IsBoundary text (init.length + 1) := by
      refine isBoundary_succ_of_ascii ?_ hlastAscii
      rw [htext]
      simp
    have hnext := hstart.2 other (by
      rw [htext]
      simp [drop_append])
    rw [hdropped other (mem_cons_self ..)] at hnext
    cases hnext

/-- Every cut that the constructor makes lies behind an ASCII byte: it cuts as long
as the rest is longer than the capacity of a page. -/
def CutsAscii (pageCapacity leafCapacity : ℕ) (bytes : List UInt8) : Prop :=
  ∀ k, pageCapacity + k * leafCapacity < bytes.length →
    ∀ byte ∈ bytes[(k + 1) * leafCapacity - 1]?, byte.toNat < 128

theorem cutsAscii_iff {pageCapacity leafCapacity : ℕ} (hpos : 0 < leafCapacity)
    (hle : leafCapacity ≤ pageCapacity) {bytes : List UInt8} :
    CutsAscii pageCapacity leafCapacity bytes ↔ (pageCapacity < bytes.length →
      (∀ byte ∈ bytes[leafCapacity - 1]?, byte.toNat < 128) ∧
        CutsAscii pageCapacity leafCapacity (bytes.drop leafCapacity)) := by
  have hshift : ∀ k, (bytes.drop leafCapacity)[(k + 1) * leafCapacity - 1]? =
      bytes[(k + 1 + 1) * leafCapacity - 1]? := by
    intro k
    rw [getElem?_drop]
    congr 1
    have hfirst : leafCapacity ≤ (k + 1) * leafCapacity := Nat.le_mul_of_pos_left _ (Nat.succ_pos k)
    rw [Nat.succ_mul (k + 1)]
    omega
  constructor
  · intro h hlong
    refine ⟨?_, fun k hk => ?_⟩
    · have hfirst := h 0 (by rwa [Nat.zero_mul, Nat.add_zero])
      rwa [Nat.zero_add, Nat.one_mul] at hfirst
    · rw [hshift]
      refine h (k + 1) ?_
      rw [length_drop] at hk
      rw [Nat.succ_mul]
      omega
  · intro h k hk
    have hlong : pageCapacity < bytes.length := by omega
    obtain ⟨hfirst, hrest⟩ := h hlong
    cases k with
    | zero => rwa [Nat.zero_add, Nat.one_mul]
    | succ k =>
      rw [← hshift]
      refine hrest k ?_
      rw [Nat.succ_mul] at hk
      rw [length_drop]
      omega

section Leafs

variable {pageSize leafCapacity fuel : ℕ} {prevLeaf : Option PageId} {bytes : List UInt8}
  {leafs : List LeafNode} {pages pages' : Pages} {text : List Char}

theorem fromString_of_le (h : bytes.length ≤ LeafNode.capacity pageSize) :
    LeafNode.fromString pageSize bytes leafCapacity = (bytes, []) := if_pos h

theorem fromString_of_lt (h : LeafNode.capacity pageSize < bytes.length)
    (hle : leafCapacity ≤ LeafNode.capacity pageSize) :
    LeafNode.fromString pageSize bytes leafCapacity =
      (trimToBoundary (bytes.take leafCapacity),
        bytes.drop (trimToBoundary (bytes.take leafCapacity)).length) := by
  rw [LeafNode.fromString, Nat.min_eq_left hle, Nat.min_eq_left (hle.trans h.le)]
  exact if_neg (Nat.not_le_of_lt h)

/-- Every leaf takes something. -/
theorem fromString_rest_lt (hpos : 0 < leafCapacity) (hle : leafCapacity ≤ LeafNode.capacity pageSize)
    (hne : bytes ≠ []) :
    (LeafNode.fromString pageSize bytes leafCapacity).2.length < bytes.length := by
  by_cases hlong : bytes.length ≤ LeafNode.capacity pageSize
  · rw [fromString_of_le hlong]
    exact length_pos_iff.mpr hne
  · rw [fromString_of_lt (Nat.lt_of_not_le hlong) hle, length_drop]
    have htrim : 0 < (trimToBoundary (bytes.take leafCapacity)).length := by
      rw [length_pos_iff, trimToBoundary]
      split
      · rw [ne_eq, take_eq_nil_iff, not_or]
        exact ⟨hpos.ne', hne⟩
      · assumption
    have hbytes := length_pos_iff.mpr hne
    omega

/-- Creating the leaves chains them. -/
theorem bulkLeafs_owned {ι : Type} [DecidableEq ι] {chain : ι → List PageId}
    (hpos : 0 < leafCapacity) (hle : leafCapacity ≤ LeafNode.capacity pageSize) (i : ι)
    (hfuel : bytes.length ≤ fuel) (h : Owned pages chain) :
    ∃ leafs pages', bulkLeafs pageSize leafCapacity fuel (chain i).getLast? bytes pages =
        some (leafs, pages') ∧
      Owned pages' (Function.update chain i (chain i ++ leafs.map LeafNode.page)) := by
  have hempty : ∀ {pages : Pages} {chain : ι → List PageId}, Owned pages chain →
      Owned pages (Function.update chain i (chain i ++ ([] : List LeafNode).map LeafNode.page)) := by
    intro pages chain h
    exact h.congr fun k => by rw [map_nil, append_nil, update_eq_self]
  induction fuel generalizing bytes pages chain with
  | zero =>
    obtain rfl := length_eq_zero_iff.mp (Nat.le_zero.mp hfuel)
    exact ⟨[], pages, rfl, hempty h⟩
  | succ fuel ih =>
    cases bytes with
    | nil => exact ⟨[], pages, rfl, hempty h⟩
    | cons byte bytes =>
      obtain ⟨page, pages₁, hpage, h₁⟩ := h.allocateNext i
      have hrest : (LeafNode.fromString pageSize (byte :: bytes) leafCapacity).2.length ≤ fuel :=
        Nat.le_of_lt_succ ((fromString_rest_lt hpos hle (cons_ne_nil byte bytes)).trans_le hfuel)
      obtain ⟨rest, pages₂, hpack, h₂⟩ := ih hrest h₁
      rw [update_self, getLast?_concat] at hpack
      refine ⟨⟨page, (LeafNode.fromString pageSize (byte :: bytes) leafCapacity).1⟩ :: rest,
        pages₂, ?_, ?_⟩
      · simp only [bulkLeafs, hpage, bind_eq_bind, bind_some, hpack]
        rfl
      · rw [update_self, update_idem, append_assoc] at h₂
        exact h₂

/-- What one step of the loop does. -/
theorem bulkLeafs_cases
    (h : bulkLeafs pageSize leafCapacity fuel prevLeaf bytes pages = some (leafs, pages')) :
    (bytes = [] ∧ leafs = []) ∨
      (bytes ≠ [] ∧ ∃ rest page pages₁ fuel', fuel = fuel' + 1 ∧
        leafs = ⟨page, (LeafNode.fromString pageSize bytes leafCapacity).1⟩ :: rest ∧
        bulkLeafs pageSize leafCapacity fuel' (some page)
          (LeafNode.fromString pageSize bytes leafCapacity).2 pages₁ = some (rest, pages')) := by
  cases bytes with
  | nil =>
    rw [bulkLeafs] at h
    exact Or.inl ⟨rfl, (Prod.mk.inj (some.inj h)).1.symm⟩
  | cons byte bytes =>
    cases fuel with
    | zero => simp [bulkLeafs] at h
    | succ fuel =>
      simp only [bulkLeafs, bind_eq_bind, bind_eq_some_iff] at h
      obtain ⟨⟨page, pages₁⟩, -, ⟨rest, pages₂⟩, hpack, heq⟩ := h
      obtain ⟨rfl, rfl⟩ := Prod.mk.inj (some.inj heq)
      exact Or.inr ⟨cons_ne_nil byte bytes, rest, page, pages₁, fuel, rfl, rfl, hpack⟩

theorem fromString_of_ascii (hpos : 0 < leafCapacity)
    (hle : leafCapacity ≤ LeafNode.capacity pageSize)
    (hlong : LeafNode.capacity pageSize < (utf8 text).length)
    (hascii : ∀ byte ∈ (utf8 text)[leafCapacity - 1]?, byte.toNat < 128) :
    ∃ count, 0 < count ∧ (utf8 (text.take count)).length = leafCapacity ∧
      LeafNode.fromString pageSize (utf8 text) leafCapacity =
        (utf8 (text.take count), utf8 (text.drop count)) ∧
      utf8 (text.drop count) = (utf8 text).drop leafCapacity := by
  obtain ⟨byte, hbyte⟩ : ∃ byte, (utf8 text)[leafCapacity - 1]? = some byte :=
    ⟨_, getElem?_eq_getElem (by omega)⟩
  have hboundary := isBoundary_succ_of_ascii hbyte (hascii byte hbyte)
  rw [Nat.sub_add_cancel hpos] at hboundary
  obtain ⟨count, -, htake, hdrop⟩ := hboundary.take_drop
  have hlength : (utf8 (text.take count)).length = leafCapacity := by
    rw [← htake, length_take]
    omega
  refine ⟨count, ?_, hlength, ?_, hdrop.symm⟩
  · rw [Nat.pos_iff_ne_zero]
    rintro rfl
    rw [take_zero, utf8_nil, length_nil] at hlength
    omega
  · have htrim : trimToBoundary ((utf8 text).take leafCapacity) = (utf8 text).take leafCapacity := by
      have hlast : ((utf8 text).take leafCapacity).getLast? = some byte := by
        rw [getLast?_take, if_neg hpos.ne', hbyte, some_or]
      cases hbytes : (utf8 text).take leafCapacity with
      | nil =>
        rw [hbytes] at hlast
        cases hlast
      | cons first rest =>
        have hfirst : isCodepointBoundary first = true :=
          (isBoundary_zero (text.take count)).2 first (by rw [drop_zero, ← htake, hbytes]; rfl)
        rw [hbytes] at hlast
        exact trimToBoundary_of_ascii hfirst hlast (hascii byte hbyte)
    rw [fromString_of_lt hlong hle, htrim, length_take,
      Nat.min_eq_left (hle.trans hlong.le), htake, hdrop]

theorem bulkLeafs_holds (hpos : 0 < leafCapacity) (hle : leafCapacity ≤ LeafNode.capacity pageSize)
    (hcuts : CutsAscii (LeafNode.capacity pageSize) leafCapacity (utf8 text))
    (h : bulkLeafs pageSize leafCapacity fuel prevLeaf (utf8 text) pages = some (leafs, pages')) :
    Covers (fun leaf piece => piece ≠ [] ∧ LeafNode.Holds pageSize leaf piece) leafs text := by
  induction fuel generalizing text prevLeaf pages leafs with
  | zero =>
    rcases bulkLeafs_cases h with ⟨hnil, rfl⟩ | ⟨-, rest, page, pages₁, fuel', hfuel, -⟩
    · exact utf8_eq_nil_iff.mp hnil
    · cases hfuel
  | succ fuel ih =>
    rcases bulkLeafs_cases h with ⟨hnil, rfl⟩ | ⟨hne, rest, page, pages₁, fuel', hfuel, rfl, hpack⟩
    · exact utf8_eq_nil_iff.mp hnil
    obtain rfl := Nat.succ.inj hfuel
    by_cases hlong : LeafNode.capacity pageSize < (utf8 text).length
    · obtain ⟨hascii, hrest⟩ := (cutsAscii_iff hpos hle).mp hcuts hlong
      obtain ⟨count, hcount, hlength, hcut, hdrop⟩ := fromString_of_ascii hpos hle hlong hascii
      rw [hcut] at hpack ⊢
      have hne : text.take count ≠ [] := by
        intro hnil
        rw [hnil, utf8_nil, length_nil] at hlength
        omega
      have hcovers := Covers.cons (x := LeafNode.mk page (utf8 (text.take count)))
        ⟨hne, rfl, hlength.trans_le hle⟩ (ih (hdrop ▸ hrest) hpack)
      rwa [take_append_drop] at hcovers
    · rw [fromString_of_le (Nat.le_of_not_lt hlong)] at hpack ⊢
      rcases bulkLeafs_cases hpack with ⟨-, rfl⟩ | ⟨hnil, -⟩
      · refine Covers.singleton_iff.mpr ⟨?_, rfl, Nat.le_of_not_lt hlong⟩
        rintro rfl
        exact hne utf8_nil
      · exact absurd rfl hnil

/-- If the leaves hold whole characters, then all cuts lie behind ASCII bytes. -/
theorem cutsAscii_of_bulkLeafs (hpos : 0 < leafCapacity)
    (hle : leafCapacity ≤ LeafNode.capacity pageSize)
    (h : bulkLeafs pageSize leafCapacity fuel prevLeaf (utf8 text) pages = some (leafs, pages'))
    {text' : List Char} (hholds : Covers (LeafNode.Holds pageSize) leafs text') :
    CutsAscii (LeafNode.capacity pageSize) leafCapacity (utf8 text) := by
  induction fuel generalizing text text' prevLeaf pages leafs with
  | zero =>
    rcases bulkLeafs_cases h with ⟨hnil, -⟩ | ⟨-, rest, page, pages₁, fuel', hfuel, -⟩
    · rw [hnil]
      exact fun k hk => absurd hk (Nat.not_lt_zero _)
    · cases hfuel
  | succ fuel ih =>
    rcases bulkLeafs_cases h with ⟨hnil, -⟩ | ⟨-, rest, page, pages₁, fuel', hfuel, rfl, hpack⟩
    · rw [hnil]
      exact fun k hk => absurd hk (Nat.not_lt_zero _)
    obtain rfl := Nat.succ.inj hfuel
    obtain ⟨piece, others, rfl, hpiece, hrest⟩ := hholds
    refine (cutsAscii_iff hpos hle).mpr fun hlong => ?_
    have hascii : ∀ byte ∈ (utf8 text)[leafCapacity - 1]?, byte.toNat < 128 := by
      intro byte hbyte
      by_contra hbad
      rw [fromString_of_lt hlong hle] at hpiece
      obtain ⟨cut, rfl⟩ := Nat.exists_eq_succ_of_ne_zero hpos.ne'
      refine trimToBoundary_of_not_ascii ?_ hbad piece hpiece.1
      rw [getLast?_take, if_neg hpos.ne', mem_def.mp hbyte, some_or]
    obtain ⟨count, -, -, hcut, hdrop⟩ := fromString_of_ascii hpos hle hlong hascii
    rw [hcut] at hpack
    exact ⟨hascii, hdrop ▸ ih hpack hrest⟩

end Leafs

/-! ## The constructor -/

theorem leafsWithTextInfo_hold {pageSize : ℕ} {leafs : List LeafNode} {text : List Char}
    (h : Covers (fun leaf piece => piece ≠ [] ∧ LeafNode.Holds pageSize leaf piece) leafs text) :
    ChildrenHold pageSize 0 (leafsWithTextInfo leafs) text := by
  rw [ChildrenHold, leafsWithTextInfo, Covers.map_iff]
  refine h.mono fun leaf _ piece hpiece => ⟨?_, hpiece⟩
  rw [hpiece.2.1]
  rfl

theorem leafsWithTextInfo_pages (leafs : List LeafNode) (level : ℕ) :
    (leafsWithTextInfo leafs).pages level = if level = 0 then leafs.map LeafNode.page else [] := by
  by_cases hlevel : level = 0
  · rw [hlevel, if_pos rfl, Children.pages_self, leafsWithTextInfo, List.map_map]
    rfl
  · rw [if_neg hlevel]
    exact Children.pages_of_lt _ (Nat.pos_of_ne_zero hlevel)

theorem leafsWithTextInfo_leafs (leafs : List LeafNode) :
    ((leafsWithTextInfo leafs).flatMap fun child => Node.leafs 0 child.2) = leafs := by
  rw [leafsWithTextInfo, flatMap_map]
  exact flatMap_singleton' leafs

/-- A text that fits on a page becomes one leaf. -/
theorem bulkLeafs_length_le_one {pageSize leafCapacity fuel : ℕ} {prevLeaf : Option PageId}
    {bytes : List UInt8} {leafs : List LeafNode} {pages pages' : Pages}
    (hfits : bytes.length ≤ LeafNode.capacity pageSize)
    (h : bulkLeafs pageSize leafCapacity fuel prevLeaf bytes pages = some (leafs, pages')) :
    leafs.length ≤ 1 := by
  rcases bulkLeafs_cases h with ⟨-, rfl⟩ | ⟨-, rest, page, pages₁, fuel', -, rfl, hpack⟩
  · exact Nat.zero_le 1
  · rw [fromString_of_le hfits] at hpack
    rcases bulkLeafs_cases hpack with ⟨-, rfl⟩ | ⟨hnil, -⟩
    · exact le_rfl
    · exact absurd rfl hnil

/-- A rope over the empty text. -/
theorem ofString_nil {pageSize leafCapacity innerCapacity : ℕ} (hpage : 32 ≤ pageSize)
    (pages : Pages) :
    ∃ rope pages', ofString pageSize (utf8 []) leafCapacity innerCapacity pages =
        some (rope, pages') ∧ rope.pageSize = pageSize ∧ WellFormed pages' rope [] := by
  refine ⟨_, pages.allocate.2, rfl, rfl, ⟨hpage, ⟨rfl, Nat.zero_le _⟩, rfl, rfl, rfl⟩, ?_⟩
  refine Owned.congr (Owned.allocate_single Owned.nil 0) fun level => ?_
  rw [update_apply]
  rfl

theorem ofString_wellFormed {pageSize leafCapacity innerCapacity : ℕ} (hpage : 32 ≤ pageSize)
    (hleaf : 4 ≤ leafCapacity) (hinner : 2 ≤ innerCapacity) {text : List Char} (pages : Pages)
    (hcuts : CutsAscii (LeafNode.capacity pageSize) (min (LeafNode.capacity pageSize) leafCapacity)
      (utf8 text))
    (htwo : (utf8 text).length ≤ LeafNode.capacity pageSize ∨ 2 ≤ InnerNode.capacity pageSize) :
    ∃ rope pages', ofString pageSize (utf8 text) leafCapacity innerCapacity pages =
        some (rope, pages') ∧ rope.pageSize = pageSize ∧ WellFormed pages' rope text := by
  by_cases hempty : text = []
  · rw [hempty]
    exact ofString_nil hpage pages
  have hbytes : utf8 text ≠ [] := fun hnil => hempty (utf8_eq_nil_iff.mp hnil)
  have hpos : 0 < min (LeafNode.capacity pageSize) leafCapacity := by
    rw [LeafNode.capacity]
    omega
  have hle := Nat.min_le_left (LeafNode.capacity pageSize) leafCapacity
  obtain ⟨leafs, pages₁, hleafs, h₁⟩ :=
    bulkLeafs_owned hpos hle 0 (le_refl (utf8 text).length) (@Owned.nil ℕ pages)
  rw [nil_append, getLast?_nil] at *
  have hholds := bulkLeafs_holds hpos hle hcuts hleafs
  have howned : Owned pages₁ (leafsWithTextInfo leafs).pages := h₁.congr fun level => by
    rw [leafsWithTextInfo_pages, update_apply]
  match leafs with
  | [] => exact absurd hholds hempty
  | [leaf] =>
    obtain ⟨-, hleaf⟩ := Covers.singleton_iff.mp hholds
    refine ⟨⟨pageSize, 1, 0, leaf, TextStats.ofBytes leaf.data, leaf.page⟩, pages₁, ?_, rfl,
      ⟨hpage, hleaf, congrArg TextStats.ofBytes hleaf.1, rfl, rfl⟩, ?_⟩
    · rw [ofString, if_neg hbytes]
      dsimp only
      rw [hleafs]
      rfl
    · exact howned.congr fun level => (append_nil _).symm
  | first :: second :: rest =>
    have hroom : 2 ≤ min (InnerNode.capacity pageSize) innerCapacity := by
      refine le_min (htwo.resolve_left fun hfits => ?_) hinner
      have hone := bulkLeafs_length_le_one hfits hleafs
      simp at hone
    have hfuel : (leafsWithTextInfo (first :: second :: rest)).length ≤
        (first :: second :: rest).length := (length_map _).le
    have hne : leafsWithTextInfo (first :: second :: rest) ≠ [] := cons_ne_nil _ _
    obtain ⟨height, root, treeHeight, pages₂, hlevels, hroot, htree, h₂, hbottom⟩ :=
      bulkLevels_holds hroom (Nat.min_le_left ..) 1 hne hfuel (leafsWithTextInfo_hold hholds) howned
    refine ⟨⟨pageSize, treeHeight, height + 1, root, aggregateTextInfo root.children, first.page⟩,
      pages₂, ?_, rfl, ⟨hpage, hroot, ChildrenHold.aggregateTextInfo_eq hroot.2.2, ?_, ?_⟩, h₂⟩
    · rw [ofString, if_neg hbytes]
      dsimp only
      rw [hleafs]
      simp only [bind_eq_bind, bind_some, head?_cons, hlevels]
      rfl
    · simpa [Nat.add_comm] using htree
    · rw [levels, hbottom, leafsWithTextInfo_pages]
      rfl

/-- Only leaves that hold whole characters make a well-formed rope. -/
theorem cuts_of_ofString {pageSize leafCapacity innerCapacity : ℕ} (hpage : 32 ≤ pageSize)
    (hleaf : 4 ≤ leafCapacity) {text : List Char} {pages pages' : Pages} {rope : Rope}
    (h : ofString pageSize (utf8 text) leafCapacity innerCapacity pages = some (rope, pages'))
    (hwell : WellFormed pages' rope text)
    (hlong : LeafNode.capacity pageSize < (utf8 text).length) :
    2 ≤ InnerNode.capacity pageSize ∧
      CutsAscii (LeafNode.capacity pageSize) (min (LeafNode.capacity pageSize) leafCapacity)
        (utf8 text) := by
  have hpos : 0 < min (LeafNode.capacity pageSize) leafCapacity := by
    rw [LeafNode.capacity]
    omega
  have hle := Nat.min_le_left (LeafNode.capacity pageSize) leafCapacity
  have hbytes : utf8 text ≠ [] := ne_nil_of_length_pos (Nat.zero_lt_of_lt hlong)
  rw [ofString, if_neg hbytes] at h
  simp only [bind_eq_bind, bind_eq_some_iff] at h
  obtain ⟨⟨leafs, pages₁⟩, hleafs, h⟩ := h
  match leafs with
  | [] => cases h
  | [leaf] =>
    obtain ⟨rfl, rfl⟩ := Prod.mk.inj (some.inj h)
    obtain ⟨hdata, hfits⟩ := Node.holds_leaf_iff.mp hwell.represents.holds
    rw [hdata] at hfits
    exact absurd hlong (Nat.not_lt_of_le hfits)
  | first :: second :: rest =>
    simp only [head?_cons, bind_some, bind_eq_some_iff] at h
    obtain ⟨⟨⟨height, root⟩, treeHeight, pages₂⟩, hlevels, h⟩ := h
    obtain ⟨rfl, rfl⟩ := Prod.mk.inj (some.inj h)
    have hroom : 2 ≤ min (InnerNode.capacity pageSize) innerCapacity := by
      by_contra hsmall
      have hnone := @bulkLevels_eq_none _ (by omega :
        min (InnerNode.capacity pageSize) innerCapacity ≤ 1) (first :: second :: rest).length 0
        (leafsWithTextInfo (first :: second :: rest)) 1 pages₁ (Nat.le_add_left 2 _)
      rw [hlevels] at hnone
      cases hnone
    have hkept := bulkLevels_leafs (by omega) hlevels
    rw [leafsWithTextInfo_leafs] at hkept
    have hholds := Node.Holds.leafs hwell.represents.holds
    dsimp only at hholds
    rw [hkept] at hholds
    exact ⟨hroom.trans (Nat.min_le_left ..), cutsAscii_of_bulkLeafs hpos hle hleafs hholds⟩

/-- The constructor builds a well-formed rope of the text if and only if the text
fits on one page, or inner nodes have room for two children and all cuts between
leaves lie behind ASCII bytes. -/
theorem ofString_wellFormed_iff {pageSize leafCapacity innerCapacity : ℕ} (hpage : 32 ≤ pageSize)
    (hleaf : 4 ≤ leafCapacity) (hinner : 2 ≤ innerCapacity) (text : List Char) (pages : Pages) :
    (∃ rope pages',
      ofString pageSize (utf8 text) leafCapacity innerCapacity pages = some (rope, pages') ∧
        rope.pageSize = pageSize ∧ WellFormed pages' rope text) ↔
      (utf8 text).length ≤ LeafNode.capacity pageSize ∨
        (2 ≤ InnerNode.capacity pageSize ∧
          CutsAscii (LeafNode.capacity pageSize) (min (LeafNode.capacity pageSize) leafCapacity)
            (utf8 text)) := by
  constructor
  · intro ⟨rope, pages', hrope, hsize, hwell⟩
    by_cases hfits : (utf8 text).length ≤ LeafNode.capacity pageSize
    · exact Or.inl hfits
    · exact Or.inr (cuts_of_ofString hpage hleaf hrope hwell (Nat.lt_of_not_le hfits))
  · rintro (hfits | ⟨htwo, hcuts⟩)
    · refine ofString_wellFormed hpage hleaf hinner pages (fun k hk => ?_) (Or.inl hfits)
      omega
    · exact ofString_wellFormed hpage hleaf hinner pages hcuts (Or.inr htwo)

/-- The first of several leaves with room for four bytes ends inside the third
character. -/
theorem ofString_not_wellFormed :
    ¬ ∃ rope pages',
      ofString 96 (utf8 ('a' :: 'a' :: 'é' :: List.replicate 70 'b')) 4 2 Pages.empty =
          some (rope, pages') ∧
        rope.pageSize = 96 ∧
        WellFormed pages' rope ('a' :: 'a' :: 'é' :: List.replicate 70 'b') := by
  rintro ⟨rope, pages', hrope, -, hwell⟩
  have hcuts := (cuts_of_ofString (by decide) (by decide) hrope hwell (by decide +kernel)).2
  have hascii := hcuts 0 (by decide +kernel) 169 (by decide +kernel)
  exact absurd hascii (by decide)

/-- A text of one-byte characters, packed four to a leaf and two to an inner node. -/
theorem ofString_wellFormed_iff_ascii :
    ∃ rope pages',
      ofString 96 (utf8 (List.replicate 80 'b')) 4 2 Pages.empty = some (rope, pages') ∧
        rope.pageSize = 96 ∧ WellFormed pages' rope (List.replicate 80 'b') := by
  refine (ofString_wellFormed_iff (by decide) (by decide) (by decide) _ _).mpr
    (Or.inr ⟨by decide, fun k hk byte hbyte => ?_⟩)
  have hlength : (utf8 (List.replicate 80 'b')).length = 80 := by decide +kernel
  have hbytes : utf8 (List.replicate 80 'b') = List.replicate 80 98 := by decide +kernel
  rw [hbytes, mem_def] at hbyte
  have hmem := List.mem_of_getElem? hbyte
  rw [(mem_replicate.mp hmem).2]
  decide

theorem toString_eq_of_ofString :
    ∃ rope pages', ofString 96 (utf8 ['a', 'b']) 4 2 Pages.empty = some (rope, pages') ∧
      rope.toString pages' = some (utf8 ['a', 'b']) := by
  have hfits : (utf8 ['a', 'b']).length ≤ LeafNode.capacity 96 := by decide
  obtain ⟨rope, pages', hrope, -, hwell⟩ := @ofString_wellFormed 96 4 2 (by decide) (by decide)
    (by decide) ['a', 'b'] Pages.empty (by intro k hk; omega) (Or.inl hfits)
  exact ⟨rope, pages', hrope, toString_eq hwell⟩

end DashQL.Rope
