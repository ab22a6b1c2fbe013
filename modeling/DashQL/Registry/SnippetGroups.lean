import DashQL.Library.FirstOccurrences
import DashQL.Library.Replay
import DashQL.Snippet.DeepEquality

/-!
# Groups of snippets

The registry collects the snippets of a column in groups: two snippets are in one group if they
are equal up to names and literals.  A group is found with a hash, and its key refers to the first
snippet in it.

A snippet is dropped if it is equal to the last one of its group.  An older one of the group is
not looked at, so a snippet that comes back after another one is kept twice
(`grouped_of_run_iff`).
-/

namespace DashQL.Registry

open List Option

open DashQL.Parser (Node)
open Snippet

/-! ## Adding a snippet -/

section Model

variable (hasher : ℕ → UInt64) (stringHash : List UInt8 → ℕ)

/-- `ScriptSnippet::Key<true>`. -/
structure SnippetKey where
  snippet : ScriptSnippet
  signature : Option UInt64

/-- The constructor of the key. -/
def SnippetKey.ofSnippet (snippet : ScriptSnippet) : SnippetKey where
  snippet := snippet
  signature := snippet.computeSignature hasher stringHash true

/-- A lookup stops at a key with the same hash that compares equal. -/
def SnippetKey.finds (key stored : SnippetKey) : Bool :=
  decide (key.signature = stored.signature) &&
    decide (key.snippet.equals stored.snippet true = some true)

/-- `ScriptRegistry::SnippetMap`: the keys with their snippets, in no particular order. -/
abbrev SnippetMap := List (SnippetKey × List ScriptSnippet)

def rememberSnippet (snippet : ScriptSnippet) (entry : SnippetKey × List ScriptSnippet) :
    SnippetKey × List ScriptSnippet :=
  (entry.1, entry.2 ++ [snippet])

/-- `addSnippetToGroup`: whether the snippet was added, and the map.  There is no result if the
comparison throws. -/
def addSnippetToGroup (snippet : ScriptSnippet) (snippets : SnippetMap)
    (deduplicateSimilar : Bool := false) : Option (Bool × SnippetMap) :=
  let snippetKey := SnippetKey.ofSnippet hasher stringHash snippet
  match snippets.findIdx? fun entry => snippetKey.finds entry.1 with
  | some iter =>
    (snippets[iter]?).bind fun entry => (entry.2.getLast?).bind fun back =>
      (back.equals snippet deduplicateSimilar).map fun equal =>
        if equal then (false, snippets)
        else (true, snippets.modify iter (rememberSnippet snippet))
  | none => some (true, snippets ++ [(snippetKey, [snippet])])

/-- A map with the snippets that were given to it so far. -/
structure SnippetCollection where
  snippets : SnippetMap
  added : List ScriptSnippet

def SnippetCollection.empty : SnippetCollection := ⟨[], []⟩

/-- A call, which leaves the map as it is if it throws. -/
def SnippetCollection.add (snippet : ScriptSnippet) (collection : SnippetCollection) :
    SnippetCollection where
  snippets :=
    match addSnippetToGroup hasher stringHash snippet collection.snippets with
    | some result => result.2
    | none => collection.snippets
  added := collection.added ++ [snippet]

end Model

/-! ## Equal snippets -/

section Equality

/-- Equal up to names and literals. -/
def Similar (a b : ScriptSnippet) : Prop := a.equals b true = some true

/-- Equal with names and literals. -/
def Same (a b : ScriptSnippet) : Prop := a.equals b false = some true

instance : DecidableRel Similar := fun a b =>
  inferInstanceAs (Decidable (a.equals b true = some true))

instance : DecidableRel Same := fun a b =>
  inferInstanceAs (Decidable (a.equals b false = some true))

/-- The literals have a text, so that comparing the snippet does not throw. -/
def LiteralsInText (snippet : ScriptSnippet) : Prop :=
  ∀ node ∈ snippet.nodes, comparedAs node.nodeType = .literal → (snippet.literalText node).isSome

/-- What is compared of nodes if names and literals are skipped. -/
structure Masked (n m : Node) : Prop where
  nodeType : n.nodeType = m.nodeType
  attributeKey : n.attributeKey = m.attributeKey
  other : comparedAs n.nodeType = .other →
    n.childrenBeginOrValue = m.childrenBeginOrValue ∧ n.childrenCount = m.childrenCount

variable {a b c : ScriptSnippet} {n m o : Node}

theorem nodesAreEqual_true_iff : a.nodesAreEqual b true n m = some true ↔ Masked n m := by
  unfold ScriptSnippet.nodesAreEqual
  constructor
  · intro h
    split at h
    · next hcase =>
        simp only [if_true, some.injEq, Bool.and_eq_true, decide_eq_true_eq] at h
        exact ⟨h.1, h.2, fun hother => absurd (hcase.symm.trans hother) (by decide)⟩
    · next hcase =>
        simp only [if_true, some.injEq, Bool.and_eq_true, decide_eq_true_eq] at h
        exact ⟨h.1, h.2, fun hother => absurd (hcase.symm.trans hother) (by decide)⟩
    · next hcase =>
        simp only [some.injEq, Bool.and_eq_true, decide_eq_true_eq] at h
        exact ⟨h.1.1.1, h.1.1.2, fun _ => ⟨h.1.2, h.2⟩⟩
  · intro h
    split
    · simp [h.nodeType, h.attributeKey]
    · simp [h.nodeType, h.attributeKey]
    · next hcase => simp [h.nodeType, h.attributeKey, h.other hcase]

theorem similar_iff : Similar a b ↔ List.Forall₂ Masked a.nodes b.nodes := by
  unfold Similar
  rw [equals_iff]
  simp only [nodesAreEqual_true_iff]

theorem Masked.refl (n : Node) : Masked n n := ⟨rfl, rfl, fun _ => ⟨rfl, rfl⟩⟩

theorem Masked.symm (h : Masked n m) : Masked m n where
  nodeType := h.nodeType.symm
  attributeKey := h.attributeKey.symm
  other := by
    intro hother
    obtain ⟨hvalue, hcount⟩ := h.other (h.nodeType ▸ hother)
    exact ⟨hvalue.symm, hcount.symm⟩

theorem Masked.trans (h : Masked n m) (h' : Masked m o) : Masked n o where
  nodeType := h.nodeType.trans h'.nodeType
  attributeKey := h.attributeKey.trans h'.attributeKey
  other := by
    intro hother
    obtain ⟨hvalue, hcount⟩ := h.other hother
    obtain ⟨hvalue', hcount'⟩ := h'.other (h.nodeType ▸ hother)
    exact ⟨hvalue.trans hvalue', hcount.trans hcount'⟩

theorem Similar.refl (a : ScriptSnippet) : Similar a a :=
  similar_iff.mpr (forall₂_same.mpr fun n _ => Masked.refl n)

theorem Similar.symm (h : Similar a b) : Similar b a :=
  similar_iff.mpr ((similar_iff.mp h).imp fun _ _ => Masked.symm).flip

theorem forall₂_comp {α : Type} {r s t : α → α → Prop} {xs ys zs : List α}
    (hr : ∀ x y z, r x y → s y z → t x z) (h : List.Forall₂ r xs ys) :
    List.Forall₂ s ys zs → List.Forall₂ t xs zs := by
  induction h generalizing zs with
  | nil =>
    intro h'
    cases h'
    exact List.Forall₂.nil
  | cons hhead _ ih =>
    intro h'
    cases h' with
    | cons hhead' hrest' => exact List.Forall₂.cons (hr _ _ _ hhead hhead') (ih hrest')

theorem Similar.trans (h : Similar a b) (h' : Similar b c) : Similar a c := by
  have hmasked : ∀ n m o, Masked n m → Masked m o → Masked n o := fun _ _ _ => Masked.trans
  exact similar_iff.mpr (forall₂_comp hmasked (similar_iff.mp h) (similar_iff.mp h'))

theorem alike_symm (h : Alike a b n m) : Alike b a m n where
  nodeType := h.nodeType.symm
  attributeKey := h.attributeKey.symm
  name := fun hname => (h.name (h.nodeType ▸ hname)).symm
  literal := by
    intro hliteral
    obtain ⟨htext, hsome⟩ := h.literal (h.nodeType ▸ hliteral)
    exact ⟨htext.symm, htext ▸ hsome⟩
  other := by
    intro hother
    obtain ⟨hvalue, hcount⟩ := h.other (h.nodeType ▸ hother)
    exact ⟨hvalue.symm, hcount.symm⟩

theorem Same.symm (h : Same a b) : Same b a :=
  equals_false_iff.mpr ((equals_false_iff.mp h).imp fun _ _ => alike_symm).flip

theorem alike_trans (h : Alike a b n m) (h' : Alike b c m o) : Alike a c n o where
  nodeType := h.nodeType.trans h'.nodeType
  attributeKey := h.attributeKey.trans h'.attributeKey
  name := fun hname => (h.name hname).trans (h'.name (h.nodeType ▸ hname))
  literal := by
    intro hliteral
    obtain ⟨htext, hsome⟩ := h.literal hliteral
    exact ⟨htext.trans (h'.literal (h.nodeType ▸ hliteral)).1, hsome⟩
  other := by
    intro hother
    obtain ⟨hvalue, hcount⟩ := h.other hother
    obtain ⟨hvalue', hcount'⟩ := h'.other (h.nodeType ▸ hother)
    exact ⟨hvalue.trans hvalue', hcount.trans hcount'⟩

theorem Same.trans (h : Same a b) (h' : Same b c) : Same a c := by
  have halike : ∀ n m o, Alike a b n m → Alike b c m o → Alike a c n o :=
    fun _ _ _ => alike_trans
  exact equals_false_iff.mpr (forall₂_comp halike (equals_false_iff.mp h) (equals_false_iff.mp h'))

/-- Exactly the snippets with literals in their text are the same as themselves. -/
theorem same_self_iff : Same a a ↔ LiteralsInText a := by
  unfold Same
  rw [equals_false_iff, forall₂_same]
  constructor
  · intro h node hnode hliteral
    exact ((h node hnode).literal hliteral).2
  · intro h node hnode
    exact ⟨rfl, rfl, fun _ => rfl, fun hliteral => ⟨rfl, h node hnode hliteral⟩,
      fun _ => ⟨rfl, rfl⟩⟩

theorem Same.literalsInText (h : Same a b) : LiteralsInText b :=
  same_self_iff.mp (h.symm.trans h)

theorem nodesAreEqual_isSome
    (hn : comparedAs n.nodeType = .literal → (a.literalText n).isSome)
    (hm : comparedAs m.nodeType = .literal → (b.literalText m).isSome)
    (hcompared : comparedAs n.nodeType = comparedAs m.nodeType) :
    (a.nodesAreEqual b false n m).isSome := by
  unfold ScriptSnippet.nodesAreEqual
  split
  · rfl
  · next hcase =>
      obtain ⟨left, hleft⟩ := isSome_iff_exists.mp (hn hcase)
      obtain ⟨right, hright⟩ := isSome_iff_exists.mp (hm (hcompared ▸ hcase))
      rw [hleft, hright]
      rfl
  · rfl

theorem scriptsAreEqual_isSome (ns ms : List Node)
    (hns : ∀ n ∈ ns, comparedAs n.nodeType = .literal → (a.literalText n).isSome)
    (hms : ∀ m ∈ ms, comparedAs m.nodeType = .literal → (b.literalText m).isSome)
    (hcompared : List.Forall₂ Masked ns ms) :
    (a.scriptsAreEqual b false ns ms).isSome := by
  induction hcompared with
  | nil => rfl
  | @cons n m ns ms hnode _ ih =>
    unfold ScriptSnippet.scriptsAreEqual
    have hfirst := nodesAreEqual_isSome (hns n (by simp)) (hms m (by simp))
      (congrArg comparedAs hnode.nodeType)
    obtain ⟨equal, hequal⟩ := isSome_iff_exists.mp hfirst
    rw [hequal, bind_some]
    split_ifs
    · exact ih (fun n hn => hns n (mem_cons_of_mem _ hn)) (fun m hm => hms m (mem_cons_of_mem _ hm))
    · rfl

/-- Similar snippets with literals in their texts can be compared. -/
theorem equals_isSome (ha : LiteralsInText a) (hb : LiteralsInText b) (h : Similar a b) :
    (a.equals b false).isSome := by
  have hmasked := similar_iff.mp h
  unfold ScriptSnippet.equals
  rw [if_neg (not_not.mpr hmasked.length_eq)]
  exact scriptsAreEqual_isSome a.nodes b.nodes ha hb hmasked

end Equality

/-! ## The groups of a collection -/

section Groups

variable (hasher : ℕ → UInt64) (stringHash : List UInt8 → ℕ)

theorem finds_ofSnippet_iff (a b : ScriptSnippet) :
    (SnippetKey.ofSnippet hasher stringHash a).finds (SnippetKey.ofSnippet hasher stringHash b) =
      true ↔ Similar a b := by
  unfold SnippetKey.finds SnippetKey.ofSnippet
  rw [Bool.and_eq_true, decide_eq_true_eq, decide_eq_true_eq]
  apply and_iff_right_of_imp
  intro h
  exact computeSignature_eq h

/-- The key of an entry refers to the first snippet of the group, and the snippets of the group
are given ones that are similar to it. -/
structure Filed (added : List ScriptSnippet) (entry : SnippetKey × List ScriptSnippet) : Prop where
  key : entry.1 = SnippetKey.ofSnippet hasher stringHash entry.1.snippet
  first : entry.2.head? = some entry.1.snippet
  similar : ∀ snippet ∈ entry.2, Similar entry.1.snippet snippet
  given : ∀ snippet ∈ entry.2, snippet ∈ added

/-- What holds in every run: the keys tell groups apart, and every snippet has its group. -/
structure Indexed (collection : SnippetCollection) : Prop where
  filed : ∀ entry ∈ collection.snippets, Filed hasher stringHash collection.added entry
  distinct : collection.snippets.Pairwise fun entry other =>
    ¬ Similar entry.1.snippet other.1.snippet
  indexed : ∀ snippet ∈ collection.added, ∃ entry ∈ collection.snippets,
    Similar entry.1.snippet snippet

/-- A group as it should be: its snippets have one structure, no two of them are the same, and
they are the first occurrences among the given snippets of that structure, in order. -/
structure GroupOf (added : List ScriptSnippet) (entry : SnippetKey × List ScriptSnippet) :
    Prop where
  similar : ∀ left ∈ entry.2, ∀ right ∈ entry.2, Similar left right
  distinct : entry.2.Pairwise fun left right => ¬ Same left right
  ordered : entry.2 = firstOccurrences Same (added.filter fun snippet =>
    decide (Similar entry.1.snippet snippet))

/-- All groups are as they should be, and every given snippet is the same as one in its group. -/
structure Grouped (collection : SnippetCollection) : Prop where
  groups : ∀ entry ∈ collection.snippets, GroupOf collection.added entry
  present : ∀ snippet ∈ collection.added, ∃ entry ∈ collection.snippets,
    Similar entry.1.snippet snippet ∧ ∃ stored ∈ entry.2, Same stored snippet

/-- The literals of the snippet lie in its text, and it is the same as none of the snippets of its
group but possibly the last. -/
structure Fresh (snippet : ScriptSnippet) (collection : SnippetCollection) : Prop where
  literals : LiteralsInText snippet
  fresh : ∀ entry ∈ collection.snippets, Similar entry.1.snippet snippet →
    ∀ stored ∈ entry.2.dropLast, ¬ Same stored snippet

variable {hasher stringHash} {collection : SnippetCollection} {snippet : ScriptSnippet}

theorem Filed.ne_nil {added : List ScriptSnippet} {entry : SnippetKey × List ScriptSnippet}
    (h : Filed hasher stringHash added entry) : entry.2 ≠ [] := by
  intro hnil
  have hfirst := h.first
  rw [hnil] at hfirst
  exact absurd hfirst (by simp)

theorem Filed.finds_iff {added : List ScriptSnippet} {entry : SnippetKey × List ScriptSnippet}
    (h : Filed hasher stringHash added entry) :
    (SnippetKey.ofSnippet hasher stringHash snippet).finds entry.1 = true ↔
      Similar entry.1.snippet snippet := by
  rw [h.key]
  exact (finds_ofSnippet_iff hasher stringHash snippet entry.1.snippet).trans
    ⟨Similar.symm, Similar.symm⟩

section

variable (h : Indexed hasher stringHash collection)

include h

/-- What a call can do: start a group, add to the group of the snippet, or nothing. -/
theorem add_cases (snippet : ScriptSnippet) :
    ((∀ entry ∈ collection.snippets, ¬ Similar entry.1.snippet snippet) ∧
      (collection.add hasher stringHash snippet).snippets =
        collection.snippets ++ [(.ofSnippet hasher stringHash snippet, [snippet])]) ∨
    ∃ front entry back last, collection.snippets = front ++ entry :: back ∧
      Similar entry.1.snippet snippet ∧ entry.2.getLast? = some last ∧
      ((last.equals snippet false = some false ∧
          (collection.add hasher stringHash snippet).snippets =
            front ++ rememberSnippet snippet entry :: back) ∨
        (last.equals snippet false ≠ some false ∧
          (collection.add hasher stringHash snippet).snippets = collection.snippets)) := by
  unfold SnippetCollection.add addSnippetToGroup
  dsimp only
  cases hfind : collection.snippets.findIdx? fun entry =>
      (SnippetKey.ofSnippet hasher stringHash snippet).finds entry.1 with
  | none =>
    refine Or.inl ⟨?_, rfl⟩
    intro entry hentry hsimilar
    have hnone := findIdx?_eq_none_iff.mp hfind entry hentry
    rw [(h.filed entry hentry).finds_iff.mpr hsimilar] at hnone
    cases hnone
  | some iter =>
    obtain ⟨hiter, hfound, -⟩ := findIdx?_eq_some_iff_getElem.mp hfind
    have hentry := (h.filed _ (getElem_mem hiter))
    have hback := getLast?_eq_some_getLast hentry.ne_nil
    refine Or.inr ⟨collection.snippets.take iter, collection.snippets[iter],
      collection.snippets.drop (iter + 1), _, ?_, hentry.finds_iff.mp hfound, hback, ?_⟩
    · rw [getElem_cons_drop, take_append_drop]
    · dsimp only
      rw [getElem?_eq_getElem hiter, bind_some, hback, bind_some]
      generalize collection.snippets[iter].2.getLast hentry.ne_nil = last
      cases hequals : last.equals snippet false with
      | none => exact Or.inr ⟨by simp, rfl⟩
      | some equal =>
        cases equal with
        | true => exact Or.inr ⟨by simp, rfl⟩
        | false =>
          refine Or.inl ⟨rfl, ?_⟩
          rw [map_some, if_neg (by simp)]
          exact modify_eq_take_cons_drop hiter

theorem Indexed.not_similar_of_split {front back : SnippetMap}
    {entry other : SnippetKey × List ScriptSnippet}
    (hsplit : collection.snippets = front ++ entry :: back)
    (hsimilar : Similar entry.1.snippet snippet) (hother : other ∈ front ∨ other ∈ back) :
    ¬ Similar other.1.snippet snippet := by
  intro hsimilar'
  have hdistinct := h.distinct
  rw [hsplit, pairwise_append, pairwise_cons] at hdistinct
  obtain hfront | hback := hother
  · exact hdistinct.2.2 other hfront entry (by simp) (hsimilar'.trans hsimilar.symm)
  · exact hdistinct.2.1.1 other hback (hsimilar.trans hsimilar'.symm)

/-- A snippet has one group at most. -/
theorem Indexed.unique {entry other : SnippetKey × List ScriptSnippet}
    (hentry : entry ∈ collection.snippets) (hother : other ∈ collection.snippets)
    (hsimilar : Similar entry.1.snippet snippet) (hsimilar' : Similar other.1.snippet snippet) :
    other = entry := by
  obtain ⟨front, back, hsplit⟩ := append_of_mem hentry
  rw [hsplit, mem_append, mem_cons] at hother
  obtain hfront | heq | hback := hother
  · exact absurd hsimilar' (h.not_similar_of_split hsplit hsimilar (Or.inl hfront))
  · exact heq
  · exact absurd hsimilar' (h.not_similar_of_split hsplit hsimilar (Or.inr hback))

end

theorem Filed.mono {added : List ScriptSnippet} {entry : SnippetKey × List ScriptSnippet}
    (h : Filed hasher stringHash added entry) :
    Filed hasher stringHash (added ++ [snippet]) entry where
  key := h.key
  first := h.first
  similar := h.similar
  given := fun stored hstored => mem_append_left _ (h.given stored hstored)

theorem Filed.remember {added : List ScriptSnippet} {entry : SnippetKey × List ScriptSnippet}
    (h : Filed hasher stringHash added entry) (hsimilar : Similar entry.1.snippet snippet) :
    Filed hasher stringHash (added ++ [snippet]) (rememberSnippet snippet entry) where
  key := h.key
  first := by
    show (entry.2 ++ [snippet]).head? = some entry.1.snippet
    rw [head?_append, h.first, some_or]
  similar := by
    intro stored hstored
    obtain hold | hnew := mem_append.mp hstored
    · exact h.similar stored hold
    · rw [mem_singleton.mp hnew]
      exact hsimilar
  given := by
    intro stored hstored
    obtain hold | hnew := mem_append.mp hstored
    · exact mem_append_left _ (h.given stored hold)
    · exact mem_append_right _ hnew

theorem filed_ofSnippet (added : List ScriptSnippet) :
    Filed hasher stringHash (added ++ [snippet]) (.ofSnippet hasher stringHash snippet, [snippet])
    where
  key := rfl
  first := rfl
  similar := by
    intro stored hstored
    rw [mem_singleton.mp hstored]
    exact Similar.refl snippet
  given := fun stored hstored => mem_append_right _ hstored

/-- Calls keep the keys apart and give every snippet a group. -/
theorem Indexed.add (h : Indexed hasher stringHash collection) (snippet : ScriptSnippet) :
    Indexed hasher stringHash (collection.add hasher stringHash snippet) := by
  obtain ⟨hnone, hsnippets⟩ | ⟨front, entry, back, last, hsplit, hsimilar, -, hcase⟩ :=
    add_cases h snippet
  · refine ⟨?_, ?_, ?_⟩ <;> rw [hsnippets]
    · intro entry hentry
      obtain hold | hnew := mem_append.mp hentry
      · exact (h.filed entry hold).mono
      · rw [mem_singleton.mp hnew]
        exact filed_ofSnippet collection.added
    · refine pairwise_append.mpr ⟨h.distinct, pairwise_singleton _ _, ?_⟩
      intro entry hentry other hother
      rw [mem_singleton.mp hother]
      exact hnone entry hentry
    · intro stored hstored
      obtain hold | hnew := mem_append.mp hstored
      · obtain ⟨entry, hentry, hsimilar⟩ := h.indexed stored hold
        exact ⟨entry, mem_append_left _ hentry, hsimilar⟩
      · rw [mem_singleton.mp hnew]
        exact ⟨_, mem_append_right _ (mem_singleton_self _), Similar.refl snippet⟩
  · have hindexed : ∀ stored ∈ collection.added ++ [snippet], ∃ other ∈ collection.snippets,
        Similar other.1.snippet stored := by
      intro stored hstored
      obtain hold | hnew := mem_append.mp hstored
      · exact h.indexed stored hold
      · rw [mem_singleton.mp hnew]
        exact ⟨entry, by rw [hsplit]; simp, hsimilar⟩
    obtain ⟨-, hsnippets⟩ | ⟨-, hsnippets⟩ := hcase
    · refine ⟨?_, ?_, ?_⟩ <;> rw [hsnippets]
      · have hfiled := h.filed
        rw [hsplit, forall_mem_append, forall_mem_cons] at hfiled
        rw [forall_mem_append, forall_mem_cons]
        exact ⟨fun other hother => (hfiled.1 other hother).mono, hfiled.2.1.remember hsimilar,
          fun other hother => (hfiled.2.2 other hother).mono⟩
      · have hdistinct := h.distinct
        rw [hsplit] at hdistinct
        rw [pairwise_append, pairwise_cons] at hdistinct ⊢
        refine ⟨hdistinct.1, hdistinct.2.1, ?_⟩
        intro other hother
        rw [forall_mem_cons]
        have hfront := hdistinct.2.2 other hother
        rw [forall_mem_cons] at hfront
        exact hfront
      · intro stored hstored
        obtain ⟨other, hother, hsimilar'⟩ := hindexed stored hstored
        rw [hsplit, mem_append, mem_cons] at hother
        obtain hfront | rfl | hback := hother
        · exact ⟨other, by simp [hfront], hsimilar'⟩
        · exact ⟨rememberSnippet snippet other, by simp, hsimilar'⟩
        · exact ⟨other, by simp [hback], hsimilar'⟩
    · refine ⟨?_, ?_, ?_⟩ <;> rw [hsnippets]
      · exact fun other hother => (h.filed other hother).mono
      · exact h.distinct
      · exact hindexed

theorem indexed_empty : Indexed hasher stringHash .empty where
  filed := fun _ hentry => absurd hentry (not_mem_nil)
  distinct := List.Pairwise.nil
  indexed := fun _ hstored => absurd hstored (not_mem_nil)

variable {added : List ScriptSnippet} {entry : SnippetKey × List ScriptSnippet}

theorem filter_concat_of_similar (hsimilar : Similar entry.1.snippet snippet) :
    (added ++ [snippet]).filter (fun stored => decide (Similar entry.1.snippet stored)) =
      added.filter (fun stored => decide (Similar entry.1.snippet stored)) ++ [snippet] := by
  rw [filter_append]
  congr 1
  exact filter_cons_of_pos (decide_eq_true hsimilar)

/-- A snippet of another structure is nothing to a group. -/
theorem GroupOf.other (h : GroupOf added entry) (hnot : ¬ Similar entry.1.snippet snippet) :
    GroupOf (added ++ [snippet]) entry where
  similar := h.similar
  distinct := h.distinct
  ordered := by
    rw [filter_append, filter_cons_of_neg (by simpa using hnot), filter_nil, append_nil]
    exact h.ordered

theorem GroupOf.again (h : GroupOf added entry) (hsimilar : Similar entry.1.snippet snippet)
    {stored : ScriptSnippet} (hstored : stored ∈ entry.2) (hsame : Same stored snippet) :
    GroupOf (added ++ [snippet]) entry where
  similar := h.similar
  distinct := h.distinct
  ordered := by
    rw [filter_concat_of_similar hsimilar,
      firstOccurrences_concat_of_same (h.ordered ▸ hstored) hsame]
    exact h.ordered

/-- A new one of the structure goes to the end. -/
theorem GroupOf.remember (h : GroupOf added entry) (hfiled : Filed hasher stringHash added entry)
    (hsimilar : Similar entry.1.snippet snippet)
    (hnew : ∀ stored ∈ entry.2, ¬ Same stored snippet) :
    GroupOf (added ++ [snippet]) (rememberSnippet snippet entry) where
  similar := by
    have hkey := (hfiled.remember hsimilar).similar
    intro left hleft right hright
    exact (hkey left hleft).symm.trans (hkey right hright)
  distinct := by
    refine pairwise_append.mpr ⟨h.distinct, pairwise_singleton _ _, ?_⟩
    intro stored hstored other hother
    rw [mem_singleton.mp hother]
    exact hnew stored hstored
  ordered := by
    show entry.2 ++ [snippet] = _
    rw [show (rememberSnippet snippet entry).1 = entry.1 from rfl,
      filter_concat_of_similar hsimilar,
      firstOccurrences_concat_of_new (h.ordered ▸ hnew), ← h.ordered]

theorem groupOf_ofSnippet (hnone : ∀ stored ∈ added, ¬ Similar snippet stored) :
    GroupOf (added ++ [snippet]) (.ofSnippet hasher stringHash snippet, [snippet]) where
  similar := by
    intro left hleft right hright
    rw [mem_singleton.mp hleft, mem_singleton.mp hright]
    exact Similar.refl snippet
  distinct := pairwise_singleton _ _
  ordered := by
    rw [filter_concat_of_similar (Similar.refl snippet), filter_eq_nil_iff.mpr,
      nil_append, firstOccurrences_singleton]
    intro stored hstored
    rw [decide_eq_true_eq]
    exact hnone stored hstored

theorem Grouped.literals (h : Grouped collection) {stored : ScriptSnippet}
    (hstored : stored ∈ collection.added) : LiteralsInText stored := by
  obtain ⟨entry, -, -, other, -, hsame⟩ := h.present stored hstored
  exact hsame.literalsInText

section

variable (hindexed : Indexed hasher stringHash collection)

include hindexed

/-- The group of a fresh snippet has it at most at the end. -/
theorem same_last_of_literals (h : Grouped collection) (hentry : entry ∈ collection.snippets)
    (hsimilar : Similar entry.1.snippet snippet) {last : ScriptSnippet}
    (hlast : entry.2.getLast? = some last) (hliterals : LiteralsInText snippet)
    (hequals : last.equals snippet false ≠ some false) : Same last snippet := by
  have hfiled := hindexed.filed entry hentry
  have hmem : last ∈ entry.2 := mem_of_getLast? hlast
  have hlast_similar : Similar last snippet := (hfiled.similar last hmem).symm.trans hsimilar
  have hsome := equals_isSome (h.literals (hfiled.given last hmem)) hliterals hlast_similar
  obtain ⟨equal, hequal⟩ := isSome_iff_exists.mp hsome
  cases equal with
  | true => exact hequal
  | false => exact absurd hequal hequals

/-- What a call leaves of the groups and of the snippets that are present. -/
theorem Grouped.add (h : Grouped collection) (hfresh : Fresh snippet collection) :
    Grouped (collection.add hasher stringHash snippet) := by
  have hself : Same snippet snippet := same_self_iff.mpr hfresh.literals
  obtain ⟨hnone, hsnippets⟩ | ⟨front, entry, back, last, hsplit, hsimilar, hlast, hcase⟩ :=
    add_cases hindexed snippet
  · have hadded : ∀ stored ∈ collection.added, ¬ Similar snippet stored := by
      intro stored hstored hsimilar
      obtain ⟨entry, hentry, hentry_similar⟩ := hindexed.indexed stored hstored
      exact hnone entry hentry (hentry_similar.trans hsimilar.symm)
    refine ⟨?_, ?_⟩ <;> rw [hsnippets]
    · intro entry hentry
      obtain hold | hnew := mem_append.mp hentry
      · exact (h.groups entry hold).other (hnone entry hold)
      · rw [mem_singleton.mp hnew]
        exact groupOf_ofSnippet hadded
    · intro stored hstored
      obtain hold | hnew := mem_append.mp hstored
      · obtain ⟨entry, hentry, hpresent⟩ := h.present stored hold
        exact ⟨entry, mem_append_left _ hentry, hpresent⟩
      · rw [mem_singleton.mp hnew]
        exact ⟨_, mem_append_right _ (mem_singleton_self _), Similar.refl snippet,
          snippet, mem_singleton_self _, hself⟩
  · have hentry : entry ∈ collection.snippets := by rw [hsplit]; simp
    have hgroup := h.groups entry hentry
    have hfront : ∀ other ∈ front, GroupOf (collection.added ++ [snippet]) other :=
      fun other hother => (h.groups other (by rw [hsplit]; simp [hother])).other
        (hindexed.not_similar_of_split hsplit hsimilar (Or.inl hother))
    have hback : ∀ other ∈ back, GroupOf (collection.added ++ [snippet]) other :=
      fun other hother => (h.groups other (by rw [hsplit]; simp [hother])).other
        (hindexed.not_similar_of_split hsplit hsimilar (Or.inr hother))
    obtain ⟨hequals, hsnippets⟩ | ⟨hequals, hsnippets⟩ := hcase
    · have hnew : ∀ stored ∈ entry.2, ¬ Same stored snippet := by
        intro stored hstored
        rw [← dropLast_append_getLast? last hlast, mem_append, mem_singleton] at hstored
        obtain hearlier | rfl := hstored
        · exact hfresh.fresh entry hentry hsimilar stored hearlier
        · intro hsame
          exact absurd (hequals.symm.trans hsame) (by simp)
      refine ⟨?_, ?_⟩ <;> rw [hsnippets]
      · rw [forall_mem_append, forall_mem_cons]
        exact ⟨hfront, hgroup.remember (hindexed.filed entry hentry) hsimilar hnew, hback⟩
      · intro stored hstored
        obtain hold | hnew := mem_append.mp hstored
        · obtain ⟨other, hother, hother_similar, kept, hkept, hsame⟩ := h.present stored hold
          rw [hsplit, mem_append, mem_cons] at hother
          obtain hother | rfl | hother := hother
          · exact ⟨other, by simp [hother], hother_similar, kept, hkept, hsame⟩
          · exact ⟨rememberSnippet snippet other, by simp, hother_similar, kept,
              mem_append_left _ hkept, hsame⟩
          · exact ⟨other, by simp [hother], hother_similar, kept, hkept, hsame⟩
        · rw [mem_singleton.mp hnew]
          exact ⟨rememberSnippet snippet entry, by simp, hsimilar, snippet,
            mem_append_right _ (mem_singleton_self _), hself⟩
    · have hsame : Same last snippet :=
        same_last_of_literals hindexed h hentry hsimilar hlast hfresh.literals hequals
      have hmem : last ∈ entry.2 := mem_of_getLast? hlast
      refine ⟨?_, ?_⟩ <;> rw [hsnippets]
      · rw [hsplit, forall_mem_append, forall_mem_cons]
        exact ⟨hfront, hgroup.again hsimilar hmem hsame, hback⟩
      · intro stored hstored
        obtain hold | hnew := mem_append.mp hstored
        · exact h.present stored hold
        · rw [mem_singleton.mp hnew]
          exact ⟨entry, hentry, hsimilar, last, hmem, hsame⟩

theorem fresh_of_grouped_add (h : Grouped collection)
    (hafter : Grouped (collection.add hasher stringHash snippet)) : Fresh snippet collection := by
  have hliterals : LiteralsInText snippet :=
    hafter.literals (mem_append_right _ (mem_singleton_self _))
  refine ⟨hliterals, ?_⟩
  intro entry hentry hsimilar stored hstored hsame
  obtain ⟨hnone, -⟩ | ⟨front, found, back, last, hsplit, hfound, hlast, hcase⟩ :=
    add_cases hindexed snippet
  · exact hnone entry hentry hsimilar
  · obtain rfl : entry = found :=
      hindexed.unique (by rw [hsplit]; simp) hentry hfound hsimilar
    obtain ⟨-, hsnippets⟩ | ⟨hequals, -⟩ := hcase
    · -- The snippet stands behind the one that it is the same as.
      have hgroup := hafter.groups (rememberSnippet snippet entry) (by rw [hsnippets]; simp)
      have hdistinct := (pairwise_append.mp hgroup.distinct).2.2
      exact hdistinct stored (mem_of_mem_dropLast hstored) snippet (mem_singleton_self _) hsame
    · -- The last one is dropped for would be the same as the older one.
      have hlast_same : Same last snippet :=
        same_last_of_literals hindexed h hentry hsimilar hlast hliterals hequals
      have hdistinct := (h.groups entry hentry).distinct
      rw [← dropLast_append_getLast? last hlast, pairwise_append] at hdistinct
      exact hdistinct.2.2 stored hstored last (mem_singleton_self _) (hsame.trans hlast_same.symm)

end

theorem grouped_empty : Grouped .empty where
  groups := fun _ hentry => absurd hentry (not_mem_nil)
  present := fun _ hstored => absurd hstored (not_mem_nil)

/-- All along a run the groups are as they should be exactly if every snippet is fresh when it is
added: its literals lie in its text, and it is the same as no snippet of its group but possibly
the last one. -/
theorem grouped_of_run_iff (hasher : ℕ → UInt64) (stringHash : List UInt8 → ℕ)
    (snippets : List ScriptSnippet) :
    (∀ front back, snippets = front ++ back →
        Grouped (replay (SnippetCollection.add hasher stringHash) front .empty)) ↔
      ReplayMeets (SnippetCollection.add hasher stringHash) Fresh snippets .empty :=
  replay_invariant_iff_of_kept (Indexed hasher stringHash) Grouped
    (fun snippet _ hindexed => hindexed.add snippet)
    (fun _ _ hindexed h => ⟨fresh_of_grouped_add hindexed h, h.add hindexed⟩)
    indexed_empty grouped_empty

end Groups

/-! ## A snippet that comes back -/

def selectPlus (literal : String) : SourceScript where
  scannedScript :=
    { textBuffer := ("select a + " ++ literal ++ "\x00\x00").toUTF8.toList
      symbols := [⟨0, 6⟩, ⟨7, 1⟩, ⟨9, 1⟩, ⟨11, 1⟩]
      names := ["a".toUTF8.toList] }
  nodes :=
    [{ symbolSpan := ⟨1, 1⟩, nodeType := .name },
      { symbolSpan := ⟨1, 1⟩, nodeType := .array, attributeKey := 25, childrenCount := 1 },
      { symbolSpan := ⟨1, 1⟩, nodeType := .objectSqlColumnRef, childrenBeginOrValue := 1,
        childrenCount := 1 },
      { symbolSpan := ⟨3, 1⟩, nodeType := .literalInteger },
      { symbolSpan := ⟨1, 3⟩, nodeType := .array, attributeKey := 56, childrenBeginOrValue := 2,
        childrenCount := 2 },
      { symbolSpan := ⟨2, 1⟩, nodeType := .enumSqlExpressionOperator, attributeKey := 57,
        childrenBeginOrValue := 6 },
      { symbolSpan := ⟨1, 3⟩, nodeType := .objectSqlNaryExpression, attributeKey := 133,
        childrenBeginOrValue := 4, childrenCount := 2 },
      { symbolSpan := ⟨1, 3⟩, nodeType := .objectSqlResultTarget, childrenBeginOrValue := 6,
        childrenCount := 1 },
      { symbolSpan := ⟨1, 3⟩, nodeType := .array, attributeKey := 160, childrenBeginOrValue := 7,
        childrenCount := 1 },
      { symbolSpan := ⟨0, 4⟩, nodeType := .objectSqlSelect, childrenBeginOrValue := 8,
        childrenCount := 1 }]
  statements := [⟨9⟩]
  children_below := by decide
  leaves := by decide

def plusSnippet (literal : String) : ScriptSnippet :=
  (extract ("select a + " ++ literal).toUTF8.toList (selectPlus literal) [] 6 8).getD {}

example : (plusSnippet "1").text = "a + 1".toUTF8.toList := by decide +kernel

/-- After `a + 1` and `a + 2`, the snippet `a + 1` is kept again. -/
theorem plus_kept_twice :
    ¬ Grouped (replay (SnippetCollection.add UInt64.ofNat List.length)
      [plusSnippet "1", plusSnippet "2", plusSnippet "1"] .empty) := by
  intro h
  have hdistinct : ∀ entry ∈ (replay (SnippetCollection.add UInt64.ofNat List.length)
      [plusSnippet "1", plusSnippet "2", plusSnippet "1"] .empty).snippets,
      entry.2.Pairwise fun left right => ¬ Same left right :=
    fun entry hentry => (h.groups entry hentry).distinct
  revert hdistinct
  decide +kernel

end DashQL.Registry
