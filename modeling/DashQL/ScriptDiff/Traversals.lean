import DashQL.ScriptDiff.Script

/-!
# Comparing statements

The traversals of the statement diff.  Each walks two trees in lockstep with an
explicit stack of pending node pairs, and each has its own switch over the node
types: the deep equality stops at the first difference, the similarity counts
the nodes that match, and the target changes record what is new on the target
side.  The size of a tree is remembered in a vector of the diff.
-/

namespace DashQL.ScriptDiff

open List

variable (source target : ParsedScript)

/-- The cases of the three switches that compare two nodes of one type by value
or text.  Arrays and objects are compared by their children. -/
def valuesMatch (s t : Node) : Bool :=
  match nodeKind s.nodeType with
  | .bool | .enum => s.childrenBeginOrValue = t.childrenBeginOrValue
  | .name => source.nameText s = target.nameText t
  | .text => source.nodeText s = target.nodeText t
  | .none | .array | .object | .marker => true

/-- What the merge join of two sorted attribute lists comes across. -/
structure MergeJoin where
  /-- attributes with a partner of the same key -/
  joined : List (ℕ × ℕ) := []
  /-- attributes that were skipped for want of a partner -/
  sourceOnly : List ℕ := []
  targetOnly : List ℕ := []
  /-- target attributes behind the last source attribute -/
  targetRest : List ℕ := []

/-- The merge join of `ComputeSimilarity` and `CollectTargetChanges`. -/
def mergeJoin : List ℕ → List ℕ → MergeJoin
  | s :: ss, t :: ts =>
    if source.keyId s < target.keyId t then
      let rest := mergeJoin ss (t :: ts)
      { rest with sourceOnly := s :: rest.sourceOnly }
    else if target.keyId t < source.keyId s then
      let rest := mergeJoin (s :: ss) ts
      { rest with targetOnly := t :: rest.targetOnly }
    else
      let rest := mergeJoin ss ts
      { rest with joined := (s, t) :: rest.joined }
  | _, ts => { targetRest := ts }
termination_by ss ts => ss.length + ts.length

def joinAttributes (s t : Node) : MergeJoin :=
  mergeJoin source target (source.collectSortedChildren s) (target.collectSortedChildren t)

/-! ## Deep equality -/

/-- One round of `CheckDeepEquality`: the pairs that are pushed, or nothing if
the two nodes differ. -/
def deepEqualityStep (pair : ℕ × ℕ) : Option (List (ℕ × ℕ)) :=
  let s := source.node pair.1
  let t := target.node pair.2
  if s.nodeType ≠ t.nodeType then none
  else match nodeKind s.nodeType with
  | .array =>
    if s.childrenCount ≠ t.childrenCount then none
    else some ((ParsedScript.childRange s).zip (ParsedScript.childRange t))
  | .object =>
    let pairs := (source.collectSortedChildren s).zip (target.collectSortedChildren t)
    if s.childrenCount ≠ t.childrenCount then none
    else if pairs.all fun p => source.keyId p.1 = target.keyId p.2 then some pairs
    else none
  | _ => if valuesMatch source target s t then some [] else none

/-! ## Similarity -/

/-- One round of `ComputeSimilarity`: whether the two nodes match, and the pairs
that are pushed. -/
def similarityStep (pair : ℕ × ℕ) : Bool × List (ℕ × ℕ) :=
  let s := source.node pair.1
  let t := target.node pair.2
  if s.nodeType ≠ t.nodeType then (false, [])
  else match nodeKind s.nodeType with
  | .array =>
    (s.childrenCount = t.childrenCount, (ParsedScript.childRange s).zip (ParsedScript.childRange t))
  | .object =>
    let join := joinAttributes source target s t
    (s.childrenCount = t.childrenCount && join.sourceOnly.isEmpty && join.targetOnly.isEmpty,
      join.joined)
  | _ => (valuesMatch source target s t, [])

/-! ## Target changes -/

/-- One round of `CollectTargetChanges`: the target nodes that are recorded, and
the pairs that are pushed. -/
def targetChangesStep (pair : ℕ × ℕ) : List ℕ × List (ℕ × ℕ) :=
  let s := source.node pair.1
  let t := target.node pair.2
  if s.nodeType ≠ t.nodeType then ([pair.2], [])
  else match nodeKind s.nodeType with
  | .array =>
    ((ParsedScript.childRange t).drop (min s.childrenCount t.childrenCount),
      (ParsedScript.childRange s).zip (ParsedScript.childRange t))
  | .object =>
    let join := joinAttributes source target s t
    (join.targetOnly ++ join.targetRest, join.joined)
  | _ => (if valuesMatch source target s t then [] else [pair.2], [])

/-! ## What the three rounds have in common -/

variable {source target}

theorem map_fst_zip_sublist {α β : Type*} (l₁ : List α) (l₂ : List β) :
    ((l₁.zip l₂).map Prod.fst).Sublist l₁ := by
  induction l₁ generalizing l₂ with
  | nil => simp
  | cons a l₁ ih =>
    cases l₂ with
    | nil => simp
    | cons b l₂ => simpa using ih l₂

theorem map_snd_zip_sublist {α β : Type*} (l₁ : List α) (l₂ : List β) :
    ((l₁.zip l₂).map Prod.snd).Sublist l₂ := by
  rw [← zip_swap, map_map]
  exact map_fst_zip_sublist l₂ l₁

theorem mergeJoin_left (ss ts : List ℕ) :
    ((mergeJoin source target ss ts).joined.map Prod.fst).Sublist ss := by
  fun_induction mergeJoin source target ss ts with
  | case1 s ss t ts _ rest ih => exact ih.cons s
  | case2 s ss t ts _ _ rest ih => exact ih
  | case3 s ss t ts _ _ rest ih => exact ih.cons_cons s
  | case4 => simp

theorem mergeJoin_right (ss ts : List ℕ) :
    ((mergeJoin source target ss ts).joined.map Prod.snd).Sublist ts := by
  fun_induction mergeJoin source target ss ts with
  | case1 s ss t ts _ rest ih => exact ih
  | case2 s ss t ts _ _ rest ih => exact ih.cons t
  | case3 s ss t ts _ _ rest ih => exact ih.cons_cons t
  | case4 => simp

theorem mergeJoin_skips_nothing_iff (ss ts : List ℕ) (h : ss.length = ts.length) :
    ((mergeJoin source target ss ts).sourceOnly = [] ∧
      (mergeJoin source target ss ts).targetOnly = []) ↔
    ∀ p ∈ ss.zip ts, source.keyId p.1 = target.keyId p.2 := by
  fun_induction mergeJoin source target ss ts with
  | case1 s ss t ts hlt rest ih => simp; omega
  | case2 s ss t ts _ hlt rest ih => simp; omega
  | case3 s ss t ts hnot hnot' rest ih =>
    have hkey : source.keyId s = target.keyId t := by omega
    simp only [length_cons, Nat.add_right_cancel_iff] at h
    simpa [hkey] using ih h
  | case4 ss ts hcases =>
    cases ss with
    | nil => simp
    | cons s ss =>
      cases ts with
      | nil => simp at h
      | cons t ts => exact absurd rfl (hcases s ss t ts rfl)

theorem mergeJoin_eq_zip (ss ts : List ℕ) (h : ss.length = ts.length)
    (hkeys : ∀ p ∈ ss.zip ts, source.keyId p.1 = target.keyId p.2) :
    mergeJoin source target ss ts = { joined := ss.zip ts } := by
  fun_induction mergeJoin source target ss ts with
  | case1 s ss t ts hlt rest ih =>
    have := hkeys (s, t) (by simp)
    simp only at this
    omega
  | case2 s ss t ts _ hlt rest ih =>
    have := hkeys (s, t) (by simp)
    simp only at this
    omega
  | case3 s ss t ts _ _ rest ih =>
    simp only [length_cons, Nat.add_right_cancel_iff] at h
    have hrest : rest = { joined := ss.zip ts } :=
      ih h fun p hp => hkeys p (by simp [hp])
    simp [hrest]
  | case4 ss ts hcases =>
    cases ss with
    | nil =>
      have hts : ts = [] := eq_nil_of_length_eq_zero (by simpa using h.symm)
      simp [hts]
    | cons s ss =>
      cases ts with
      | nil => simp at h
      | cons t ts => exact absurd rfl (hcases s ss t ts rfl)

/-- The deep equality goes on exactly where the similarity sees a match, with
the same pairs. -/
theorem deepEqualityStep_eq (pair : ℕ × ℕ) :
    deepEqualityStep source target pair =
      if (similarityStep source target pair).1 then some (similarityStep source target pair).2
      else none := by
  unfold deepEqualityStep similarityStep
  by_cases htype : (source.node pair.1).nodeType ≠ (target.node pair.2).nodeType
  · simp [htype]
  simp only [htype, if_false]
  cases hkind : nodeKind (source.node pair.1).nodeType with
  | array => by_cases hcount : (source.node pair.1).childrenCount =
      (target.node pair.2).childrenCount <;> simp [hcount]
  | object =>
    by_cases hcount : (source.node pair.1).childrenCount = (target.node pair.2).childrenCount
    swap
    · simp [hcount]
    have hlength : (source.collectSortedChildren (source.node pair.1)).length =
        (target.collectSortedChildren (target.node pair.2)).length := by simp [hcount]
    have hskips := @mergeJoin_skips_nothing_iff source target _ _ hlength
    by_cases hkeys : ∀ p ∈ (source.collectSortedChildren (source.node pair.1)).zip
        (target.collectSortedChildren (target.node pair.2)),
        source.keyId p.1 = target.keyId p.2
    · have hjoin := mergeJoin_eq_zip _ _ hlength hkeys
      simpa [hcount, joinAttributes, hjoin] using hkeys
    · have hall : ((source.collectSortedChildren (source.node pair.1)).zip
          (target.collectSortedChildren (target.node pair.2))).all
          (fun p => source.keyId p.1 = target.keyId p.2) = false := by
        simpa using hkeys
      have hmatch : ¬ ((joinAttributes source target (source.node pair.1)
            (target.node pair.2)).sourceOnly = [] ∧
          (joinAttributes source target (source.node pair.1)
            (target.node pair.2)).targetOnly = []) := mt hskips.mp hkeys
      simp [hcount, hall, hmatch]
  | _ => simp

theorem targetChangesStep_snd (pair : ℕ × ℕ) :
    (targetChangesStep source target pair).2 = (similarityStep source target pair).2 := by
  unfold targetChangesStep similarityStep
  by_cases htype : (source.node pair.1).nodeType ≠ (target.node pair.2).nodeType
  · simp [htype]
  simp only [htype, if_false]
  cases nodeKind (source.node pair.1).nodeType <;> rfl

/-- Nothing of two nodes that match is recorded. -/
theorem targetChangesStep_of_match {pair : ℕ × ℕ}
    (h : (similarityStep source target pair).1 = true) :
    (targetChangesStep source target pair).1 = [] := by
  unfold similarityStep at h
  unfold targetChangesStep
  by_cases htype : (source.node pair.1).nodeType ≠ (target.node pair.2).nodeType
  · simp [htype] at h
  simp only [htype, if_false] at h ⊢
  cases hkind : nodeKind (source.node pair.1).nodeType with
  | array =>
    simp only [hkind, decide_eq_true_eq] at h
    simp [h]
  | object =>
    simp only [hkind, Bool.and_eq_true, decide_eq_true_eq, List.isEmpty_iff] at h
    obtain ⟨⟨hcount, hsource⟩, htarget⟩ := h
    have hlength : (source.collectSortedChildren (source.node pair.1)).length =
        (target.collectSortedChildren (target.node pair.2)).length := by simp [hcount]
    have hkeys := (mergeJoin_skips_nothing_iff _ _ hlength).mp ⟨hsource, htarget⟩
    simp [joinAttributes, mergeJoin_eq_zip _ _ hlength hkeys]
  | _ =>
    simp only [hkind] at h
    simp [h]

theorem children_eq_childRange {script : ParsedScript} {id : ℕ}
    (h : nodeKind (script.node id).nodeType = .array ∨
      nodeKind (script.node id).nodeType = .object) :
    script.children id = ParsedScript.childRange (script.node id) := by
  rw [ParsedScript.children, if_pos ((hasChildren_iff _).mpr h)]

theorem children_eq_nil {script : ParsedScript} {id : ℕ}
    (harray : nodeKind (script.node id).nodeType ≠ .array)
    (hobject : nodeKind (script.node id).nodeType ≠ .object) : script.children id = [] := by
  rw [ParsedScript.children, if_neg]
  rw [hasChildren_iff]
  exact fun h => h.elim harray hobject

/-- The pairs pushed for two nodes match children of the one with children of
the other, each at most once, and none is left out if the nodes match. -/
theorem similarityStep_pairs (pair : ℕ × ℕ) :
    ((similarityStep source target pair).2.map Prod.fst).Subperm (source.children pair.1) ∧
    ((similarityStep source target pair).2.map Prod.snd).Subperm (target.children pair.2) ∧
    ((similarityStep source target pair).1 = true →
      (similarityStep source target pair).2.length = (source.children pair.1).length ∧
      (similarityStep source target pair).2.length = (target.children pair.2).length) := by
  unfold similarityStep
  by_cases htype : (source.node pair.1).nodeType ≠ (target.node pair.2).nodeType
  · simp [htype]
  simp only [htype, if_false]
  have htype' : (target.node pair.2).nodeType = (source.node pair.1).nodeType := by
    rw [not_not] at htype
    exact htype.symm
  cases hkind : nodeKind (source.node pair.1).nodeType with
  | array =>
    have hkind' : nodeKind (target.node pair.2).nodeType = .array := htype' ▸ hkind
    rw [children_eq_childRange (.inl hkind), children_eq_childRange (.inl hkind')]
    refine ⟨(map_fst_zip_sublist _ _).subperm, (map_snd_zip_sublist _ _).subperm, ?_⟩
    intro hcount
    simp only [decide_eq_true_eq] at hcount
    simp [hcount]
  | object =>
    have hkind' : nodeKind (target.node pair.2).nodeType = .object := htype' ▸ hkind
    rw [children_eq_childRange (.inr hkind), children_eq_childRange (.inr hkind')]
    refine ⟨?_, ?_, ?_⟩
    · exact (mergeJoin_left _ _).subperm.trans (source.collectSortedChildren_perm _).subperm
    · exact (mergeJoin_right _ _).subperm.trans (target.collectSortedChildren_perm _).subperm
    · simp only [Bool.and_eq_true, decide_eq_true_eq, List.isEmpty_iff]
      rintro ⟨⟨hcount, hsource⟩, htarget⟩
      have hlength : (source.collectSortedChildren (source.node pair.1)).length =
          (target.collectSortedChildren (target.node pair.2)).length := by simp [hcount]
      have hkeys := (mergeJoin_skips_nothing_iff _ _ hlength).mp ⟨hsource, htarget⟩
      simp [joinAttributes, mergeJoin_eq_zip _ _ hlength hkeys, hcount]
  | _ =>
    have hsource : source.children pair.1 = [] := children_eq_nil (by simp [hkind]) (by simp [hkind])
    have htarget : target.children pair.2 = [] :=
      children_eq_nil (by simp [htype', hkind]) (by simp [htype', hkind])
    simp [hsource, htarget]

variable (source target)

/-- The pairs that the traversals visit below a pair. -/
def lockstep : Branching (ℕ × ℕ) where
  children := fun pair => (similarityStep source target pair).2
  rank := Prod.fst
  rank_lt := fun {pair _} h =>
    ParsedScript.lt_of_mem_children ((similarityStep_pairs pair).1.subset (mem_map_of_mem h))

/-- Two subtrees are deep equal if every pair of nodes visited below them
matches. -/
def DeepEqual (pair : ℕ × ℕ) : Prop :=
  (lockstep source target).Throughout (fun p => (similarityStep source target p).1 = true) pair

def matchingNodes (pair : ℕ × ℕ) : ℕ :=
  (lockstep source target).total (fun p => if (similarityStep source target p).1 then 1 else 0) pair

variable {source target}

theorem matchingNodes_le (pair : ℕ × ℕ) :
    matchingNodes source target pair ≤ source.subtreeSize pair.1 ∧
      matchingNodes source target pair ≤ target.subtreeSize pair.2 := by
  have hweight : ∀ p, (if (similarityStep source target p).1 then 1 else 0) ≤ 1 := by
    intro p
    split <;> omega
  exact ⟨Branching.total_le_size (fun p => (similarityStep_pairs p).1) hweight pair,
    Branching.total_le_size (fun p => (similarityStep_pairs p).2.1) hweight pair⟩

theorem matchingNodes_eq_iff (pair : ℕ × ℕ) :
    (matchingNodes source target pair = source.subtreeSize pair.1 ↔ DeepEqual source target pair) ∧
    (matchingNodes source target pair = target.subtreeSize pair.2 ↔
      DeepEqual source target pair) := by
  have hweight : ∀ p, (if (similarityStep source target p).1 then 1 else 0) ≤ 1 := by
    intro p
    split <;> omega
  constructor
  · refine (Branching.total_eq_size_iff (fun p => (similarityStep_pairs p).1) hweight pair).trans
      (Branching.throughout_congr _ fun p => ?_)
    have hlength := (@similarityStep_pairs source target p).2.2
    exact ⟨fun h => by simpa using h.1, fun h => ⟨by simp [h], (hlength h).1⟩⟩
  · refine (Branching.total_eq_size_iff (fun p => (similarityStep_pairs p).2.1) hweight pair).trans
      (Branching.throughout_congr _ fun p => ?_)
    have hlength := (@similarityStep_pairs source target p).2.2
    exact ⟨fun h => by simpa using h.1, fun h => ⟨by simp [h], (hlength h).2⟩⟩

end DashQL.ScriptDiff
