import DashQL.ScriptDiff.Runs

/-!
# Every statement is reported once

The operations of a diff name every source and every target statement exactly
once.  Between scripts whose statements are equal one by one they are the
identity exactly if no statement is repeated: the copies of a statement have no
partner of their own, so no section ends at them and they are moved instead.
-/

namespace DashQL.ScriptDiff

open List

open List

variable {source target : ParsedScript}

theorem Marks.perm_range {flags : ℕ → Bool} {statements : List ℕ} {bound : ℕ}
    (h : Marks flags statements bound) (hall : ∀ id < bound, flags id = true) :
    statements ~ List.range bound := by
  refine (perm_ext_iff_of_nodup h.nodup nodup_range).mpr ?_
  intro id
  rw [mem_range]
  exact ⟨h.lt id, fun hid => (h.iff id).mp (hall id hid)⟩

/-- The operations of a diff partition the statements of both scripts, an
operation names what its code asks for, and the kept pairs increase. -/
theorem compute_partition (round : ℚ → ℚ) (source target : ParsedScript) :
    sourcesOf (compute round source target) ~ List.range source.statements.length ∧
    targetsOf (compute round source target) ~ List.range target.statements.length ∧
    (∀ op ∈ compute round source target,
      Names (mapStatements source target).2 op.code op.sourceStatement op.targetStatement) ∧
    (keepPairs (compute round source target)).Pairwise Before := by
  have h := mapStatements_aligned source target
  obtain ⟨final, hops, hrun, hsources, htargets⟩ := compute_run round source target
  have progress := hrun.progress h
  rw [hops]
  refine ⟨progress.emitted.sources.perm_range hsources,
    progress.emitted.targets.perm_range htargets, progress.emitted.names, ?_⟩
  rw [progress.keeps]
  exact h.increasing

/-! ## The identity -/

def DiffOp.summary (op : DiffOp) : OpCode × Option ℕ × Option ℕ :=
  (op.code, op.sourceStatement, op.targetStatement)

/-- Every statement is kept in its place. -/
def IsIdentity (count : ℕ) (ops : List DiffOp) : Prop :=
  ops.map DiffOp.summary = (List.range count).map fun i => (.keep, some i, some i)

/-- Scripts with as many statements, deep equal one by one. -/
structure PairwiseEqual (source target : ParsedScript) : Prop where
  length : source.statements.length = target.statements.length
  equal : ∀ i < source.statements.length,
    checkDeepEquality source target (source.statement i) (target.statement i) = true

theorem PairwiseEqual.refl (script : ParsedScript) : PairwiseEqual script script :=
  ⟨rfl, fun _ _ => checkDeepEquality_self script _⟩

/-- Deep equal statements are found equal, unless error recovery left them
without trees. -/
theorem equalStatements_of_deepEquality {s t : Statement}
    (h : checkDeepEquality source target s t = true) :
    equalStatements source target s t = true ↔ s.root < source.nodes.length := by
  by_cases hs : s.root < source.nodes.length
  swap
  · simp [equalStatements, estimateSimilarity, Nat.le_of_not_lt hs, hs]
  have ht : t.root < target.nodes.length := by
    by_contra ht
    simp only [checkDeepEquality, Nat.le_of_not_lt ht, or_true, if_true, and_true,
      decide_eq_true_eq] at h
    omega
  have htype : (source.node s.root).nodeType = (target.node t.root).nodeType := by
    have hmatch := ((Branching.throughout_iff _).mp ((checkDeepEquality_iff hs ht).mp h)).1
    by_contra hne
    simp [similarityStep, hne] at hmatch
  simp only [hs, iff_true]
  unfold equalStatements estimateSimilarity
  rw [if_neg (by omega)]
  dsimp only
  rw [if_neg (not_not.mpr htype)]
  split_ifs
  · rfl
  · exact h

theorem mem_mapStatements_iff {s t : ℕ} :
    (s, t) ∈ (mapStatements source target).2 ↔
      s < source.statements.length ∧ t < target.statements.length ∧
        equalStatements source target (source.statement s) (target.statement t) = true :=
  mem_equalPairs_iff

theorem keepPair_eq_some_iff {op : DiffOp} {pair : StatementMapping} :
    op.keepPair = some pair ↔ op.summary = (.keep, some pair.1, some pair.2) := by
  obtain ⟨code, sourceId, targetId, _, _, _⟩ := op
  cases code <;> cases sourceId <;> cases targetId <;>
    simp [DiffOp.keepPair, DiffOp.summary, Prod.ext_iff]

theorem keepPairs_length_le (ops : List DiffOp) :
    (keepPairs ops).length ≤ (sourcesOf ops).length ∧
      (keepPairs ops).length ≤ (targetsOf ops).length := by
  induction ops with
  | nil => exact ⟨Nat.zero_le _, Nat.zero_le _⟩
  | cons op ops ih =>
    unfold keepPairs sourcesOf targetsOf at ih ⊢
    simp only [filterMap_cons]
    cases hkeep : op.keepPair with
    | some pair =>
      have hsummary := keepPair_eq_some_iff.mp hkeep
      simp only [DiffOp.summary, Prod.mk.injEq] at hsummary
      simpa [hsummary] using ih
    | none =>
      dsimp only
      constructor
      · split
        · exact ih.1
        · exact ih.1.trans (Nat.le_succ _)
      · split
        · exact ih.2
        · exact ih.2.trans (Nat.le_succ _)

/-- Where as many pairs are kept as there are statements, nothing but keeps is left. -/
theorem summary_of_keepPairs {equalPairs : List StatementMapping} {ops : List DiffOp}
    (hnames : ∀ op ∈ ops, Names equalPairs op.code op.sourceStatement op.targetStatement)
    (hsources : (sourcesOf ops).length ≤ (keepPairs ops).length)
    (htargets : (targetsOf ops).length ≤ (keepPairs ops).length) :
    ops.map DiffOp.summary = (keepPairs ops).map fun pair => (.keep, some pair.1, some pair.2) := by
  induction ops with
  | nil => rfl
  | cons op ops ih =>
    have hle := keepPairs_length_le ops
    have hop := hnames op (by simp)
    have ih := ih fun op' hop' => hnames op' (mem_cons_of_mem _ hop')
    unfold keepPairs sourcesOf targetsOf at *
    simp only [filterMap_cons, map_cons] at hsources htargets ⊢
    cases hkeep : op.keepPair with
    | some pair =>
      have hsummary := keepPair_eq_some_iff.mp hkeep
      have hsource : op.sourceStatement = some pair.1 := congrArg (fun x => x.2.1) hsummary
      have htarget : op.targetStatement = some pair.2 := congrArg (fun x => x.2.2) hsummary
      simp only [hkeep, hsource, htarget, length_cons, Nat.add_le_add_iff_right]
        at hsources htargets
      simp only [map_cons, hsummary]
      rw [ih hsources htargets]
    | none =>
      -- one of the sides would have a statement too many
      exfalso
      simp only [hkeep] at hsources htargets
      cases hsource : op.sourceStatement with
      | some s =>
        simp only [hsource, length_cons] at hsources
        omega
      | none =>
        cases htarget : op.targetStatement with
        | some t =>
          simp only [htarget, length_cons] at htargets
          omega
        | none =>
          rw [hsource, htarget] at hop
          cases hcode : op.code <;> simp [hcode, Names] at hop

/-- The kept pairs are read off the summaries. -/
theorem keepPairs_of_isIdentity {count : ℕ} {ops : List DiffOp} (h : IsIdentity count ops) :
    keepPairs ops = (List.range count).map fun i => (i, i) := by
  have hkeep : ∀ op ∈ ops, op.keepPair = op.sourceStatement.map fun s => (s, s) := by
    intro op hop
    have hmem := mem_map_of_mem (f := DiffOp.summary) hop
    rw [h, mem_map] at hmem
    obtain ⟨i, -, hi⟩ := hmem
    have hsource : op.sourceStatement = some i := congrArg (fun x => x.2.1) hi.symm
    rw [hsource]
    exact keepPair_eq_some_iff.mpr hi.symm
  calc keepPairs ops
      = ops.filterMap fun op => op.summary.2.1.map fun s => (s, s) := filterMap_congr hkeep
    _ = (ops.map DiffOp.summary).filterMap fun x => x.2.1.map fun s => (s, s) := by
        rw [filterMap_map]
        rfl
    _ = (List.range count).map fun i => (i, i) := by
        rw [h, filterMap_map, ← filterMap_eq_map]
        rfl

/-- Every statement has a tree, and no two statements are found equal. -/
structure Distinct (source target : ParsedScript) : Prop where
  roots : ∀ i < source.statements.length, (source.statement i).root < source.nodes.length
  distinct : ∀ i < source.statements.length, ∀ j < source.statements.length, i ≠ j →
    equalStatements source target (source.statement i) (target.statement j) = false

/-- Increasing numbers below a bound that are as many as the bound. -/
theorem eq_range_of_increasing {l : List ℕ} {bound : ℕ} (hincreasing : l.Pairwise (· < ·))
    (hlt : ∀ x ∈ l, x < bound) (hlength : bound ≤ l.length) : l = List.range bound := by
  have hsubperm : l <+~ List.range bound :=
    subperm_of_subset (hincreasing.imp Nat.ne_of_lt) fun x hx => mem_range.mpr (hlt x hx)
  have hperm : l ~ List.range bound := hsubperm.perm_of_length_le (by simpa using hlength)
  exact hperm.eq_of_pairwise' hincreasing pairwise_lt_range

/-- Between scripts that are deep equal statement by statement the diff is the
identity exactly if no statement is repeated. -/
theorem compute_isIdentity_iff (round : ℚ → ℚ) (source target : ParsedScript)
    (hequal : PairwiseEqual source target) :
    IsIdentity source.statements.length (compute round source target) ↔ Distinct source target := by
  have h := mapStatements_aligned source target
  obtain ⟨hsources, htargets, hnames, hincreasing⟩ := compute_partition round source target
  obtain ⟨final, hops, hrun, -, -⟩ := compute_run round source target
  have hkeeps : keepPairs (compute round source target) =
      findLCS (mapStatements source target).1 := by
    rw [hops]
    exact (hrun.progress h).keeps
  constructor
  · intro hidentity
    rw [keepPairs_of_isIdentity hidentity] at hkeeps
    have hanchor : ∀ i < source.statements.length, (i, i) ∈ (mapStatements source target).2 ∧
        ¬ Shared (mapStatements source target).2 (i, i) := by
      intro i hi
      refine h.anchors (i, i) ?_
      rw [← hkeeps]
      exact mem_map.mpr ⟨i, mem_range.mpr hi, rfl⟩
    refine ⟨?_, ?_⟩
    · intro i hi
      exact (equalStatements_of_deepEquality (hequal.equal i hi)).mp
        (mem_mapStatements_iff.mp (hanchor i hi).1).2.2
    · intro i hi j hj hne
      rw [← Bool.not_eq_true]
      intro hpair
      refine (hanchor i hi).2 ⟨(i, j), ?_, by simp [hne.symm], .inl rfl⟩
      exact mem_mapStatements_iff.mpr ⟨hi, hequal.length ▸ hj, hpair⟩
  · intro hdistinct
    have hmem : ∀ s t, (s, t) ∈ (mapStatements source target).2 ↔
        s < source.statements.length ∧ s = t := by
      intro s t
      rw [mem_mapStatements_iff, ← hequal.length]
      constructor
      · rintro ⟨hs, ht, hpair⟩
        refine ⟨hs, ?_⟩
        by_contra hne
        rw [hdistinct.distinct s hs t ht hne] at hpair
        simp at hpair
      · rintro ⟨hs, rfl⟩
        exact ⟨hs, hs, (equalStatements_of_deepEquality (hequal.equal s hs)).mpr
          (hdistinct.roots s hs)⟩
    have hlength := h.longest ((List.range source.statements.length).map fun i => (i, i)) (by
      intro q hq
      obtain ⟨i, hi, rfl⟩ := mem_map.mp hq
      refine ⟨(hmem i i).mpr ⟨mem_range.mp hi, rfl⟩, ?_⟩
      rintro ⟨⟨s, t⟩, hother, hne, hside⟩
      obtain rfl := ((hmem s t).mp hother).2
      exact hne (by simpa using hside)) (by
      rw [pairwise_map]
      exact pairwise_lt_range.imp fun hlt => ⟨hlt, hlt⟩)
    rw [length_map, length_range, ← hkeeps] at hlength
    have hsummary := summary_of_keepPairs hnames (by simpa [hsources.length_eq] using hlength)
      (by simpa [htargets.length_eq, ← hequal.length] using hlength)
    -- the kept pairs are the diagonal
    have hdiagonal : ∀ q ∈ keepPairs (compute round source target),
        q.1 < source.statements.length ∧ q.1 = q.2 := by
      intro q hq
      rw [hkeeps] at hq
      exact (hmem q.1 q.2).mp (h.anchors q hq).1
    have hrange : (keepPairs (compute round source target)).map Prod.fst =
        List.range source.statements.length :=
      eq_range_of_increasing (pairwise_map.mpr (hincreasing.imp And.left))
        (by
          intro s hs
          obtain ⟨q, hq, rfl⟩ := mem_map.mp hs
          exact (hdiagonal q hq).1)
        (by simpa using hlength)
    rw [IsIdentity, hsummary, ← hrange, map_map]
    refine map_congr_left fun q hq => ?_
    simp [(hdiagonal q hq).2]

/-! ## Scripts of selects -/

/-- The nodes of `select c`, by their place below the root, in the `k`-th statement. -/
def selectNode (columns : List UInt8) (k : ℕ) : ℕ → Node
  | 0 => { symbolSpan := ⟨3 * k + 1, 1⟩, nodeType := .name
           childrenBeginOrValue := columns.dedup.idxOf (columns.getD k 0) }
  -- `SQL_COLUMN_REF_PATH`
  | 1 => { symbolSpan := ⟨3 * k + 1, 1⟩, nodeType := .array, attributeKey := 25
           childrenBeginOrValue := 6 * k, childrenCount := 1 }
  -- `SQL_RESULT_TARGET_VALUE`
  | 2 => { symbolSpan := ⟨3 * k + 1, 1⟩, nodeType := .objectSqlColumnRef, attributeKey := 133
           childrenBeginOrValue := 6 * k + 1, childrenCount := 1 }
  | 3 => { symbolSpan := ⟨3 * k + 1, 1⟩, nodeType := .objectSqlResultTarget
           childrenBeginOrValue := 6 * k + 2, childrenCount := 1 }
  -- `SQL_SELECT_TARGETS`
  | 4 => { symbolSpan := ⟨3 * k + 1, 1⟩, nodeType := .array, attributeKey := 160
           childrenBeginOrValue := 6 * k + 3, childrenCount := 1 }
  | _ => { symbolSpan := ⟨3 * k, 2⟩, nodeType := .objectSqlSelect
           childrenBeginOrValue := 6 * k + 4, childrenCount := 1 }

theorem selectNode_children (columns : List UInt8) (k place : ℕ) (hplace : place < 6)
    (h : hasChildren (selectNode columns k place).nodeType = true) :
    (selectNode columns k place).childrenBeginOrValue +
      (selectNode columns k place).childrenCount = 6 * k + place := by
  match place, hplace with
  | 0, _ => exact absurd h (show ¬ hasChildren .name = true by decide)
  | 1, _ | 2, _ | 3, _ | 4, _ | 5, _ => rfl

/-- The parsed script `select c; select d; …` of one-letter columns. -/
def selects (columns : List UInt8) : ParsedScript where
  scannedScript :=
    { textBuffer := (columns.flatMap fun c => [115, 101, 108, 101, 99, 116, 32, c, 59, 32]) ++ [0, 0]
      symbols := (List.range columns.length).flatMap fun k =>
        [⟨10 * k, 6⟩, ⟨10 * k + 7, 1⟩, ⟨10 * k + 8, 1⟩]
      names := columns.dedup.map fun c => [c] }
  nodes := (List.range (6 * columns.length)).map fun id => selectNode columns (id / 6) (id % 6)
  statements := (List.range columns.length).map fun k => ⟨6 * k + 5⟩
  children_below := by
    intro id hid hchildren
    simp only [getElem_map, getElem_range] at hchildren ⊢
    have hnode := selectNode_children columns (id / 6) (id % 6) (Nat.mod_lt _ (by decide)) hchildren
    omega

/-- Of `select a; select a` both statements are moved to where they are. -/
theorem compute_repeated :
    PairwiseEqual (selects [97, 97]) (selects [97, 97]) ∧
      (compute id (selects [97, 97]) (selects [97, 97])).map DiffOp.summary =
        [(.move, some 0, some 0), (.move, some 1, some 1)] ∧
      ¬ IsIdentity (selects [97, 97]).statements.length
        (compute id (selects [97, 97]) (selects [97, 97])) := by
  refine ⟨.refl _, by decide +kernel, ?_⟩
  unfold IsIdentity
  decide +kernel

/-- `select a; select b` is its own identity. -/
theorem compute_isIdentity_distinct :
    IsIdentity 2 (compute id (selects [97, 98]) (selects [97, 98])) := by
  refine (compute_isIdentity_iff id (selects [97, 98]) (selects [97, 98]) (.refl _)).mpr ⟨?_, ?_⟩
  · decide +kernel
  · decide +kernel

end DashQL.ScriptDiff
