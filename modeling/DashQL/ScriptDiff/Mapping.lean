import DashQL.ScriptDiff.Statements

/-!
# Mapping equal statements

`MapStatements` compares every source with every target statement.  All equal
pairs are kept for the moves; the pairs between statements that have no other
partner on either side are the anchors the diff aligns the scripts by.

The loops depend on the statements only through which of them are equal, and so
does what they compute: `mem_equalPairs_iff` and `mem_uniquePairs_iff`.
-/

namespace DashQL.ScriptDiff

open Function List Option

abbrev StatementMapping := ℕ × ℕ

/-! ## Equal statements -/

inductive SimilarityEstimate
  | notEqual | similar | equal
  deriving DecidableEq

section

variable (source target : ParsedScript)

def estimateSimilarity (s t : Statement) : SimilarityEstimate :=
  if source.nodes.length ≤ s.root ∨ target.nodes.length ≤ t.root then .notEqual
  else
    let sourceRoot := source.node s.root
    let targetRoot := target.node t.root
    if sourceRoot.nodeType ≠ targetRoot.nodeType then .notEqual
    else
      let sourceSpan := source.scannedScript.resolveTextSpan sourceRoot.symbolSpan
      let targetSpan := target.scannedScript.resolveTextSpan targetRoot.symbolSpan
      if sourceRoot.childrenCount = targetRoot.childrenCount ∧
          sourceSpan.length = targetSpan.length ∧
          source.scannedScript.readTextAtTextSpan sourceSpan =
            target.scannedScript.readTextAtTextSpan targetSpan then .equal
      else .similar

/-- Whether `MapStatements` takes two statements for equal: by their text, or by
their trees. -/
def equalStatements (s t : Statement) : Bool :=
  match estimateSimilarity source target s t with
  | .notEqual => false
  | .similar => checkDeepEquality source target s t
  | .equal => true

def ParsedScript.statement (script : ParsedScript) (id : ℕ) : Statement :=
  script.statements.getD id ⟨script.nodes.length⟩

end

/-! ## The loops -/

structure MapState where
  equalPairs : List StatementMapping := []
  targetMapping : ℕ → Option ℕ := fun _ => none
  sourceAmbiguous : ℕ → Bool := fun _ => false
  targetAmbiguous : ℕ → Bool := fun _ => false

section

variable (equal : ℕ → ℕ → Bool)

/-- The body of the inner loop, with the match of the source so far. -/
def mapTarget (sourceId : ℕ) (state : MapState × Option ℕ) (targetId : ℕ) : MapState × Option ℕ :=
  if equal sourceId targetId then
    let map := { state.1 with equalPairs := state.1.equalPairs ++ [(sourceId, targetId)] }
    match map.targetMapping targetId, state.2 with
    | some existing, _ =>
      -- two source statements map to the same target statement
      ({ map with
          sourceAmbiguous := Function.update
            (Function.update map.sourceAmbiguous sourceId true) existing true
          targetAmbiguous := Function.update map.targetAmbiguous targetId true },
        state.2)
    | none, some found =>
      -- the source statement maps to two target statements
      ({ map with
          sourceAmbiguous := Function.update map.sourceAmbiguous sourceId true
          targetAmbiguous := Function.update
            (Function.update map.targetAmbiguous found true) targetId true },
        state.2)
    | none, none =>
      ({ map with
          targetMapping := Function.update map.targetMapping targetId (some sourceId) },
        some targetId)
  else state

/-- The body of the outer loop. -/
def mapSource (targetCount : ℕ) (state : MapState) (sourceId : ℕ) : MapState :=
  ((List.range targetCount).foldl (mapTarget equal sourceId) (state, none)).1

/-- The two nested loops. -/
def mapPairs (sourceCount targetCount : ℕ) : MapState :=
  (List.range sourceCount).foldl (mapSource equal targetCount) {}

def uniquePairs (sourceCount targetCount : ℕ) : List StatementMapping :=
  let state := mapPairs equal sourceCount targetCount
  let pairs := (List.range targetCount).filterMap fun targetId =>
    (state.targetMapping targetId).bind fun sourceId =>
      if state.sourceAmbiguous sourceId || state.targetAmbiguous targetId then none
      else some (sourceId, targetId)
  pairs.insertionSort fun l r => l.1 ≤ r.1

def equalPairs (sourceCount targetCount : ℕ) : List StatementMapping :=
  (mapPairs equal sourceCount targetCount).equalPairs.insertionSort
    fun l r => l.1 < r.1 ∨ l.1 = r.1 ∧ l.2 ≤ r.2

end

/-- `ScriptDiff::MapStatements`: the unique and the equal pairs. -/
def mapStatements (source target : ParsedScript) : List StatementMapping × List StatementMapping :=
  let equal := fun s t => equalStatements source target (source.statement s) (target.statement t)
  (uniquePairs equal source.statements.length target.statements.length,
    equalPairs equal source.statements.length target.statements.length)

/-! ## What the loops know -/

variable {equal : ℕ → ℕ → Bool}

/-- A pair that another pair shares a side with. -/
def Shared (pairs : List StatementMapping) (pair : StatementMapping) : Prop :=
  ∃ other ∈ pairs, other ≠ pair ∧ (other.1 = pair.1 ∨ other.2 = pair.2)

/-- The loops flag a statement only if one of its pairs is shared, and they flag
one side of every pair that is. -/
structure Flagged (state : MapState) : Prop where
  mapped : ∀ {s t}, state.targetMapping t = some s → (s, t) ∈ state.equalPairs
  source_shared : ∀ {s}, state.sourceAmbiguous s = true →
    ∃ t, (s, t) ∈ state.equalPairs ∧ Shared state.equalPairs (s, t)
  target_shared : ∀ {t}, state.targetAmbiguous t = true →
    ∃ s, (s, t) ∈ state.equalPairs ∧ Shared state.equalPairs (s, t)
  two_targets : ∀ {s t t'}, (s, t) ∈ state.equalPairs → (s, t') ∈ state.equalPairs → t ≠ t' →
    state.sourceAmbiguous s = true
  two_sources : ∀ {s s' t}, (s, t) ∈ state.equalPairs → (s', t) ∈ state.equalPairs → s ≠ s' →
    state.targetAmbiguous t = true
  reached : ∀ {s t}, (s, t) ∈ state.equalPairs →
    state.targetMapping t = some s ∨ state.sourceAmbiguous s = true
  taken : ∀ {s t}, (s, t) ∈ state.equalPairs →
    state.targetMapping t ≠ none ∨ state.targetAmbiguous t = true

theorem Shared.mono {pairs pairs' : List StatementMapping} {pair : StatementMapping}
    (h : Shared pairs pair) (hsub : pairs ⊆ pairs') : Shared pairs' pair := by
  obtain ⟨other, hmem, hne, hside⟩ := h
  exact ⟨other, hsub hmem, hne, hside⟩

/-- Flags stay right when one pair is added, provided the old flags and
mappings are kept, the new flags are due, and the new pair is accounted for. -/
theorem Flagged.extend {state state' : MapState} {s t : ℕ} (h : Flagged state)
    (hpairs : state'.equalPairs = state.equalPairs ++ [(s, t)])
    (hmapped : ∀ x y, state'.targetMapping y = some x →
      state.targetMapping y = some x ∨ (x = s ∧ y = t))
    (hmapping : ∀ y, state.targetMapping y ≠ none → state'.targetMapping y = state.targetMapping y)
    (hsource : ∀ x, state.sourceAmbiguous x = true → state'.sourceAmbiguous x = true)
    (htarget : ∀ y, state.targetAmbiguous y = true → state'.targetAmbiguous y = true)
    (hsource_due : ∀ x, state'.sourceAmbiguous x = true → state.sourceAmbiguous x = true ∨
      ∃ y, (x, y) ∈ state'.equalPairs ∧ Shared state'.equalPairs (x, y))
    (htarget_due : ∀ y, state'.targetAmbiguous y = true → state.targetAmbiguous y = true ∨
      ∃ x, (x, y) ∈ state'.equalPairs ∧ Shared state'.equalPairs (x, y))
    (htwo_targets : ∀ y, (s, y) ∈ state.equalPairs → y ≠ t → state'.sourceAmbiguous s = true)
    (htwo_sources : ∀ x, (x, t) ∈ state.equalPairs → x ≠ s → state'.targetAmbiguous t = true)
    (hreached : state'.targetMapping t = some s ∨ state'.sourceAmbiguous s = true)
    (htaken : state'.targetMapping t ≠ none ∨ state'.targetAmbiguous t = true) :
    Flagged state' := by
  have hsub : state.equalPairs ⊆ state'.equalPairs := by
    rw [hpairs]
    exact subset_append_left _ _
  have hmem : ∀ p, p ∈ state'.equalPairs → p ∈ state.equalPairs ∨ p = (s, t) := by
    intro p hp
    simpa [hpairs] using hp
  have hnew : (s, t) ∈ state'.equalPairs := by simp [hpairs]
  refine ⟨?_, ?_, ?_, ?_, ?_, ?_, ?_⟩
  · intro x y hxy
    rcases hmapped x y hxy with hold | ⟨rfl, rfl⟩
    · exact hsub (h.mapped hold)
    · exact hnew
  · intro x hx
    rcases hsource_due x hx with hold | hdue
    · obtain ⟨y, hy, hshared⟩ := h.source_shared hold
      exact ⟨y, hsub hy, hshared.mono hsub⟩
    · exact hdue
  · intro y hy
    rcases htarget_due y hy with hold | hdue
    · obtain ⟨x, hx, hshared⟩ := h.target_shared hold
      exact ⟨x, hsub hx, hshared.mono hsub⟩
    · exact hdue
  · intro x y y' hy hy' hne
    rcases hmem _ hy with hold | hold
    · rcases hmem _ hy' with hold' | hold'
      · exact hsource x (h.two_targets hold hold' hne)
      · obtain ⟨rfl, rfl⟩ := Prod.mk.inj hold'
        exact htwo_targets y hold hne
    · obtain ⟨rfl, rfl⟩ := Prod.mk.inj hold
      rcases hmem _ hy' with hold' | hold'
      · exact htwo_targets y' hold' (Ne.symm hne)
      · exact absurd (Prod.mk.inj hold').2.symm hne
  · intro x x' y hx hx' hne
    rcases hmem _ hx with hold | hold
    · rcases hmem _ hx' with hold' | hold'
      · exact htarget y (h.two_sources hold hold' hne)
      · obtain ⟨rfl, rfl⟩ := Prod.mk.inj hold'
        exact htwo_sources x hold hne
    · obtain ⟨rfl, rfl⟩ := Prod.mk.inj hold
      rcases hmem _ hx' with hold' | hold'
      · exact htwo_sources x' hold' (Ne.symm hne)
      · exact absurd (Prod.mk.inj hold').1.symm hne
  · intro x y hxy
    rcases hmem _ hxy with hold | hold
    · rcases h.reached hold with hmap | hflag
      · left
        rw [hmapping y (by simp [hmap]), hmap]
      · exact .inr (hsource x hflag)
    · obtain ⟨rfl, rfl⟩ := Prod.mk.inj hold
      exact hreached
  · intro x y hxy
    rcases hmem _ hxy with hold | hold
    · rcases h.taken hold with hmap | hflag
      · left
        rwa [hmapping y hmap]
      · exact .inr (htarget y hflag)
    · obtain ⟨rfl, rfl⟩ := Prod.mk.inj hold
      exact htaken

/-- What the inner loop knows of the match of its source. -/
structure Matched (s : ℕ) (state : MapState × Option ℕ) : Prop where
  flagged : Flagged state.1
  found : ∀ {t}, state.2 = some t → (s, t) ∈ state.1.equalPairs
  unfound : state.2 = none → ∀ {t}, (s, t) ∈ state.1.equalPairs → state.1.sourceAmbiguous s = true

theorem mapTarget_matched {s t : ℕ} {state : MapState × Option ℕ} (h : Matched s state)
    (hfresh : (s, t) ∉ state.1.equalPairs) : Matched s (mapTarget equal s state t) := by
  unfold mapTarget
  split
  swap
  · exact h
  obtain ⟨hflagged, hfound, hunfound⟩ := h
  dsimp only
  split
  · -- the target is mapped already
    rename_i existing hexisting
    have hpair : (existing, t) ∈ state.1.equalPairs := hflagged.mapped hexisting
    have hne : existing ≠ s := by
      rintro rfl
      exact hfresh hpair
    have hshared : Shared (state.1.equalPairs ++ [(s, t)]) (s, t) :=
      ⟨(existing, t), by simp [hpair], by simp [hne], .inr rfl⟩
    have hshared' : Shared (state.1.equalPairs ++ [(s, t)]) (existing, t) :=
      ⟨(s, t), by simp, by simp [hne.symm], .inr rfl⟩
    refine ⟨hflagged.extend rfl (fun x y h => .inl h) (fun y _ => rfl) ?_ ?_ ?_ ?_ ?_ ?_ ?_ ?_,
      fun h => mem_append_left _ (hfound h), ?_⟩
    · intro x hx
      simp [update_apply, hx]
    · intro y hy
      simp [update_apply, hy]
    · intro x hx
      simp only [update_apply] at hx
      split_ifs at hx with hx_existing hx_s
      · exact .inr ⟨t, by simp [hx_existing, hpair], hx_existing ▸ hshared'⟩
      · exact .inr ⟨t, by simp [hx_s], hx_s ▸ hshared⟩
      · exact .inl hx
    · intro y hy
      simp only [update_apply] at hy
      split_ifs at hy with hy_t
      · exact .inr ⟨s, by simp [hy_t], hy_t ▸ hshared⟩
      · exact .inl hy
    · intro y _ _
      simp [update_apply]
    · intro x _ _
      simp
    · right
      simp [update_apply]
    · right
      simp
    · intro _ y _
      simp [update_apply]
  · -- the source has a match already
    rename_i found hnone hmatch
    have hpair : (s, found) ∈ state.1.equalPairs := hfound hmatch
    have hne : found ≠ t := by
      rintro rfl
      exact hfresh hpair
    have hshared : Shared (state.1.equalPairs ++ [(s, t)]) (s, t) :=
      ⟨(s, found), by simp [hpair], by simp [hne], .inl rfl⟩
    have hshared' : Shared (state.1.equalPairs ++ [(s, t)]) (s, found) :=
      ⟨(s, t), by simp, by simp [hne.symm], .inl rfl⟩
    refine ⟨hflagged.extend rfl (fun x y h => .inl h) (fun y _ => rfl) ?_ ?_ ?_ ?_ ?_ ?_ ?_ ?_,
      fun h => mem_append_left _ (hfound h), fun h => absurd h (by simp [hmatch])⟩
    · intro x hx
      simp [update_apply, hx]
    · intro y hy
      simp [update_apply, hy]
    · intro x hx
      simp only [update_apply] at hx
      split_ifs at hx with hx_s
      · exact .inr ⟨t, by simp [hx_s], hx_s ▸ hshared⟩
      · exact .inl hx
    · intro y hy
      simp only [update_apply] at hy
      split_ifs at hy with hy_t hy_found
      · exact .inr ⟨s, by simp [hy_t], hy_t ▸ hshared⟩
      · exact .inr ⟨s, by simp [hy_found, hpair], hy_found ▸ hshared'⟩
      · exact .inl hy
    · intro y _ _
      simp
    · intro x _ _
      simp
    · right
      simp
    · right
      simp
  · -- neither side is mapped
    rename_i hnone hmatch
    refine ⟨hflagged.extend rfl ?_ ?_ (fun _ h => h) (fun _ h => h) (fun _ h => .inl h)
      (fun _ h => .inl h) ?_ ?_ ?_ ?_, ?_, fun h => absurd h (by simp)⟩
    · intro x y hxy
      simp only [update_apply] at hxy
      split_ifs at hxy with hy
      · exact .inr ⟨(some.inj hxy).symm, hy⟩
      · exact .inl hxy
    · intro y hy
      have hne : y ≠ t := by
        rintro rfl
        exact hy hnone
      simp [hne]
    · intro y hy _
      exact hunfound hmatch hy
    · intro x hx _
      exact (hflagged.taken hx).resolve_left (fun h => h hnone)
    · left
      simp
    · left
      simp
    · intro y hy
      obtain rfl := some.inj hy
      simp

/-! ## What the loops compute -/

theorem mapTarget_equalPairs (s t : ℕ) (state : MapState × Option ℕ) :
    (mapTarget equal s state t).1.equalPairs =
      state.1.equalPairs ++ if equal s t then [(s, t)] else [] := by
  unfold mapTarget
  by_cases h : equal s t = true
  · simp only [h, if_true]
    split <;> rfl
  · simp [h]

theorem mapTargets_equalPairs (s : ℕ) (targets : List ℕ) (state : MapState × Option ℕ) :
    (targets.foldl (mapTarget equal s) state).1.equalPairs =
      state.1.equalPairs ++ (targets.filter (equal s)).map (Prod.mk s) := by
  induction targets generalizing state with
  | nil => simp
  | cons t targets ih =>
    rw [foldl_cons, ih, mapTarget_equalPairs, append_assoc]
    by_cases h : equal s t = true <;> simp [h]

theorem mapTargets_matched {s : ℕ} {targets : List ℕ} (hnodup : targets.Nodup)
    {state : MapState × Option ℕ} (h : Matched s state)
    (hfresh : ∀ t ∈ targets, (s, t) ∉ state.1.equalPairs) :
    Matched s (targets.foldl (mapTarget equal s) state) := by
  induction targets generalizing state with
  | nil => exact h
  | cons t targets ih =>
    obtain ⟨ht, hnodup⟩ := nodup_cons.mp hnodup
    refine ih hnodup (mapTarget_matched h (hfresh t (by simp))) fun t' ht' hmem => ?_
    rw [mapTarget_equalPairs, mem_append] at hmem
    rcases hmem with hold | hnew
    · exact hfresh t' (by simp [ht']) hold
    · split at hnew
      · simp only [mem_singleton, Prod.mk.injEq, true_and] at hnew
        exact ht (hnew ▸ ht')
      · simp at hnew

def equalPairsUpTo (equal : ℕ → ℕ → Bool) (sourceCount targetCount : ℕ) : List StatementMapping :=
  (List.range sourceCount).flatMap fun s =>
    ((List.range targetCount).filter (equal s)).map (Prod.mk s)

theorem mem_equalPairsUpTo {n m : ℕ} {pair : StatementMapping} :
    pair ∈ equalPairsUpTo equal n m ↔ pair.1 < n ∧ pair.2 < m ∧ equal pair.1 pair.2 = true := by
  obtain ⟨s, t⟩ := pair
  simp [equalPairsUpTo]

theorem mapPairs_spec (n m : ℕ) :
    (mapPairs equal n m).equalPairs = equalPairsUpTo equal n m ∧ Flagged (mapPairs equal n m) := by
  induction n with
  | zero => exact ⟨rfl, by constructor <;> simp [mapPairs]⟩
  | succ n ih =>
    obtain ⟨hpairs, hflagged⟩ := ih
    have hstep : mapPairs equal (n + 1) m = mapSource equal m (mapPairs equal n m) n := by
      simp [mapPairs, range_succ]
    rw [hstep, mapSource]
    constructor
    · rw [mapTargets_equalPairs, hpairs]
      simp [equalPairsUpTo, range_succ]
    · -- no pair of the new source is there yet
      have hnew : ∀ t, (n, t) ∉ (mapPairs equal n m).equalPairs := by
        intro t ht
        rw [hpairs, mem_equalPairsUpTo] at ht
        exact absurd ht.1 (Nat.lt_irrefl n)
      have hstart : Matched n (mapPairs equal n m, none) :=
        ⟨hflagged, fun h => by simp at h, fun _ {t} ht => absurd ht (hnew t)⟩
      exact (mapTargets_matched nodup_range hstart fun t _ => hnew t).flagged

theorem mem_equalPairs_iff {n m : ℕ} {pair : StatementMapping} :
    pair ∈ equalPairs equal n m ↔ pair.1 < n ∧ pair.2 < m ∧ equal pair.1 pair.2 = true := by
  rw [equalPairs, mem_insertionSort, (mapPairs_spec n m).1, mem_equalPairsUpTo]

theorem mem_uniquePairs_iff {n m : ℕ} {pair : StatementMapping} :
    pair ∈ uniquePairs equal n m ↔
      pair ∈ equalPairs equal n m ∧ ¬ Shared (equalPairs equal n m) pair := by
  obtain ⟨hpairs, hflagged⟩ := @mapPairs_spec equal n m
  obtain ⟨s, t⟩ := pair
  have hmem : ∀ p, p ∈ equalPairs equal n m ↔ p ∈ (mapPairs equal n m).equalPairs := by
    intro p
    rw [equalPairs, mem_insertionSort]
  have hshared : ∀ p, Shared (equalPairs equal n m) p ↔ Shared (mapPairs equal n m).equalPairs p := by
    intro p
    simp only [Shared, hmem]
  rw [hmem, hshared, uniquePairs, mem_insertionSort, mem_filterMap]
  constructor
  · rintro ⟨t', ht', hbind⟩
    rw [bind_eq_some_iff] at hbind
    obtain ⟨s', hmapped, hflags⟩ := hbind
    split at hflags
    · simp at hflags
    · rename_i hclear
      obtain ⟨rfl, rfl⟩ := Prod.mk.inj (some.inj hflags)
      simp only [Bool.or_eq_true, not_or] at hclear
      have hpair := hflagged.mapped hmapped
      refine ⟨hpair, ?_⟩
      rintro ⟨⟨s'', t''⟩, hother, hne, hside | hside⟩
      · obtain rfl : s'' = s' := hside
        refine hclear.1 (hflagged.two_targets hpair hother ?_)
        rintro rfl
        exact hne rfl
      · obtain rfl : t'' = t' := hside
        refine hclear.2 (hflagged.two_sources hpair hother ?_)
        rintro rfl
        exact hne rfl
  · rintro ⟨hpair, hunshared⟩
    -- a flag on either side would come from a pair that shares a side with this one
    have hsource : (mapPairs equal n m).sourceAmbiguous s = false := by
      rw [Bool.eq_false_iff]
      intro hflag
      obtain ⟨t', ht', hshared'⟩ := hflagged.source_shared hflag
      have heq : t' = t := by
        by_contra hne
        exact hunshared ⟨(s, t'), ht', by simp [hne], .inl rfl⟩
      exact hunshared (heq ▸ hshared')
    have htarget : (mapPairs equal n m).targetAmbiguous t = false := by
      rw [Bool.eq_false_iff]
      intro hflag
      obtain ⟨s', hs', hshared'⟩ := hflagged.target_shared hflag
      have heq : s' = s := by
        by_contra hne
        exact hunshared ⟨(s', t), hs', by simp [hne], .inr rfl⟩
      exact hunshared (heq ▸ hshared')
    have hmapped : (mapPairs equal n m).targetMapping t = some s :=
      (hflagged.reached hpair).resolve_right (by simp [hsource])
    have ht : t < m := (mem_equalPairsUpTo.mp (hpairs ▸ hpair)).2.1
    exact ⟨t, mem_range.mpr ht, by simp [hmapped, hsource, htarget]⟩

theorem equalPairs_sorted (equal : ℕ → ℕ → Bool) (n m : ℕ) :
    (equalPairs equal n m).Pairwise fun l r => l.1 ≤ r.1 := by
  let before : StatementMapping → StatementMapping → Prop :=
    fun l r => l.1 < r.1 ∨ l.1 = r.1 ∧ l.2 ≤ r.2
  have htotal : Std.Total before := ⟨fun l r => by simp only [before]; omega⟩
  have htrans : IsTrans StatementMapping before := ⟨fun l r q => by simp only [before]; omega⟩
  have hsorted : (equalPairs equal n m).Pairwise before := pairwise_insertionSort before _
  exact hsorted.imp fun {l r} h => by simp only [before] at h; omega

theorem uniquePairs_sorted (equal : ℕ → ℕ → Bool) (n m : ℕ) :
    (uniquePairs equal n m).Pairwise fun l r => l.1 < r.1 := by
  let before : StatementMapping → StatementMapping → Prop := fun l r => l.1 ≤ r.1
  have htotal : Std.Total before := ⟨fun l r => Nat.le_total l.1 r.1⟩
  have htrans : IsTrans StatementMapping before := ⟨fun _ _ _ => Nat.le_trans⟩
  have hsorted : (uniquePairs equal n m).Pairwise before := pairwise_insertionSort before _
  have hnodup : (uniquePairs equal n m).Nodup := by
    rw [uniquePairs, (perm_insertionSort _ _).nodup_iff]
    refine nodup_range.filterMap ?_
    intro t t' pair hpair hpair'
    rw [mem_def, bind_eq_some_iff] at hpair hpair'
    obtain ⟨s, -, hs⟩ := hpair
    obtain ⟨s', -, hs'⟩ := hpair'
    split at hs
    · simp at hs
    · split at hs'
      · simp at hs'
      · rw [← some.inj hs'] at hs
        exact (Prod.mk.inj (some.inj hs)).2
  refine (hsorted.and hnodup).imp_of_mem ?_
  intro l r hl hr hle
  refine lt_of_le_of_ne hle.1 fun heq => (mem_uniquePairs_iff.mp hl).2 ?_
  exact ⟨r, (mem_uniquePairs_iff.mp hr).1, hle.2.symm, .inl heq.symm⟩

end DashQL.ScriptDiff
