import DashQL.ScriptDiff.Compute

/-!
# What a statement emits

`Emitted` is the bookkeeping of the diff: the flags of the statements agree with
the operations, no statement has two of them, and every operation names what its
code asks for.  `processSource_cases` says once what a source statement can do.
-/

namespace DashQL.ScriptDiff

open List Option

/-- What an operation with this code names.  A statement is only kept or moved to
an equal one. -/
def Names (equalPairs : List StatementMapping) : OpCode → Option ℕ → Option ℕ → Prop
  | .keep, some s, some t | .move, some s, some t => (s, t) ∈ equalPairs
  | .update, some _, some _ => True
  | .delete, some _, none => True
  | .insert, none, some _ => True
  | _, _, _ => False

def DiffOp.keepPair (op : DiffOp) : Option StatementMapping :=
  match op.code, op.sourceStatement, op.targetStatement with
  | .keep, some s, some t => some (s, t)
  | _, _, _ => none

def sourcesOf (ops : List DiffOp) : List ℕ := ops.filterMap DiffOp.sourceStatement

def targetsOf (ops : List DiffOp) : List ℕ := ops.filterMap DiffOp.targetStatement

/-- The pairs that are kept, in order. -/
def keepPairs (ops : List DiffOp) : List StatementMapping := ops.filterMap DiffOp.keepPair

/-- Flags that mark exactly the statements of a list without repetitions. -/
structure Marks (flags : ℕ → Bool) (statements : List ℕ) (bound : ℕ) : Prop where
  iff : ∀ id, flags id = true ↔ id ∈ statements
  nodup : statements.Nodup
  lt : ∀ id ∈ statements, id < bound

theorem markEmitted_iff {flags : ℕ → Bool} {mark : Option ℕ} {id : ℕ} :
    markEmitted flags mark id = true ↔ mark = some id ∨ flags id = true := by
  cases mark with
  | none => simp [markEmitted]
  | some id' =>
    simp only [markEmitted, Function.update_apply, some.injEq]
    split_ifs with heq
    · simp [heq]
    · simp [Ne.symm heq]

theorem Marks.add {flags : ℕ → Bool} {statements : List ℕ} {bound : ℕ} {mark : Option ℕ}
    (h : Marks flags statements bound) (hmark : ∀ id ∈ mark, id < bound ∧ flags id = false) :
    Marks (markEmitted flags mark) (statements ++ mark.toList) bound := by
  refine ⟨?_, ?_, ?_⟩
  · intro id
    rw [markEmitted_iff, h.iff, mem_append, mem_toList, or_comm]
  · rw [nodup_append]
    refine ⟨h.nodup, by cases mark <;> simp, ?_⟩
    intro a ha b hb heq
    rw [mem_toList] at hb
    have hopen := (hmark b hb).2
    rw [← h.iff, heq, hopen] at ha
    exact absurd ha (by simp)
  · intro id hid
    rcases mem_append.mp hid with hold | hlast
    · exact h.lt id hold
    · exact (hmark id (mem_toList.mp hlast)).1

variable {source target : ParsedScript}

/-- The bookkeeping of the diff. -/
structure Emitted (equalPairs : List StatementMapping) (last : StatementMapping)
    (state : Emission source target) : Prop where
  names : ∀ op ∈ state.ops, Names equalPairs op.code op.sourceStatement op.targetStatement
  sources : Marks state.sourceEmitted (sourcesOf state.ops) last.1
  targets : Marks state.targetEmitted (targetsOf state.ops) last.2

section

variable {equalPairs : List StatementMapping} {last : StatementMapping}
  {state : Emission source target}

theorem Emitted.withMemo (h : Emitted equalPairs last state) (memo : Memo source target) :
    Emitted equalPairs last { state with memo := memo } :=
  ⟨h.names, h.sources, h.targets⟩

theorem Emitted.init : Emitted equalPairs last ({} : Emission source target) :=
  ⟨by simp, ⟨by simp [sourcesOf], by simp [sourcesOf], by simp [sourcesOf]⟩,
    ⟨by simp [targetsOf], by simp [targetsOf], by simp [targetsOf]⟩⟩

/-- Operations that only name open statements keep the bookkeeping. -/
theorem Emitted.emit (h : Emitted equalPairs last state) {code : OpCode}
    {sourceId targetId : Option ℕ} (hnames : Names equalPairs code sourceId targetId)
    (hsource : ∀ s ∈ sourceId, s < last.1 ∧ state.sourceEmitted s = false)
    (htarget : ∀ t ∈ targetId, t < last.2 ∧ state.targetEmitted t = false) :
    Emitted equalPairs last (state.emit code sourceId targetId) := by
  refine ⟨?_, ?_, ?_⟩
  · intro op hop
    rcases mem_append.mp hop with hold | hlast
    · exact h.names op hold
    · rw [mem_singleton.mp hlast]
      exact hnames
  · have hops : sourcesOf (state.emit code sourceId targetId).ops =
        sourcesOf state.ops ++ sourceId.toList := by
      cases sourceId <;> simp [Emission.emit, sourcesOf, DiffOp.make]
    rw [hops]
    exact h.sources.add hsource
  · have hops : targetsOf (state.emit code sourceId targetId).ops =
        targetsOf state.ops ++ targetId.toList := by
      cases targetId <;> simp [Emission.emit, targetsOf, DiffOp.make]
    rw [hops]
    exact h.targets.add htarget

end

/-! ## One source statement -/

theorem mem_equalRange {equalPairs : List StatementMapping}
    (hsorted : equalPairs.Pairwise fun l r => l.1 ≤ r.1) {s : ℕ} {pair : StatementMapping} :
    pair ∈ equalRange equalPairs s ↔ pair ∈ equalPairs ∧ pair.1 = s := by
  induction equalPairs with
  | nil => simp [equalRange]
  | cons p equalPairs ih =>
    obtain ⟨hhead, htail⟩ := pairwise_cons.mp hsorted
    rcases Nat.lt_trichotomy p.1 s with hlt | rfl | hgt
    · have hrange : equalRange (p :: equalPairs) s = equalRange equalPairs s := by
        simp [equalRange, hlt]
      rw [hrange, ih htail, mem_cons]
      constructor
      · exact fun h => ⟨.inr h.1, h.2⟩
      · rintro ⟨rfl | hmem, hsource⟩
        · omega
        · exact ⟨hmem, hsource⟩
    · have hdrop : equalPairs.dropWhile (fun q => q.1 < p.1) = equalPairs := by
        cases equalPairs with
        | nil => rfl
        | cons q rest =>
          have := hhead q (by simp)
          rw [dropWhile_cons, if_neg (by simpa using this)]
      have hrange : equalRange (p :: equalPairs) p.1 = p :: equalRange equalPairs p.1 := by
        simp [equalRange, hdrop]
      rw [hrange, mem_cons, ih htail, mem_cons]
      constructor
      · rintro (rfl | h)
        · exact ⟨.inl rfl, rfl⟩
        · exact ⟨.inr h.1, h.2⟩
      · rintro ⟨rfl | hmem, hsource⟩
        · exact .inl rfl
        · exact .inr ⟨hmem, hsource⟩
    · have hrange : equalRange (p :: equalPairs) s = [] := by
        simp [equalRange, hgt, Nat.le_of_lt hgt]
      rw [hrange]
      simp only [not_mem_nil, mem_cons, false_iff, not_and]
      rintro (rfl | hmem) rfl
      · omega
      · have := hhead pair hmem
        omega

/-- What the search may end with: an open target of the section, and one with
equal text where it stops early. -/
def Scan.Sound (source target : ParsedScript) (targetEmitted : ℕ → Bool) (s : ℕ)
    (targets : List ℕ) (bestTarget : Option ℕ) : Scan → Prop
  | .equal t => t ∈ targets ∧ targetEmitted t = false ∧
      estimateSimilarity source target (source.statement s) (target.statement t) = .equal
  | .best (some t) => t ∈ targets ∧ targetEmitted t = false ∨ bestTarget = some t
  | .best none => True

theorem Scan.Sound.cons {targetEmitted : ℕ → Bool} {s t : ℕ} {targets : List ℕ}
    {bestTarget bestTarget' : Option ℕ} {scan : Scan}
    (h : scan.Sound source target targetEmitted s targets bestTarget')
    (hbest : bestTarget' = bestTarget ∨ bestTarget' = some t ∧ targetEmitted t = false) :
    scan.Sound source target targetEmitted s (t :: targets) bestTarget := by
  match scan with
  | .equal t' => exact ⟨mem_cons_of_mem t h.1, h.2⟩
  | .best none => trivial
  | .best (some t') =>
    rcases h with hmem | hbest'
    · exact .inl ⟨mem_cons_of_mem t hmem.1, hmem.2⟩
    · rcases hbest with rfl | ⟨rfl, hopen⟩
      · exact .inr hbest'
      · obtain rfl := some.inj hbest'
        exact .inl ⟨by simp, hopen⟩

theorem scanTargets_sound (round : ℚ → ℚ) (targetEmitted : ℕ → Bool) (s : ℕ) (targets : List ℕ)
    (bestTarget : Option ℕ) (bestScore : ℚ) (memo : Memo source target) :
    (scanTargets round targetEmitted s targets bestTarget bestScore memo).1.Sound
      source target targetEmitted s targets bestTarget := by
  induction targets generalizing bestTarget bestScore memo with
  | nil =>
    rw [scanTargets]
    cases bestTarget with
    | none => trivial
    | some t => exact .inr rfl
  | cons t targets ih =>
    rw [scanTargets]
    split_ifs with hemitted
    · exact (ih _ _ _).cons (.inl rfl)
    · have hopen : targetEmitted t = false := by simpa using hemitted
      cases hestimate : estimateSimilarity source target (source.statement s)
          (target.statement t) with
      | notEqual => exact (ih _ _ _).cons (.inl rfl)
      | equal => exact ⟨by simp, hopen, hestimate⟩
      | similar =>
        dsimp only
        split_ifs
        · exact (ih _ _ _).cons (.inr ⟨rfl, hopen⟩)
        · exact (ih _ _ _).cons (.inl rfl)

/-- All a source statement can do.  It moves to an open equal statement if there
is one; otherwise it is left alone if it was emitted before, and updates an open
target of the section or is deleted if not. -/
theorem processSource_cases (round : ℚ → ℚ) {equalPairs : List StatementMapping}
    (hsorted : equalPairs.Pairwise fun l r => l.1 ≤ r.1) {targets : List ℕ} {s : ℕ}
    (hequal : ∀ t ∈ targets, estimateSimilarity source target (source.statement s)
      (target.statement t) = .equal → (s, t) ∈ equalPairs) (state : Emission source target) :
    (∃ t, (s, t) ∈ equalPairs ∧ state.targetEmitted t = false ∧
      processSource round equalPairs targets state s = state.emit .move (some s) (some t)) ∨
    (∀ t, (s, t) ∈ equalPairs → state.targetEmitted t = true) ∧
      (state.sourceEmitted s = true ∧ processSource round equalPairs targets state s = state ∨
      state.sourceEmitted s = false ∧ ∃ memo,
        (∃ t ∈ targets, state.targetEmitted t = false ∧
          processSource round equalPairs targets state s =
            { state with memo := memo }.emit .update (some s) (some t)) ∨
        processSource round equalPairs targets state s =
          { state with memo := memo }.emit .delete (some s) none) := by
  unfold processSource
  cases hfind : (equalRange equalPairs s).find? fun p => !state.targetEmitted p.2 with
  | some p =>
    left
    obtain ⟨hmem, hsource⟩ := (mem_equalRange hsorted).mp (mem_of_find?_eq_some hfind)
    have hopen := find?_some hfind
    have hemitted : (state.emit .move (some s) (some p.2)).sourceEmitted s = true :=
      markEmitted_iff.mpr (.inl rfl)
    refine ⟨p.2, hsource ▸ hmem, by simpa using hopen, ?_⟩
    simp only [hemitted, if_true]
  | none =>
    right
    have hclosed : ∀ t, (s, t) ∈ equalPairs → state.targetEmitted t = true := by
      intro t ht
      have := find?_eq_none.mp hfind (s, t) ((mem_equalRange hsorted).mpr ⟨ht, rfl⟩)
      simpa using this
    refine ⟨hclosed, ?_⟩
    dsimp only
    split_ifs with hemitted
    · exact .inl ⟨hemitted, rfl⟩
    · right
      have hscan := @scanTargets_sound source target round
        state.targetEmitted s targets none (-1) state.memo
      refine ⟨by simpa using hemitted,
        (scanTargets round state.targetEmitted s targets none (-1) state.memo).2, ?_⟩
      split
      · -- an equal text would have been moved to
        rename_i t heq
        rw [heq] at hscan
        obtain ⟨hmem, hopen, hestimate⟩ := hscan
        rw [hclosed t (hequal t hmem hestimate)] at hopen
        simp at hopen
      · rename_i t heq
        rw [heq] at hscan
        rcases hscan with ⟨hmem, hopen⟩ | hnone
        · exact .inl ⟨t, hmem, hopen, rfl⟩
        · simp at hnone
      · exact .inr rfl

end DashQL.ScriptDiff
