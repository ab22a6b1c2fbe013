import DashQL.ScriptDiff.Sections

/-!
# Runs of the diff

`Run` is the diff as a sequence of emissions, each with what holds when it is
made.  `compute_run` says that `Compute` is such a run, and all that follows about
its operations is proved by induction on runs.
-/

namespace DashQL.ScriptDiff

open List Function Option

open Relation

variable {source target : ParsedScript}

/-- The mapping that a diff starts from: the equal pairs, and a longest
increasing sequence of pairs that share no side with another. -/
structure Aligned (source target : ParsedScript) (equalPairs lcs : List StatementMapping) :
    Prop where
  sorted : equalPairs.Pairwise fun l r => l.1 ≤ r.1
  bounded : ∀ p ∈ equalPairs, p.1 < source.statements.length ∧ p.2 < target.statements.length
  texts : ∀ s t, s < source.statements.length → t < target.statements.length →
    estimateSimilarity source target (source.statement s) (target.statement t) = .equal →
      (s, t) ∈ equalPairs
  increasing : lcs.Pairwise Before
  anchors : ∀ q ∈ lcs, q ∈ equalPairs ∧ ¬ Shared equalPairs q
  longest : ∀ common : List StatementMapping,
    (∀ q ∈ common, q ∈ equalPairs ∧ ¬ Shared equalPairs q) → common.Pairwise Before →
      common.length ≤ lcs.length

theorem mapStatements_aligned (source target : ParsedScript) :
    Aligned source target (mapStatements source target).2
      (findLCS (mapStatements source target).1) := by
  have hsorted := uniquePairs_sorted
    (fun s t => equalStatements source target (source.statement s) (target.statement t))
    source.statements.length target.statements.length
  have hspec := findLCS_spec hsorted
  refine ⟨equalPairs_sorted _ _ _, ?_, ?_, hspec.1, ?_, ?_⟩
  · intro p hp
    have := mem_equalPairs_iff.mp hp
    exact ⟨this.1, this.2.1⟩
  · intro s t hs ht hequal
    refine mem_equalPairs_iff.mpr ⟨hs, ht, ?_⟩
    simp [equalStatements, hequal]
  · intro q hq
    exact mem_uniquePairs_iff.mp (hspec.2.1 q hq)
  · intro common hcommon hbefore
    exact findLCS_longest hsorted (fun q hq => mem_uniquePairs_iff.mpr (hcommon q hq)) hbefore

/-- The statements of one side between the anchors that are done and the rest. -/
def Gap (side : StatementMapping → ℕ) (bound : ℕ) (done rest : List StatementMapping) (id : ℕ) :
    Prop :=
  (∀ q ∈ done, side q < id) ∧ (∀ q ∈ rest, id < side q) ∧ id < bound

/-- The source statements between the anchors that are done and the rest. -/
abbrev SourceGap (source : ParsedScript) : List StatementMapping → List StatementMapping → ℕ → Prop :=
  Gap Prod.fst source.statements.length

/-- The target statements between the anchors that are done and the rest. -/
abbrev TargetGap (target : ParsedScript) : List StatementMapping → List StatementMapping → ℕ → Prop :=
  Gap Prod.snd target.statements.length

/-- One emission in the section between the anchors that are done and the rest. -/
inductive SectionStep (equalPairs done rest : List StatementMapping) :
    Emission source target → Emission source target → Prop
  | move {state} {s t : ℕ} (gap : SourceGap source done rest s)
      (source_open : state.sourceEmitted s = false) (target_open : state.targetEmitted t = false)
      (equal : (s, t) ∈ equalPairs) :
      SectionStep equalPairs done rest state (state.emit .move (some s) (some t))
  | update {state} {s t : ℕ} (memo : Memo source target) (gap : SourceGap source done rest s)
      (source_open : state.sourceEmitted s = false)
      (closed : ∀ t', (s, t') ∈ equalPairs → state.targetEmitted t' = true)
      (target_gap : TargetGap target done rest t) (target_open : state.targetEmitted t = false) :
      SectionStep equalPairs done rest state
        ({ state with memo := memo }.emit .update (some s) (some t))
  | delete {state} {s : ℕ} (memo : Memo source target) (gap : SourceGap source done rest s)
      (source_open : state.sourceEmitted s = false)
      (closed : ∀ t', (s, t') ∈ equalPairs → state.targetEmitted t' = true) :
      SectionStep equalPairs done rest state ({ state with memo := memo }.emit .delete (some s) none)
  | insert {state} {t : ℕ} (target_gap : TargetGap target done rest t)
      (target_open : state.targetEmitted t = false)
      (sources_closed : ∀ s, SourceGap source done rest s → state.sourceEmitted s = true) :
      SectionStep equalPairs done rest state (state.emit .insert none (some t))

/-- The states that a diff goes through, with the anchors that are done and the
rest of them. -/
inductive Run (equalPairs lcs : List StatementMapping) :
    List StatementMapping → List StatementMapping → Emission source target → Prop
  | start : Run equalPairs lcs [] lcs {}
  | step {done rest state state'} (run : Run equalPairs lcs done rest state)
      (step : SectionStep equalPairs done rest state state') : Run equalPairs lcs done rest state'
  | keep {done rest q state} (run : Run equalPairs lcs done (q :: rest) state)
      (sources_closed : ∀ s, SourceGap source done (q :: rest) s → state.sourceEmitted s = true)
      (targets_closed : ∀ t, TargetGap target done (q :: rest) t → state.targetEmitted t = true) :
      Run equalPairs lcs (done ++ [q]) rest (state.emit .keep (some q.1) (some q.2))

/-- What holds in every state of a run. -/
structure Progress (equalPairs lcs done rest : List StatementMapping)
    (state : Emission source target) : Prop where
  split : done ++ rest = lcs
  emitted : Emitted equalPairs (source.statements.length, target.statements.length) state
  keeps : keepPairs state.ops = done
  sources_done : ∀ q ∈ done, ∀ s ≤ q.1, state.sourceEmitted s = true
  targets_done : ∀ q ∈ done, ∀ t ≤ q.2, state.targetEmitted t = true
  sources_open : ∀ q ∈ rest, ∀ s, q.1 ≤ s → state.sourceEmitted s = false
  targets_open : ∀ q ∈ rest, state.targetEmitted q.2 = false

theorem keepPairs_emit {state : Emission source target} {code : OpCode}
    {sourceId targetId : Option ℕ} (h : code ≠ .keep) :
    keepPairs (state.emit code sourceId targetId).ops = keepPairs state.ops := by
  cases code <;> simp_all [Emission.emit, keepPairs, DiffOp.make, DiffOp.keepPair]

theorem sourceEmitted_emit {state : Emission source target} {code : OpCode}
    {sourceId targetId : Option ℕ} {s : ℕ} :
    (state.emit code sourceId targetId).sourceEmitted s = true ↔
      sourceId = some s ∨ state.sourceEmitted s = true :=
  markEmitted_iff

theorem targetEmitted_emit {state : Emission source target} {code : OpCode}
    {sourceId targetId : Option ℕ} {t : ℕ} :
    (state.emit code sourceId targetId).targetEmitted t = true ↔
      targetId = some t ∨ state.targetEmitted t = true :=
  markEmitted_iff

variable {equalPairs lcs done rest : List StatementMapping} {state state' : Emission source target}

/-- What every step in a section does: it emits one operation that names only
statements that are open and no anchors. -/
theorem SectionStep.emits (h : Aligned source target equalPairs lcs) (hsplit : done ++ rest = lcs)
    (step : SectionStep equalPairs done rest state state') :
    ∃ memo code sourceId targetId,
      state' = { state with memo := memo }.emit code sourceId targetId ∧ code ≠ .keep ∧
      Names equalPairs code sourceId targetId ∧
      (∀ s ∈ sourceId, SourceGap source done rest s ∧ state.sourceEmitted s = false) ∧
      (∀ t ∈ targetId, t < target.statements.length ∧ state.targetEmitted t = false ∧
        ∀ q ∈ rest, t ≠ q.2) := by
  cases step with
  | @move s t gap source_open target_open equal =>
    refine ⟨state.memo, .move, some s, some t, rfl, by simp, equal, ?_, ?_⟩
    · intro s' hs'
      obtain rfl := some.inj hs'
      exact ⟨gap, source_open⟩
    · intro t' ht'
      obtain rfl := some.inj ht'
      refine ⟨(h.bounded _ equal).2, target_open, ?_⟩
      -- the anchor would share its target with the pair that moves
      intro q hq heq
      subst heq
      have hlt := gap.2.1 q hq
      refine (h.anchors q (by simp [← hsplit, hq])).2 ⟨(s, q.2), equal, ?_, .inr rfl⟩
      intro heq
      rw [← heq] at hlt
      exact Nat.lt_irrefl _ hlt
  | @update s t memo gap source_open closed target_gap target_open =>
    refine ⟨memo, .update, some s, some t, rfl, by simp, trivial, ?_, ?_⟩
    · intro s' hs'
      obtain rfl := some.inj hs'
      exact ⟨gap, source_open⟩
    · intro t' ht'
      obtain rfl := some.inj ht'
      exact ⟨target_gap.2.2, target_open, fun q hq => Nat.ne_of_lt (target_gap.2.1 q hq)⟩
  | @delete s memo gap source_open closed =>
    refine ⟨memo, .delete, some s, none, rfl, by simp, trivial, ?_, by simp⟩
    intro s' hs'
    obtain rfl := some.inj hs'
    exact ⟨gap, source_open⟩
  | @insert t target_gap target_open sources_closed =>
    refine ⟨state.memo, .insert, none, some t, rfl, by simp, trivial, by simp, ?_⟩
    intro t' ht'
    obtain rfl := some.inj ht'
    exact ⟨target_gap.2.2, target_open, fun q hq => Nat.ne_of_lt (target_gap.2.1 q hq)⟩

theorem Progress.step (h : Aligned source target equalPairs lcs)
    (progress : Progress equalPairs lcs done rest state)
    (step : SectionStep equalPairs done rest state state') :
    Progress equalPairs lcs done rest state' := by
  obtain ⟨memo, code, sourceId, targetId, rfl, hcode, hnames, hsource, htarget⟩ :=
    step.emits h progress.split
  refine ⟨progress.split, ?_, ?_, ?_, ?_, ?_, ?_⟩
  · exact (progress.emitted.withMemo memo).emit hnames
      (fun s hs => ⟨(hsource s hs).1.2.2, (hsource s hs).2⟩)
      (fun t ht => ⟨(htarget t ht).1, (htarget t ht).2.1⟩)
  · rw [keepPairs_emit hcode]
    exact progress.keeps
  · intro q hq s hs
    exact sourceEmitted_emit.mpr (.inr (progress.sources_done q hq s hs))
  · intro q hq t ht
    exact targetEmitted_emit.mpr (.inr (progress.targets_done q hq t ht))
  · intro q hq s hs
    rw [← Bool.not_eq_true]
    intro hmark
    rcases sourceEmitted_emit.mp hmark with hnew | hold
    · have := (hsource s hnew).1.2.1 q hq
      omega
    · exact absurd hold (by simp [progress.sources_open q hq s hs])
  · intro q hq
    rw [← Bool.not_eq_true]
    intro hmark
    rcases targetEmitted_emit.mp hmark with hnew | hold
    · exact (htarget q.2 hnew).2.2 q hq rfl
    · exact absurd hold (by simp [progress.targets_open q hq])

/-- Where the section in front of an anchor is closed, so is everything below the anchor. -/
theorem Gap.closed {side : StatementMapping → ℕ} {bound : ℕ} {q : StatementMapping}
    {flags : ℕ → Bool} (hdone : ∀ q' ∈ done, ∀ id ≤ side q', flags id = true)
    (hclosed : ∀ id, Gap side bound done (q :: rest) id → flags id = true)
    (hbound : side q < bound) (hbehind : ∀ q' ∈ rest, side q < side q') {id : ℕ}
    (hid : id < side q) : flags id = true := by
  by_cases hcovered : ∃ q' ∈ done, id ≤ side q'
  · obtain ⟨q', hq', hle⟩ := hcovered
    exact hdone q' hq' id hle
  · push Not at hcovered
    refine hclosed id ⟨hcovered, ?_, hid.trans hbound⟩
    intro q' hq'
    rcases mem_cons.mp hq' with rfl | hq'
    · exact hid
    · exact hid.trans (hbehind q' hq')

theorem Progress.keep (h : Aligned source target equalPairs lcs) {q : StatementMapping}
    (progress : Progress equalPairs lcs done (q :: rest) state)
    (sources_closed : ∀ s, SourceGap source done (q :: rest) s → state.sourceEmitted s = true)
    (targets_closed : ∀ t, TargetGap target done (q :: rest) t → state.targetEmitted t = true) :
    Progress equalPairs lcs (done ++ [q]) rest (state.emit .keep (some q.1) (some q.2)) := by
  obtain ⟨hanchor, -⟩ := h.anchors q (by simp [← progress.split])
  have hbounded := h.bounded q hanchor
  have hbehind : ∀ q' ∈ rest, Before q q' := by
    have hincreasing := h.increasing
    rw [← progress.split, pairwise_append] at hincreasing
    exact (pairwise_cons.mp hincreasing.2.1).1
  refine ⟨by simp [progress.split], ?_, ?_, ?_, ?_, ?_, ?_⟩
  · refine progress.emitted.emit hanchor ?_ ?_
    · intro s hs
      obtain rfl := some.inj hs
      exact ⟨hbounded.1, progress.sources_open q (by simp) q.1 le_rfl⟩
    · intro t ht
      obtain rfl := some.inj ht
      exact ⟨hbounded.2, progress.targets_open q (by simp)⟩
  · rw [← progress.keeps]
    simp [Emission.emit, keepPairs, DiffOp.make, DiffOp.keepPair]
  · intro q' hq' s hs
    rw [sourceEmitted_emit]
    rcases mem_append.mp hq' with hdone | hlast
    · exact .inr (progress.sources_done q' hdone s hs)
    · obtain rfl := mem_singleton.mp hlast
      rcases Nat.eq_or_lt_of_le hs with rfl | hlt
      · exact .inl rfl
      · exact .inr (Gap.closed progress.sources_done sources_closed hbounded.1
          (fun q hq => (hbehind q hq).1) hlt)
  · intro q' hq' t ht
    rw [targetEmitted_emit]
    rcases mem_append.mp hq' with hdone | hlast
    · exact .inr (progress.targets_done q' hdone t ht)
    · obtain rfl := mem_singleton.mp hlast
      rcases Nat.eq_or_lt_of_le ht with rfl | hlt
      · exact .inl rfl
      · exact .inr (Gap.closed progress.targets_done targets_closed hbounded.2
          (fun q hq => (hbehind q hq).2) hlt)
  · intro q' hq' s hs
    have hlt := (hbehind q' hq').1
    rw [← Bool.not_eq_true]
    intro hmark
    rcases sourceEmitted_emit.mp hmark with heq | hold
    · have := some.inj heq
      omega
    · exact absurd hold (by simp [progress.sources_open q' (by simp [hq']) s hs])
  · intro q' hq'
    have hlt := (hbehind q' hq').2
    rw [← Bool.not_eq_true]
    intro hmark
    rcases targetEmitted_emit.mp hmark with heq | hold
    · have := some.inj heq
      omega
    · exact absurd hold (by simp [progress.targets_open q' (by simp [hq'])])

theorem Run.progress (h : Aligned source target equalPairs lcs)
    (run : Run equalPairs lcs done rest state) : Progress equalPairs lcs done rest state := by
  induction run with
  | start =>
    refine ⟨rfl, Emitted.init, rfl, by simp, by simp, fun _ _ _ _ => rfl, fun _ _ => rfl⟩
  | step _ step ih => exact ih.step h step
  | keep _ sources_closed targets_closed ih => exact ih.keep h sources_closed targets_closed

/-! ## The loops are runs -/

/-- The ends of the section between the anchors that are done and the rest. -/
structure Ends (source target : ParsedScript) (done rest : List StatementMapping)
    (prev next : StatementMapping) : Prop where
  prev_mem : prev ∈ done ∨ done = [] ∧ prev = (0, 0)
  le_prev : ∀ q ∈ done, q.1 ≤ prev.1 ∧ q.2 ≤ prev.2
  le_rest : ∀ q ∈ rest, next.1 ≤ q.1 ∧ next.2 ≤ q.2
  le_last : next.1 ≤ source.statements.length ∧ next.2 ≤ target.statements.length
  next_mem : next ∈ rest ∨ rest = [] ∧ next = (source.statements.length, target.statements.length)

section

variable {prev next : StatementMapping}

section

variable (ends : Ends source target done rest prev next)

include ends

/-- A source statement of the section is in the gap, or it is that of the anchor
in front. -/
theorem Ends.source_gap {s : ℕ} (hlower : prev.1 ≤ s) (hupper : s < next.1) :
    SourceGap source done rest s ∨ prev ∈ done ∧ s = prev.1 := by
  by_cases hanchor : prev ∈ done ∧ s = prev.1
  · exact .inr hanchor
  · left
    refine ⟨?_, fun q hq => lt_of_lt_of_le hupper (ends.le_rest q hq).1,
      lt_of_lt_of_le hupper ends.le_last.1⟩
    intro q hq
    have hle := (ends.le_prev q hq).1
    rcases ends.prev_mem with hmem | ⟨rfl, -⟩
    · have hne : s ≠ prev.1 := fun heq => hanchor ⟨hmem, heq⟩
      omega
    · simp at hq

theorem Ends.target_gap {t : ℕ} (hlower : prev.2 ≤ t) (hupper : t < next.2) :
    TargetGap target done rest t ∨ prev ∈ done ∧ t = prev.2 := by
  by_cases hanchor : prev ∈ done ∧ t = prev.2
  · exact .inr hanchor
  · left
    refine ⟨?_, fun q hq => lt_of_lt_of_le hupper (ends.le_rest q hq).2,
      lt_of_lt_of_le hupper ends.le_last.2⟩
    intro q hq
    have hle := (ends.le_prev q hq).2
    rcases ends.prev_mem with hmem | ⟨rfl, -⟩
    · have hne : t ≠ prev.2 := fun heq => hanchor ⟨hmem, heq⟩
      omega
    · simp at hq

theorem Ends.of_source_gap {s : ℕ} (gap : SourceGap source done rest s) :
    prev.1 ≤ s ∧ s < next.1 := by
  constructor
  · rcases ends.prev_mem with hmem | ⟨-, rfl⟩
    · exact Nat.le_of_lt (gap.1 prev hmem)
    · exact Nat.zero_le s
  · rcases ends.next_mem with hmem | ⟨-, rfl⟩
    · exact gap.2.1 next hmem
    · exact gap.2.2

theorem Ends.of_target_gap {t : ℕ} (gap : TargetGap target done rest t) :
    prev.2 ≤ t ∧ t < next.2 := by
  constructor
  · rcases ends.prev_mem with hmem | ⟨-, rfl⟩
    · exact Nat.le_of_lt (gap.1 prev hmem)
    · exact Nat.zero_le t
  · rcases ends.next_mem with hmem | ⟨-, rfl⟩
    · exact gap.2.1 next hmem
    · exact gap.2.2

end

theorem Ends.prev_le (h : Aligned source target equalPairs lcs) (hsplit : done ++ rest = lcs)
    (ends : Ends source target done rest prev next) : prev.1 ≤ next.1 ∧ prev.2 ≤ next.2 := by
  rcases ends.prev_mem with hprev | ⟨-, rfl⟩
  · rcases ends.next_mem with hnext | ⟨-, rfl⟩
    · have hincreasing := h.increasing
      rw [← hsplit, pairwise_append] at hincreasing
      have hbefore := hincreasing.2.2 prev hprev next hnext
      exact ⟨Nat.le_of_lt hbefore.1, Nat.le_of_lt hbefore.2⟩
    · have hbounded := h.bounded prev (h.anchors prev (by simp [← hsplit, hprev])).1
      exact ⟨Nat.le_of_lt hbounded.1, Nat.le_of_lt hbounded.2⟩
  · exact ⟨Nat.zero_le _, Nat.zero_le _⟩

theorem processSource_reaches (round : ℚ → ℚ) (h : Aligned source target equalPairs lcs)
    (ends : Ends source target done rest prev next)
    (progress : Progress equalPairs lcs done rest state) {s : ℕ} (hlower : prev.1 ≤ s)
    (hupper : s < next.1) (hopen : SourceGap source done rest s → state.sourceEmitted s = false)
    (hstate' : state' = processSource round equalPairs (List.range' prev.2 (next.2 - prev.2)) state s) :
    ReflTransGen (SectionStep equalPairs done rest) state state' ∧
      state'.sourceEmitted s = true ∧
      ∀ s', s' ≠ s → state'.sourceEmitted s' = state.sourceEmitted s' := by
  have htarget : ∀ t ∈ List.range' prev.2 (next.2 - prev.2),
      TargetGap target done rest t ∨ prev ∈ done ∧ t = prev.2 := by
    intro t ht
    rw [mem_range'_1] at ht
    exact ends.target_gap ht.1 (by omega)
  have htarget_lt : ∀ t ∈ List.range' prev.2 (next.2 - prev.2), t < target.statements.length := by
    intro t ht
    rw [mem_range'_1] at ht
    exact lt_of_lt_of_le (by omega) ends.le_last.2
  have hcases := processSource_cases round h.sorted (fun t ht hequal =>
    h.texts s t (lt_of_lt_of_le hupper ends.le_last.1) (htarget_lt t ht) hequal) state
  rw [← hstate'] at hcases
  rcases ends.source_gap hlower hupper with gap | ⟨hanchor, rfl⟩
  · have hopen := hopen gap
    rcases hcases with ⟨t, hequal, htarget_open, rfl⟩ |
      ⟨hclosed, ⟨hemitted, -⟩ | ⟨-, memo, ⟨t, ht, htarget_open, rfl⟩ | rfl⟩⟩
    · exact ⟨.single (.move gap hopen htarget_open hequal), sourceEmitted_emit.mpr (.inl rfl),
        fun s' hs' => update_of_ne hs' _ _⟩
    · exact absurd hemitted (by simp [hopen])
    · have htarget_gap : TargetGap target done rest t := by
        refine (htarget t ht).resolve_right ?_
        rintro ⟨hmem, rfl⟩
        exact absurd (progress.targets_done prev hmem prev.2 le_rfl) (by simp [htarget_open])
      exact ⟨.single (.update memo gap hopen hclosed htarget_gap htarget_open),
        sourceEmitted_emit.mpr (.inl rfl), fun s' hs' => update_of_ne hs' _ _⟩
    · exact ⟨.single (.delete memo gap hopen hclosed), sourceEmitted_emit.mpr (.inl rfl),
        fun s' hs' => update_of_ne hs' _ _⟩
  · -- the anchor in front has no equal target but its own
    have hemitted := progress.sources_done prev hanchor prev.1 le_rfl
    have hprev := h.anchors prev (by simp [← progress.split, hanchor])
    rcases hcases with ⟨t, hequal, htarget_open, -⟩ | ⟨-, ⟨-, rfl⟩ | ⟨hsource_open, -⟩⟩
    · have heq : t = prev.2 := by
        by_contra hne
        exact hprev.2 ⟨(prev.1, t), hequal, fun heq => hne (congrArg Prod.snd heq), .inl rfl⟩
      rw [heq, progress.targets_done prev hanchor prev.2 le_rfl] at htarget_open
      simp at htarget_open
    · exact ⟨.refl, hemitted, fun _ _ => rfl⟩
    · exact absurd hemitted (by simp [hsource_open])

theorem Progress.steps (h : Aligned source target equalPairs lcs)
    (progress : Progress equalPairs lcs done rest state)
    (steps : ReflTransGen (SectionStep equalPairs done rest) state state') :
    Progress equalPairs lcs done rest state' := by
  induction steps with
  | refl => exact progress
  | tail _ step ih => exact ih.step h step

/-- A step closes no statement. -/
theorem SectionStep.mono (step : SectionStep equalPairs done rest state state') :
    (∀ s, state.sourceEmitted s = true → state'.sourceEmitted s = true) ∧
      ∀ t, state.targetEmitted t = true → state'.targetEmitted t = true := by
  cases step <;>
    exact ⟨fun s hs => sourceEmitted_emit.mpr (.inr hs), fun t ht => targetEmitted_emit.mpr (.inr ht)⟩

theorem steps_mono (steps : ReflTransGen (SectionStep equalPairs done rest) state state') :
    (∀ s, state.sourceEmitted s = true → state'.sourceEmitted s = true) ∧
      ∀ t, state.targetEmitted t = true → state'.targetEmitted t = true := by
  induction steps with
  | refl => exact ⟨fun _ hs => hs, fun _ ht => ht⟩
  | tail _ step ih =>
    exact ⟨fun s hs => step.mono.1 s (ih.1 s hs), fun t ht => step.mono.2 t (ih.2 t ht)⟩

/-- The loop over the sources of a section, from any of them on. -/
theorem processSources_reaches (round : ℚ → ℚ) (h : Aligned source target equalPairs lcs)
    (ends : Ends source target done rest prev next) (k : ℕ) :
    ∀ s (state : Emission source target), Progress equalPairs lcs done rest state →
      prev.1 ≤ s → s + k ≤ next.1 →
      (∀ s', s ≤ s' → SourceGap source done rest s' → state.sourceEmitted s' = false) →
      let state' := (List.range' s k).foldl
        (processSource round equalPairs (List.range' prev.2 (next.2 - prev.2))) state
      ReflTransGen (SectionStep equalPairs done rest) state state' ∧
        ∀ s', s ≤ s' → s' < s + k → state'.sourceEmitted s' = true := by
  induction k with
  | zero =>
    intro s state _ _ _ _
    exact ⟨.refl, fun s' hlower hupper => by omega⟩
  | succ k ih =>
    intro s state progress hlower hupper hopen
    rw [range'_succ, foldl_cons]
    obtain ⟨hsteps, hemitted, hother⟩ := processSource_reaches round h ends progress hlower
      (by omega) (hopen s le_rfl) rfl
    obtain ⟨hrest, hclosed⟩ := ih (s + 1) _ (progress.steps h hsteps) (by omega) (by omega) (by
      intro s' hs' gap
      rw [hother s' (by omega)]
      exact hopen s' (by omega) gap)
    refine ⟨hsteps.trans hrest, ?_⟩
    intro s' hs' hs'_lt
    rcases Nat.eq_or_lt_of_le hs' with rfl | hlt
    · exact (steps_mono hrest).1 s hemitted
    · exact hclosed s' hlt (by omega)

/-- The loop over the targets of a section whose sources are closed, from any of
them on. -/
theorem processTargets_reaches (ends : Ends source target done rest prev next) (k : ℕ) :
    ∀ t (state : Emission source target),
      (∀ q ∈ done, ∀ t ≤ q.2, state.targetEmitted t = true) →
      prev.2 ≤ t → t + k ≤ next.2 →
      (∀ s, SourceGap source done rest s → state.sourceEmitted s = true) →
      let state' := (List.range' t k).foldl processTarget state
      ReflTransGen (SectionStep equalPairs done rest) state state' ∧
        ∀ t', t ≤ t' → t' < t + k → state'.targetEmitted t' = true := by
  induction k with
  | zero =>
    intro t state _ _ _ _
    exact ⟨.refl, fun t' hlower hupper => by omega⟩
  | succ k ih =>
    intro t state hdone hlower hupper hsources
    rw [range'_succ, foldl_cons]
    have hstep : ReflTransGen (SectionStep equalPairs done rest) state (processTarget state t) ∧
        (processTarget state t).targetEmitted t = true := by
      unfold processTarget
      split_ifs with hemitted
      · exact ⟨.refl, hemitted⟩
      · have gap : TargetGap target done rest t := by
          refine (ends.target_gap hlower (by omega)).resolve_right ?_
          rintro ⟨hmem, rfl⟩
          exact hemitted (hdone prev hmem prev.2 le_rfl)
        exact ⟨.single (.insert gap (by simpa using hemitted) hsources),
          targetEmitted_emit.mpr (.inl rfl)⟩
    obtain ⟨hsteps, hemitted⟩ := hstep
    have hmono := steps_mono hsteps
    obtain ⟨hrest, hclosed⟩ := ih (t + 1) _
      (fun q hq t ht => hmono.2 t (hdone q hq t ht)) (by omega) (by omega)
      (fun s gap => hmono.1 s (hsources s gap))
    refine ⟨hsteps.trans hrest, ?_⟩
    intro t' ht' ht'_lt
    rcases Nat.eq_or_lt_of_le ht' with rfl | hlt
    · exact (steps_mono hrest).2 t hemitted
    · exact hclosed t' hlt (by omega)

theorem processSection_reaches (round : ℚ → ℚ) (h : Aligned source target equalPairs lcs)
    (ends : Ends source target done rest prev next)
    (progress : Progress equalPairs lcs done rest state)
    (hopen : ∀ s, SourceGap source done rest s → state.sourceEmitted s = false)
    (hstate' : state' = processSection round equalPairs prev next state) :
    ReflTransGen (SectionStep equalPairs done rest) state state' ∧
      (∀ s, SourceGap source done rest s → state'.sourceEmitted s = true) ∧
      ∀ t, TargetGap target done rest t → state'.targetEmitted t = true := by
  have hprev := ends.prev_le h progress.split
  obtain ⟨hsources, hsources_closed⟩ := processSources_reaches round h ends
    (next.1 - prev.1) prev.1 state progress le_rfl (by omega) (fun s _ gap => hopen s gap)
  have hclosed : ∀ s, SourceGap source done rest s →
      ((List.range' prev.1 (next.1 - prev.1)).foldl
        (processSource round equalPairs (List.range' prev.2 (next.2 - prev.2)))
          state).sourceEmitted s = true := by
    intro s gap
    have hbetween := ends.of_source_gap gap
    exact hsources_closed s hbetween.1 (by omega)
  obtain ⟨htargets, htargets_closed⟩ := @processTargets_reaches source target equalPairs done rest prev next ends
    (next.2 - prev.2) prev.2 _ (progress.steps h hsources).targets_done le_rfl (by omega) hclosed
  rw [hstate']
  refine ⟨hsources.trans htargets, ?_, ?_⟩
  · intro s gap
    exact (steps_mono htargets).1 s (hclosed s gap)
  · intro t gap
    have hbetween := ends.of_target_gap gap
    exact htargets_closed t hbetween.1 (by omega)

theorem Run.steps (run : Run equalPairs lcs done rest state)
    (steps : ReflTransGen (SectionStep equalPairs done rest) state state') :
    Run equalPairs lcs done rest state' := by
  induction steps with
  | refl => exact run
  | tail _ step ih => exact .step ih step

/-- The loop over the sections, from any of them on. -/
theorem processSections_run (round : ℚ → ℚ) (h : Aligned source target equalPairs lcs)
    (rest : List StatementMapping) :
    ∀ (done : List StatementMapping) (prev : StatementMapping) (state : Emission source target),
      Run equalPairs lcs done rest state →
      (prev ∈ done ∨ done = [] ∧ prev = (0, 0)) → (∀ q ∈ done, q.1 ≤ prev.1 ∧ q.2 ≤ prev.2) →
      (∀ s, SourceGap source done rest s → state.sourceEmitted s = false) →
      ∃ final : Emission source target,
        processSections round equalPairs (source.statements.length, target.statements.length)
          prev rest state = final ∧
        Run equalPairs lcs lcs [] final ∧
        (∀ s, SourceGap source lcs [] s → final.sourceEmitted s = true) ∧
        ∀ t, TargetGap target lcs [] t → final.targetEmitted t = true := by
  induction rest with
  | nil =>
    intro done prev state run hprev hle hopen
    have progress := run.progress h
    have ends : Ends source target done [] prev
        (source.statements.length, target.statements.length) :=
      ⟨hprev, hle, by simp, ⟨le_rfl, le_rfl⟩, .inr ⟨rfl, rfl⟩⟩
    obtain ⟨steps, hsources, htargets⟩ :=
      processSection_reaches round h ends progress hopen rfl
    have hdone : done = lcs := by simpa using progress.split
    subst hdone
    exact ⟨_, rfl, run.steps steps, hsources, htargets⟩
  | cons next rest ih =>
    intro done prev state run hprev hle hopen
    have progress := run.progress h
    have hincreasing := h.increasing
    rw [← progress.split, pairwise_append, pairwise_cons] at hincreasing
    have hbounded := h.bounded next (h.anchors next (by simp [← progress.split])).1
    have ends : Ends source target done (next :: rest) prev next := by
      refine ⟨hprev, hle, ?_, ⟨Nat.le_of_lt hbounded.1, Nat.le_of_lt hbounded.2⟩, .inl (by simp)⟩
      intro q hq
      rcases mem_cons.mp hq with rfl | hq
      · exact ⟨le_rfl, le_rfl⟩
      · have hbefore := hincreasing.2.1.1 q hq
        exact ⟨Nat.le_of_lt hbefore.1, Nat.le_of_lt hbefore.2⟩
    obtain ⟨steps, hsources, htargets⟩ :=
      processSection_reaches round h ends progress hopen rfl
    have hsection := progress.steps h steps
    refine ih (done ++ [next]) next _ (.keep (run.steps steps) hsources htargets) (.inl (by simp))
      ?_ ?_
    · intro q hq
      rcases mem_append.mp hq with hdone | hlast
      · have hbefore := hincreasing.2.2 q hdone next (by simp)
        exact ⟨Nat.le_of_lt hbefore.1, Nat.le_of_lt hbefore.2⟩
      · rw [mem_singleton.mp hlast]
        exact ⟨le_rfl, le_rfl⟩
    · -- the sources behind the anchor are still open
      intro s gap
      have hlt := gap.1 next (by simp)
      rw [← Bool.not_eq_true]
      intro hmark
      rcases sourceEmitted_emit.mp hmark with heq | hold
      · have := some.inj heq
        omega
      · exact absurd hold (by simp [hsection.sources_open next (by simp) s (Nat.le_of_lt hlt)])

end

/-! ## The diff is a run -/

/-- What holds when the diff is done: every statement is emitted. -/
structure Complete (source target : ParsedScript) (equalPairs lcs : List StatementMapping)
    (final : Emission source target) : Prop where
  run : Run equalPairs lcs lcs [] final
  sources_closed : ∀ s < source.statements.length, final.sourceEmitted s = true
  targets_closed : ∀ t < target.statements.length, final.targetEmitted t = true

theorem compute_run (round : ℚ → ℚ) (source target : ParsedScript) :
    ∃ final : Emission source target,
      compute round source target = final.ops ∧
        Complete source target (mapStatements source target).2
          (findLCS (mapStatements source target).1) final := by
  have h := mapStatements_aligned source target
  obtain ⟨final, heq, run, hsources, htargets⟩ := processSections_run round h _ [] (0, 0)
    ({} : Emission source target) .start (.inr ⟨rfl, rfl⟩) (by simp) (fun _ _ => rfl)
  have progress := run.progress h
  refine ⟨final, congrArg Emission.ops heq, run, ?_, ?_⟩
  · intro s hs
    by_cases hcovered : ∃ q ∈ findLCS (mapStatements source target).1, s ≤ q.1
    · obtain ⟨q, hq, hle⟩ := hcovered
      exact progress.sources_done q hq s hle
    · push Not at hcovered
      exact hsources s ⟨hcovered, by simp, hs⟩
  · intro t ht
    by_cases hcovered : ∃ q ∈ findLCS (mapStatements source target).1, t ≤ q.2
    · obtain ⟨q, hq, hle⟩ := hcovered
      exact progress.targets_done q hq t hle
    · push Not at hcovered
      exact htargets t ⟨hcovered, by simp, ht⟩

end DashQL.ScriptDiff
