import DashQL.ScriptDiff.Partition

/-!
# Statements that changed their position

A pair of equal statements crosses an anchor if its source stands behind the
anchor and its target in front of it.  The open targets of a section are
inserted before the sources of later sections are looked at, so a statement that
moved upwards across an anchor is lost, while every other one finds its partner.

`Losses` keeps what is known of lost sources and missed targets along a run.
-/

namespace DashQL.ScriptDiff

open List Option

/-- A source statement that is deleted or updated. -/
def Lost (ops : List DiffOp) (s : ℕ) : Prop :=
  ∃ op ∈ ops, (op.code = .delete ∨ op.code = .update) ∧ op.sourceStatement = some s

def Inserted (ops : List DiffOp) (t : ℕ) : Prop :=
  ∃ op ∈ ops, op.code = .insert ∧ op.targetStatement = some t

/-- Two statements that are kept or moved. -/
def Matches (ops : List DiffOp) (s t : ℕ) : Prop :=
  ∃ op ∈ ops, (op.code = .keep ∨ op.code = .move) ∧
    op.sourceStatement = some s ∧ op.targetStatement = some t

/-- A source statement behind an anchor and a target statement in front of it. -/
def Crossing (lcs : List StatementMapping) (s t : ℕ) : Prop :=
  ∃ q ∈ lcs, q.1 < s ∧ t < q.2

/-- No statement is lost while an equal one is inserted, and statements with one
partner are kept or moved. -/
structure FindsMoves (equalPairs : List StatementMapping) (ops : List DiffOp) : Prop where
  no_loss : ∀ s t, (s, t) ∈ equalPairs → Lost ops s → ¬ Inserted ops t
  unshared : ∀ s t, (s, t) ∈ equalPairs → ¬ Shared equalPairs (s, t) → Matches ops s t

variable {source target : ParsedScript}

/-- An operation on `t` that misses the equal statement `s`: an insert, or an
update from another statement although `s` is the only partner of `t`. -/
def Misses (equalPairs : List StatementMapping) (s t : ℕ) (op : DiffOp) : Prop :=
  op.targetStatement = some t ∧ (op.code = .insert ∨ op.code = .update ∧ ¬ Shared equalPairs (s, t))

/-- What is known of lost sources and missed targets. -/
structure Losses (equalPairs lcs : List StatementMapping) (state : Emission source target) :
    Prop where
  closed : ∀ s, Lost state.ops s → ∀ t, (s, t) ∈ equalPairs → state.targetEmitted t = true
  behind : ∀ s t, (s, t) ∈ equalPairs → ∀ op ∈ state.ops, Misses equalPairs s t op →
    state.sourceEmitted s = true ∨ Crossing lcs s t
  crossing : ∀ s t, (s, t) ∈ equalPairs → ∀ op ∈ state.ops, Misses equalPairs s t op →
    Lost state.ops s → Crossing lcs s t
  moved : ∀ s t, ∀ op ∈ state.ops, op.code = .move → op.sourceStatement = some s →
    op.targetStatement = some t → ¬ Crossing lcs s t

variable {equalPairs lcs done rest : List StatementMapping} {state state' : Emission source target}

theorem mem_emit {code : OpCode} {sourceId targetId : Option ℕ} {op : DiffOp} :
    op ∈ (state.emit code sourceId targetId).ops ↔
      op ∈ state.ops ∨ op = .make source target code sourceId targetId := by
  simp [Emission.emit]

theorem lost_emit {code : OpCode} {sourceId targetId : Option ℕ} {s : ℕ} :
    Lost (state.emit code sourceId targetId).ops s ↔
      Lost state.ops s ∨ (code = .delete ∨ code = .update) ∧ sourceId = some s := by
  constructor
  · rintro ⟨op, hop, hcode, hsource⟩
    rcases mem_emit.mp hop with hold | rfl
    · exact .inl ⟨op, hold, hcode, hsource⟩
    · exact .inr ⟨hcode, hsource⟩
  · rintro (⟨op, hop, hlost⟩ | hnew)
    · exact ⟨op, mem_emit.mpr (.inl hop), hlost⟩
    · exact ⟨_, mem_emit.mpr (.inr rfl), hnew⟩

/-- What an operation has to respect for `Losses` to be kept. -/
theorem Losses.emit (h : Losses equalPairs lcs state) {code : OpCode} {sourceId targetId : Option ℕ}
    (hsource : ∀ s ∈ sourceId, state.sourceEmitted s = false)
    (htarget : ∀ t ∈ targetId, state.targetEmitted t = false)
    (hlost : ∀ s ∈ sourceId, code = .delete ∨ code = .update →
      ∀ t, (s, t) ∈ equalPairs → state.targetEmitted t = true)
    (hmissed : ∀ t ∈ targetId, ∀ s, (s, t) ∈ equalPairs →
      code = .insert ∨ code = .update ∧ ¬ Shared equalPairs (s, t) →
      state.sourceEmitted s = true ∨ Crossing lcs s t)
    (hmoved : code = .move → ∀ s ∈ sourceId, ∀ t ∈ targetId, ¬ Crossing lcs s t) :
    Losses equalPairs lcs (state.emit code sourceId targetId) := by
  refine ⟨?_, ?_, ?_, ?_⟩
  · intro s hs t hpair
    rw [targetEmitted_emit]
    rcases lost_emit.mp hs with hold | ⟨hcode, hnew⟩
    · exact .inr (h.closed s hold t hpair)
    · exact .inr (hlost s hnew hcode t hpair)
  · intro s t hpair op hop hmiss
    rw [sourceEmitted_emit]
    rcases mem_emit.mp hop with hold | rfl
    · exact (h.behind s t hpair op hold hmiss).imp_left .inr
    · exact (hmissed t hmiss.1 s hpair hmiss.2).imp_left .inr
  · intro s t hpair op hop hmiss hs
    rcases mem_emit.mp hop with hold | rfl
    · rcases lost_emit.mp hs with hlost_old | ⟨-, hnew⟩
      · exact h.crossing s t hpair op hold hmiss hlost_old
      · -- a target that was missed before the source was reached
        refine (h.behind s t hpair op hold hmiss).resolve_left ?_
        simp [hsource s hnew]
    · -- the equal targets of a lost source are closed
      have hopen := htarget t hmiss.1
      have hclosed : state.targetEmitted t = true := by
        rcases lost_emit.mp hs with hold | ⟨hcode, hnew⟩
        · exact h.closed s hold t hpair
        · exact hlost s hnew hcode t hpair
      rw [hclosed] at hopen
      simp at hopen
  · intro s t op hop hcode hs ht
    rcases mem_emit.mp hop with hold | rfl
    · exact h.moved s t op hold hcode hs ht
    · exact hmoved hcode s hs t ht

/-- A source that is open while a target of the section is missed stands in the
section as well, or the pair crosses an anchor. -/
theorem Progress.gap_or_crossing (h : Aligned source target equalPairs lcs)
    (progress : Progress equalPairs lcs done rest state) {s t : ℕ}
    (hpair : (s, t) ∈ equalPairs) (hopen : state.sourceEmitted s = false)
    (gap : TargetGap target done rest t) : SourceGap source done rest s ∨ Crossing lcs s t := by
  by_cases hbehind : ∃ q ∈ rest, q.1 ≤ s
  · obtain ⟨q, hq, hle⟩ := hbehind
    have hlt : t < q.2 := gap.2.1 q hq
    have hmem : q ∈ lcs := by simp [← progress.split, hq]
    rcases Nat.eq_or_lt_of_le hle with rfl | hgt
    · -- the anchor would share its source with the pair
      refine absurd ⟨(q.1, t), hpair, ?_, .inl rfl⟩ (h.anchors q hmem).2
      intro heq
      have := congrArg Prod.snd heq
      omega
    · exact .inr ⟨q, hmem, hgt, hlt⟩
  · push Not at hbehind
    refine .inl ⟨?_, hbehind, (h.bounded _ hpair).1⟩
    intro q hq
    by_contra hle
    exact absurd (progress.sources_done q hq s (by omega)) (by simp [hopen])

/-- No two statements of one section have only each other as partners: the pair
would make the common subsequence longer. -/
theorem Aligned.not_unshared_in_gap (h : Aligned source target equalPairs lcs)
    (hsplit : done ++ rest = lcs) {s t : ℕ} (hpair : (s, t) ∈ equalPairs)
    (hunshared : ¬ Shared equalPairs (s, t)) (source_gap : SourceGap source done rest s)
    (target_gap : TargetGap target done rest t) : False := by
  have hincreasing := h.increasing
  rw [← hsplit, pairwise_append] at hincreasing
  obtain ⟨hdone, hrest, hacross⟩ := hincreasing
  have hlonger := h.longest (done ++ (s, t) :: rest) (by
    intro q hq
    rcases mem_append.mp hq with hdone | hcons
    · exact h.anchors q (by simp [← hsplit, hdone])
    · rcases mem_cons.mp hcons with rfl | hrest
      · exact ⟨hpair, hunshared⟩
      · exact h.anchors q (by simp [← hsplit, hrest])) (by
    rw [pairwise_append, pairwise_cons]
    refine ⟨hdone, ⟨?_, hrest⟩, ?_⟩
    · intro q hq
      exact ⟨source_gap.2.1 q hq, target_gap.2.1 q hq⟩
    · intro q hq q' hq'
      rcases mem_cons.mp hq' with rfl | hq'
      · exact ⟨source_gap.1 q hq, target_gap.1 q hq⟩
      · exact hacross q hq q' hq')
  rw [← hsplit, length_append, length_append, length_cons] at hlonger
  omega

theorem Losses.withMemo (h : Losses equalPairs lcs state) (memo : Memo source target) :
    Losses equalPairs lcs { state with memo := memo } :=
  ⟨h.closed, h.behind, h.crossing, h.moved⟩

section

variable (h : Aligned source target equalPairs lcs)

include h

theorem Losses.step (progress : Progress equalPairs lcs done rest state)
    (losses : Losses equalPairs lcs state) (step : SectionStep equalPairs done rest state state') :
    Losses equalPairs lcs state' := by
  cases step with
  | @move s t gap source_open target_open equal =>
    refine losses.emit (by simpa using source_open) (by simpa using target_open) (by simp)
      (by simp) ?_
    intro _ s' hs' t' ht'
    obtain rfl := some.inj hs'
    obtain rfl := some.inj ht'
    -- the target of a crossing pair is closed before its source is reached
    rintro ⟨q, hq, hsource, htarget⟩
    rw [← progress.split] at hq
    rcases mem_append.mp hq with hdone | hrest
    · exact absurd (progress.targets_done q hdone t (Nat.le_of_lt htarget)) (by simp [target_open])
    · have := gap.2.1 q hrest
      omega
  | @update s t memo gap source_open closed target_gap target_open =>
    refine (losses.withMemo memo).emit (by simpa using source_open) (by simpa using target_open)
      ?_ ?_ (by simp)
    · intro s' hs' _
      obtain rfl := some.inj hs'
      exact closed
    · intro t' ht' s' hpair hcode
      obtain rfl := some.inj ht'
      have hunshared : ¬ Shared equalPairs (s', t) := by simpa using hcode
      by_cases hopen : state.sourceEmitted s' = true
      · exact .inl hopen
      · rw [Bool.not_eq_true] at hopen
        refine .inr ((progress.gap_or_crossing h hpair hopen target_gap).resolve_left ?_)
        exact fun source_gap =>
          h.not_unshared_in_gap progress.split hpair hunshared source_gap target_gap
  | @delete s memo gap source_open closed =>
    refine (losses.withMemo memo).emit (by simpa using source_open) (by simp) ?_ (by simp) (by simp)
    intro s' hs' _
    obtain rfl := some.inj hs'
    exact closed
  | @insert t target_gap target_open sources_closed =>
    refine losses.emit (by simp) (by simpa using target_open) (by simp) ?_ (by simp)
    intro t' ht' s hpair _
    obtain rfl := some.inj ht'
    by_cases hopen : state.sourceEmitted s = true
    · exact .inl hopen
    · rw [Bool.not_eq_true] at hopen
      refine .inr ((progress.gap_or_crossing h hpair hopen target_gap).resolve_left ?_)
      intro source_gap
      exact absurd (sources_closed s source_gap) (by simp [hopen])

theorem Run.losses (run : Run equalPairs lcs done rest state) : Losses equalPairs lcs state := by
  induction run with
  | start => refine ⟨?_, ?_, ?_, ?_⟩ <;> simp [Lost]
  | step run step ih => exact ih.step h (run.progress h) step
  | @keep done rest q state run _ _ ih =>
    have progress := run.progress h
    refine ih.emit ?_ ?_ (by simp) (by simp) (by simp)
    · intro s hs
      obtain rfl := some.inj hs
      exact progress.sources_open q (by simp) q.1 le_rfl
    · intro t ht
      obtain rfl := some.inj ht
      exact progress.targets_open q (by simp)

/-- An operation of a diff with a target statement, by what it does to it. -/
theorem Complete.target_cases (complete : Complete source target equalPairs lcs state) {t : ℕ}
    (ht : t < target.statements.length) :
    ∃ op ∈ state.ops, op.targetStatement = some t ∧
      (op.code = .insert ∨ op.code = .update ∨
        ∃ s, (op.code = .keep ∨ op.code = .move) ∧ op.sourceStatement = some s ∧
          (s, t) ∈ equalPairs) := by
  have progress := complete.run.progress h
  have hmem := (progress.emitted.targets.iff t).mp (complete.targets_closed t ht)
  obtain ⟨op, hop, htarget⟩ := mem_filterMap.mp hmem
  have hnames := progress.emitted.names op hop
  refine ⟨op, hop, htarget, ?_⟩
  rw [htarget] at hnames
  cases hcode : op.code <;> cases hsource : op.sourceStatement <;>
    simp_all [Names]

theorem Complete.source_cases (complete : Complete source target equalPairs lcs state) {s : ℕ}
    (hs : s < source.statements.length) :
    Lost state.ops s ∨ ∃ t, Matches state.ops s t ∧ (s, t) ∈ equalPairs := by
  have progress := complete.run.progress h
  have hmem := (progress.emitted.sources.iff s).mp (complete.sources_closed s hs)
  obtain ⟨op, hop, hsource⟩ := mem_filterMap.mp hmem
  have hnames := progress.emitted.names op hop
  rw [hsource] at hnames
  cases hcode : op.code with
  | delete => exact .inl ⟨op, hop, .inl hcode, hsource⟩
  | update => exact .inl ⟨op, hop, .inr hcode, hsource⟩
  | insert => simp [hcode, Names] at hnames
  | keep | move =>
    cases htarget : op.targetStatement with
    | none => simp [hcode, htarget, Names] at hnames
    | some t =>
      rw [hcode, htarget] at hnames
      exact .inr ⟨t, ⟨op, hop, by simp [hcode], hsource, htarget⟩, hnames⟩

/-- Matched statements do not cross an anchor: anchors increase, and a target in
front of an anchor is closed when its sections are done. -/
theorem Complete.not_crossing_of_matches (complete : Complete source target equalPairs lcs state)
    {s t : ℕ} (hmatch : Matches state.ops s t) : ¬ Crossing lcs s t := by
  obtain ⟨op, hop, hcode, hsource, htarget⟩ := hmatch
  rcases hcode with hkeep | hmove
  · have hanchor : (s, t) ∈ lcs := by
      rw [← (complete.run.progress h).keeps]
      exact mem_filterMap.mpr
        ⟨op, hop, keepPair_eq_some_iff.mpr (by simp [DiffOp.summary, hkeep, hsource, htarget])⟩
    rintro ⟨q, hq, hcross⟩
    have hparallel : ∀ q ∈ lcs, ∀ p ∈ lcs, ¬ (q.1 < p.1 ∧ p.2 < q.2) := by
      apply List.Pairwise.forall_of_forall_of_flip
      · intro q _ hcross
        exact Nat.lt_irrefl _ hcross.1
      · refine h.increasing.imp ?_
        intro q p hbefore hcross
        exact Nat.lt_asymm hbefore.2 hcross.2
      · refine h.increasing.imp ?_
        intro p q hbefore hcross
        exact Nat.lt_asymm hbefore.1 hcross.1
    exact hparallel q hq (s, t) hanchor hcross
  · exact (complete.run.losses h).moved s t op hop hmove hsource htarget

end

end DashQL.ScriptDiff
