import DashQL.Storage.Timers

/-!
# Pausing and flushing

While a flush is running it holds the flag down and restores the value that it
saved at its start.  `Timely` is what holds between the steps: outside of a
running flush the flag is what the last of `pause` and `resume` asked for, and a
task that may run is armed, or a flush that was started while the writer was
paused still has its key.

The one step that breaks this is a flush that restores a value which is no
longer wanted (`RestoresLastCall`).
-/

namespace DashQL.Storage

open List Option

namespace Writer

variable {T : Type} {w w' : Writer T} {lastPause : Bool}

/-- A flush that was started while the writer was paused still has the key. -/
def Covered (w : Writer T) (key : StorageWriteKey) : Prop :=
  ∃ flush keys awaited, w.flushes.get? flush = some ⟨true, .processing keys awaited⟩ ∧ key ∈ keys

/-- No flush is between its start and the restoring of the flag. -/
def NoFlush (w : Writer T) : Prop :=
  ∀ flush wasPaused keys awaited, w.flushes.get? flush ≠ some ⟨wasPaused, .processing keys awaited⟩

/-- What holds between the steps of a writer. -/
structure Timely (w : Writer T) (lastPause : Bool) : Prop where
  timers : TimersAgree w
  resumed : lastPause = false → w.paused = false
  agree : NoFlush w → w.paused = lastPause
  armed : w.paused = false → ∀ key, w.held key = false → Armed w key ∨ Covered w key
  flush_fresh : ∀ flush f, w.flushes.get? flush = some f → flush < w.nextFlush

theorem OnlyTimers.covered (h : OnlyTimers w w') {key : StorageWriteKey} (hcovered : Covered w key) :
    Covered w' key := by
  obtain ⟨flush, keys, awaited, hget, hmem⟩ := hcovered
  exact ⟨flush, keys, awaited, h.flushes ▸ hget, hmem⟩

theorem OnlyTimers.noFlush (h : OnlyTimers w w') (hnone : NoFlush w') : NoFlush w := by
  intro flush wasPaused keys awaited
  rw [← h.flushes]
  exact hnone flush wasPaused keys awaited

theorem OnlyTimers.flush_fresh (h : OnlyTimers w w')
    (hfresh : ∀ flush f, w.flushes.get? flush = some f → flush < w.nextFlush) :
    ∀ flush f, w'.flushes.get? flush = some f → flush < w'.nextFlush := by
  intro flush f hget
  rw [h.nextFlush]
  rw [h.flushes] at hget
  exact hfresh flush f hget

/-! ## Pausing -/

section

variable (h : Timely w lastPause)

include h

theorem Timely.pause : Timely w.pause true := by
  obtain ⟨hsame, hagree⟩ := pause_spec h.timers
  have hpaused : w.pause.paused = true := hsame.paused
  refine ⟨hagree, by simp, fun _ => hpaused, ?_, hsame.flush_fresh h.flush_fresh⟩
  intro hnot
  simp [hpaused] at hnot

theorem Timely.resume : Timely w.resume false := by
  cases hpaused : w.paused with
  | false =>
    have hresume : w.resume = w := by simp [Writer.resume, hpaused]
    rw [hresume]
    exact ⟨h.timers, fun _ => hpaused, fun _ => hpaused, h.armed, h.flush_fresh⟩
  | true =>
    obtain ⟨hsame, hagree, harmed⟩ := resume_spec h.timers hpaused
    have hresumed : w.resume.paused = false := hsame.paused
    refine ⟨hagree, fun _ => hresumed, fun _ => hresumed, ?_, hsame.flush_fresh h.flush_fresh⟩
    intro _ key hheld
    rw [hsame.held] at hheld
    exact .inl (harmed key hheld)

theorem Timely.pauseNotebook (notebookId : Text) :
    Timely (w.pauseNotebook notebookId) lastPause := by
  obtain ⟨hsame, hagree, hkept⟩ := pauseNotebook_spec h.timers notebookId
  have hpaused : (w.pauseNotebook notebookId).paused = w.paused := hsame.paused
  refine ⟨hagree, fun hl => hpaused.trans (h.resumed hl),
    fun hnone => hpaused.trans (h.agree (hsame.noFlush hnone)), ?_,
    hsame.flush_fresh h.flush_fresh⟩
  intro hnot key hheld
  rw [hsame.held] at hheld
  have hfree : w.held key = false ∧ storageWriteKeyBelongsToNotebook key notebookId = false := by
    simp only [held, List.any_eq_false, mem_insert_iff] at hheld ⊢
    exact ⟨fun n hn => hheld n (.inr hn), by simpa using hheld notebookId (.inl rfl)⟩
  exact (h.armed (hpaused ▸ hnot) key hfree.1).imp (hkept key hfree.2) hsame.covered

theorem Timely.resumeNotebook (notebookId : Text) :
    Timely (w.resumeNotebook notebookId) lastPause := by
  obtain ⟨hsame, hagree, hkept, hloop⟩ := resumeNotebook_spec h.timers notebookId
  have hpaused : (w.resumeNotebook notebookId).paused = w.paused := hsame.paused
  refine ⟨hagree, fun hl => hpaused.trans (h.resumed hl),
    fun hnone => hpaused.trans (h.agree (hsame.noFlush hnone)), ?_,
    hsame.flush_fresh h.flush_fresh⟩
  intro hnot key hheld
  rw [hpaused] at hnot
  by_cases hresumed : notebookId ∈ w.pausedNotebooks ∧
      storageWriteKeyBelongsToNotebook key notebookId = true
  · exact .inl (hloop hresumed.1 hnot key hresumed.2)
  · -- the notebook did not hold the key
    have hfree : w.held key = false := by
      rw [hsame.held] at hheld
      simp only [held, List.any_eq_false, mem_filter, decide_eq_true_eq, ne_eq] at hheld ⊢
      intro n hn
      by_cases heq : n = notebookId
      · subst heq
        exact fun hbelongs => hresumed ⟨hn, hbelongs⟩
      · exact hheld n ⟨hn, heq⟩
    exact (h.armed hnot key hfree).imp (hkept key) hsame.covered

/-! ## Tasks -/

theorem Timely.write (key : StorageWriteKey) (task : T) (debounceFor : ℕ) :
    Timely (w.write key task debounceFor) lastPause := by
  obtain ⟨hagree, hkept⟩ := write_spec h.timers key task debounceFor
  have hsame : (w.write key task debounceFor).paused = w.paused ∧
      (w.write key task debounceFor).pausedNotebooks = w.pausedNotebooks ∧
      (w.write key task debounceFor).flushes = w.flushes ∧
      (w.write key task debounceFor).nextFlush = w.nextFlush := by
    unfold Writer.write
    split <;> exact ⟨rfl, rfl, rfl, rfl⟩
  obtain ⟨hpaused, hnotebooks, hflushes, hnext⟩ := hsame
  refine ⟨hagree, fun hl => hpaused.trans (h.resumed hl), ?_, ?_, ?_⟩
  · intro hnone
    rw [hpaused]
    apply h.agree
    intro flush wasPaused keys awaited
    rw [← hflushes]
    exact hnone flush wasPaused keys awaited
  · intro hnot other hheld
    rw [held, hnotebooks] at hheld
    refine (h.armed (hpaused ▸ hnot) other hheld).imp (hkept other) ?_
    rintro ⟨flush, keys, awaited, hget, hmem⟩
    exact ⟨flush, keys, awaited, hflushes ▸ hget, hmem⟩
  · intro flush f hget
    rw [hnext]
    rw [hflushes] at hget
    exact h.flush_fresh flush f hget

theorem Timely.expire {timer : ℕ} (hw' : w.expire timer = some w') : Timely w' lastPause := by
  obtain ⟨t, ht, rfl⟩ := map_eq_some_iff.mp hw'
  have hagree := timersAgree_clearTimeout h.timers timer
  have hother : ∀ other, other ≠ t.key → Armed w other → Armed (w.clearTimeout timer) other := by
    intro other hne harmed
    refine armed_clear h.timers ?_ harmed
    intro t' ht'
    rw [ht] at ht'
    rw [← some.inj ht']
    exact hne.symm
  rcases processTask_cases t.key false (w.clearTimeout timer) with ⟨heq, hreason⟩ |
    ⟨task, htask, -, heq⟩
  · rw [heq]
    refine ⟨hagree, h.resumed, h.agree, ?_, h.flush_fresh⟩
    intro hnot key hheld
    refine (h.armed hnot key hheld).imp_left ?_
    intro harmed
    by_cases hkey : key = t.key
    · -- a key that may run has no task here
      subst hkey
      rcases hreason with hnone | ⟨-, hpaused | hheld'⟩
      · intro task htask
        rw [hnone] at htask
        simp at htask
      · have hpaused : w.paused = true := hpaused
        have hnot : w.paused = false := hnot
        simp [hnot] at hpaused
      · have hheld' : w.held t.key = true := hheld'
        have hheld : w.held t.key = false := hheld
        simp [hheld] at hheld'
    · exact hother key hkey harmed
  · rw [heq]
    refine ⟨timersAgree_delete hagree rfl rfl rfl, h.resumed, h.agree, ?_, h.flush_fresh⟩
    intro hnot key hheld
    refine (h.armed hnot key hheld).imp_left ?_
    intro harmed
    refine @armed_delete T (w.clearTimeout timer) _ t.key ?_ ?_ key fun hne => hother key hne harmed
    · rfl
    · rfl

theorem Timely.complete {execution : ℕ} (hw' : w.complete execution = some w') :
    Timely w' lastPause := by
  unfold Writer.complete at hw'
  split_ifs at hw'
  obtain rfl := some.inj hw'
  exact ⟨⟨h.timers.key, h.timers.fresh⟩, h.resumed, h.agree, h.armed, h.flush_fresh⟩

/-! ## Flushing -/

end

theorem settle_spec (flush : ℕ) (wasPaused : Bool) (w : Writer T) :
    (∀ other, other ≠ flush → (settle flush wasPaused w).flushes.get? other = w.flushes.get? other) ∧
      (∀ saved keys awaited,
        (settle flush wasPaused w).flushes.get? flush ≠ some ⟨saved, .processing keys awaited⟩) ∧
      settle flush wasPaused w = { w with flushes := (settle flush wasPaused w).flushes } := by
  unfold settle
  split_ifs
  · refine ⟨?_, ?_, rfl⟩
    · intro other hne
      exact (InsertionMap.get?_delete).trans (if_neg hne)
    · intro saved keys awaited hget
      have hdeleted : (w.flushes.delete flush).get? flush = none :=
        (InsertionMap.get?_delete).trans (if_pos rfl)
      exact absurd (hdeleted.symm.trans hget) (by simp)
  · refine ⟨?_, ?_, rfl⟩
    · intro other hne
      exact InsertionMap.get?_set_of_ne hne
    · intro saved keys awaited hget
      have hset : (w.flushes.set flush ⟨wasPaused, .settling w.inFlight⟩).get? flush = _ :=
        InsertionMap.get?_set_self
      simpa using some.inj (hset.symm.trans hget)

theorem covered_settle {flush : ℕ} {wasPaused : Bool} {f : Flush}
    (hflush : w.flushes.get? flush = some f)
    (hdone : ∀ saved keys awaited, f = ⟨saved, .processing keys awaited⟩ → keys = [])
    {key : StorageWriteKey} (h : Covered w key) : Covered (settle flush wasPaused w) key := by
  obtain ⟨other, keys, awaited, hget, hmem⟩ := h
  have hne : other ≠ flush := by
    rintro rfl
    rw [hdone true keys awaited (some.inj (hflush.symm.trans hget))] at hmem
    simp at hmem
  exact ⟨other, keys, awaited, ((settle_spec flush wasPaused w).1 other hne).trans hget, hmem⟩

theorem flush_fresh_settle {flush : ℕ} (wasPaused : Bool) (hlt : flush < w.nextFlush)
    (hfresh : ∀ flush f, w.flushes.get? flush = some f → flush < w.nextFlush) :
    ∀ other f, (settle flush wasPaused w).flushes.get? other = some f → other < w.nextFlush := by
  intro other f hget
  by_cases hne : other = flush
  · exact hne ▸ hlt
  · rw [(settle_spec flush wasPaused w).1 other hne] at hget
    exact hfresh other f hget

/-- A flush that has no key left restores a flag that is wanted. -/
theorem Timely.restore (h : Timely w lastPause) {flush : ℕ} {wasPaused : Bool} {awaited : Option ℕ}
    (hflush : w.flushes.get? flush = some ⟨wasPaused, .processing [] awaited⟩)
    (hsaved : wasPaused = lastPause) : Timely (advance flush wasPaused [] w) lastPause := by
  have hspec := settle_spec flush wasPaused { w with paused := wasPaused }
  have hpaused : (advance flush wasPaused [] w).paused = wasPaused := by
    rw [advance, hspec.2.2]
  rw [advance] at hpaused ⊢
  refine ⟨?_, fun hl => hpaused.trans (hsaved.trans hl), fun _ => hpaused.trans hsaved, ?_, ?_⟩
  · rw [hspec.2.2]
    exact ⟨h.timers.key, h.timers.fresh⟩
  · intro hnot key hheld
    have hresumed : w.paused = false := h.resumed (by rw [← hsaved, ← hpaused, hnot])
    rw [hspec.2.2] at hheld
    refine (h.armed hresumed key hheld).imp ?_ ?_
    · intro harmed
      rw [hspec.2.2]
      exact harmed
    · intro hcovered
      refine @covered_settle T { w with paused := wasPaused } flush wasPaused _ hflush ?_ key hcovered
      intro saved keys awaited' heq
      exact (FlushStage.processing.inj (congrArg Flush.stage heq)).1.symm
  · rw [hspec.2.2]
    exact flush_fresh_settle wasPaused (h.flush_fresh flush _ hflush) h.flush_fresh

/-- A flush behind its loop changes nothing but its record. -/
theorem Timely.settled (h : Timely w lastPause) {flush : ℕ} {wasPaused : Bool} {awaited : List ℕ}
    (hflush : w.flushes.get? flush = some ⟨wasPaused, .settling awaited⟩) :
    Timely (settle flush wasPaused w) lastPause := by
  have hspec := settle_spec flush wasPaused w
  have hcovered : ∀ key, Covered w key → Covered (settle flush wasPaused w) key := by
    intro key
    refine covered_settle hflush ?_
    intro saved keys awaited' heq
    exact absurd (congrArg Flush.stage heq) (by simp)
  have hfresh := flush_fresh_settle wasPaused (h.flush_fresh flush _ hflush) h.flush_fresh
  have hnone : NoFlush (settle flush wasPaused w) → NoFlush w := by
    intro hnone other saved keys awaited' hget
    by_cases hne : other = flush
    · subst hne
      simpa using congrArg Flush.stage (some.inj (hflush.symm.trans hget))
    · exact hnone other saved keys awaited' ((hspec.1 other hne).trans hget)
  have hpaused : (settle flush wasPaused w).paused = w.paused := by rw [hspec.2.2]
  have hheld : ∀ key, (settle flush wasPaused w).held key = w.held key := by
    intro key
    rw [hspec.2.2]
    rfl
  have harmed : ∀ key, Armed w key → Armed (settle flush wasPaused w) key := by
    intro key harmed
    rw [hspec.2.2]
    exact harmed
  refine ⟨?_, fun hl => hpaused.trans (h.resumed hl), fun hn => hpaused.trans (h.agree (hnone hn)),
    fun hnot key hfree => (h.armed (hpaused ▸ hnot) key (hheld key ▸ hfree)).imp (harmed key)
      (hcovered key), ?_⟩
  · rw [hspec.2.2]
    exact ⟨h.timers.key, h.timers.fresh⟩
  · rw [hspec.2.2]
    exact hfresh

/-- A flush goes over one of its keys: the task of the key is started, if it is
pending. -/
theorem Timely.process (h : Timely w lastPause) {flush : ℕ} {wasPaused : Bool}
    {key : StorageWriteKey} {keys : List StorageWriteKey} {awaited : Option ℕ}
    (hflush : w.flushes.get? flush = some ⟨wasPaused, .processing (key :: keys) awaited⟩) :
    Timely (advance flush wasPaused (key :: keys) w) lastPause := by
  -- a key that was covered is now covered by the same flush, or it is the one at hand
  have hcovered : ∀ awaited' other, other ≠ key → Covered w other →
      ∃ flush' keys' awaited'', (w.flushes.set flush ⟨wasPaused, .processing keys awaited'⟩).get?
        flush' = some ⟨true, .processing keys' awaited''⟩ ∧ other ∈ keys' := by
    rintro awaited' other hne ⟨flush', keys', awaited'', hget, hmem⟩
    by_cases hsame : flush' = flush
    · subst hsame
      have heq := some.inj (hflush.symm.trans hget)
      obtain ⟨rfl, hstage⟩ := Flush.mk.inj heq
      obtain ⟨rfl, -⟩ := FlushStage.processing.inj hstage
      exact ⟨flush', keys, awaited', InsertionMap.get?_set_self,
        (mem_cons.mp hmem).resolve_left hne⟩
    · exact ⟨flush', keys', awaited'', (InsertionMap.get?_set_of_ne hsame).trans hget, hmem⟩
  have hfresh : ∀ awaited' other f,
      (w.flushes.set flush ⟨wasPaused, .processing keys awaited'⟩).get? other = some f →
        other < w.nextFlush := by
    intro awaited' other f hget
    by_cases hsame : other = flush
    · exact hsame ▸ h.flush_fresh flush _ hflush
    · exact h.flush_fresh other f ((InsertionMap.get?_set_of_ne hsame).symm.trans hget)
  unfold advance
  dsimp only
  cases htask : w.pendingTasks.get? key with
  | none =>
    dsimp only
    rw [processTask_of_none htask]
    refine ⟨⟨h.timers.key, h.timers.fresh⟩, h.resumed, ?_, ?_, hfresh none⟩
    · intro hnone
      exact absurd InsertionMap.get?_set_self (hnone flush wasPaused keys none)
    · intro hnot other hheld
      by_cases hkey : other = key
      · left
        intro task htask'
        have hpending : w.pendingTasks.get? other = some task := htask'
        rw [hkey, htask] at hpending
        simp at hpending
      · exact (h.armed hnot other hheld).imp_right (hcovered none other hkey)
  | some task =>
    dsimp only
    have htask' : (w.clearTimeout task.timer).pendingTasks.get? key = some task := htask
    rw [processTask_forced htask']
    have hagree := timersAgree_clearTimeout h.timers task.timer
    refine ⟨timersAgree_delete hagree rfl rfl rfl, h.resumed, ?_, ?_, hfresh _⟩
    · intro hnone
      exact absurd InsertionMap.get?_set_self
        (hnone flush wasPaused keys (some w.executions.length))
    · intro hnot other hheld
      by_cases hkey : other = key
      · left
        refine @armed_delete T (w.clearTimeout task.timer) _ key ?_ ?_ other
          fun hne => absurd hkey hne
        · rfl
        · rfl
      · refine (h.armed hnot other hheld).imp ?_ (hcovered _ other hkey)
        intro harmed
        refine @armed_delete T (w.clearTimeout task.timer) _ key ?_ ?_ other
          fun _ => armed_clearTimeout h.timers htask hkey harmed
        · rfl
        · rfl

/-- The record of a flush is written at every await, whatever it was before. -/
theorem advance_set_flush (flush : ℕ) (wasPaused : Bool) (keys : List StorageWriteKey) (f : Flush)
    (w : Writer T) :
    advance flush wasPaused keys { w with flushes := w.flushes.set flush f } =
      advance flush wasPaused keys w := by
  cases keys with
  | nil => simp [advance, Writer.settle, InsertionMap.delete_set, InsertionMap.set_set]
  | cons key keys =>
    cases htask : w.pendingTasks.get? key with
    | none => simp [advance, htask, processTask, InsertionMap.set_set]
    | some task => simp [advance, htask, processTask, clearTimeout, InsertionMap.set_set]

theorem Timely.flush (h : Timely w lastPause) : Timely w.flush lastPause := by
  have hnot_mem : w.flushes.get? w.nextFlush = none := by
    cases hget : w.flushes.get? w.nextFlush with
    | none => rfl
    | some f => exact absurd (h.flush_fresh _ f hget) (Nat.lt_irrefl _)
  unfold Writer.flush
  cases hkeys : w.pendingTasks.keys with
  | nil =>
    -- nothing is pending, and the flag is back before anything can see it
    have hspec := settle_spec w.nextFlush w.paused
      { w with paused := w.paused, nextFlush := w.nextFlush + 1 }
    rw [advance]
    have hget : ∀ other f, (settle w.nextFlush w.paused
        { w with paused := w.paused, nextFlush := w.nextFlush + 1 }).flushes.get? other = some f →
        other ≠ w.nextFlush → w.flushes.get? other = some f :=
      fun other f hget hne => (hspec.1 other hne).symm.trans hget
    rw [hspec.2.2]
    refine ⟨⟨h.timers.key, h.timers.fresh⟩, h.resumed, ?_, ?_, ?_⟩
    · intro hnone
      apply h.agree
      intro other saved keys awaited hget'
      have hne : other ≠ w.nextFlush := by
        rintro rfl
        rw [hnot_mem] at hget'
        simp at hget'
      exact hnone other saved keys awaited ((hspec.1 other hne).trans hget')
    · intro _ key _
      left
      intro task htask
      have hmem := InsertionMap.mem_keys_iff.mpr ⟨task, htask⟩
      change key ∈ w.pendingTasks.keys at hmem
      rw [hkeys] at hmem
      simp at hmem
    · intro other f hget'
      by_cases hne : other = w.nextFlush
      · exact hne ▸ Nat.lt_succ_self _
      · exact Nat.lt_succ_of_lt (h.flush_fresh other f (hget other f hget' hne))
  | cons key keys =>
    -- the record that the first round reads is the one of a flush at its start
    rw [← advance_set_flush _ _ _ ⟨w.paused, .processing (key :: keys) none⟩]
    have hself : (w.flushes.set w.nextFlush ⟨w.paused, .processing (key :: keys) none⟩).get?
        w.nextFlush = some ⟨w.paused, .processing (key :: keys) none⟩ :=
      InsertionMap.get?_set_self
    refine Timely.process ?_ hself
    refine ⟨⟨h.timers.key, h.timers.fresh⟩, fun _ => rfl, ?_, ?_, ?_⟩
    · intro hnone
      exact absurd hself (hnone w.nextFlush w.paused (key :: keys) none)
    · intro _ other hheld
      cases hpaused : w.paused with
      | false =>
        refine (h.armed hpaused other hheld).imp id ?_
        rintro ⟨flush, keys', awaited, hget, hmem⟩
        have hne : flush ≠ w.nextFlush := Nat.ne_of_lt (h.flush_fresh flush _ hget)
        exact ⟨flush, keys', awaited, (InsertionMap.get?_set_of_ne hne).trans hget, hmem⟩
      | true =>
        by_cases hmem : other ∈ w.pendingTasks.keys
        · exact .inr ⟨w.nextFlush, key :: keys, none, hpaused ▸ hself, hkeys ▸ hmem⟩
        · left
          intro task htask
          exact absurd (InsertionMap.mem_keys_iff.mpr ⟨task, htask⟩) hmem
    · intro other f hget
      by_cases hne : other = w.nextFlush
      · exact hne ▸ Nat.lt_succ_self _
      · exact Nat.lt_succ_of_lt
          (h.flush_fresh other f ((InsertionMap.get?_set_of_ne hne).symm.trans hget))

end Writer

/-! ## Runs -/

variable {T : Type}

/-- Whether an event restores nothing but what the last of `pause` and `resume`
asks for: a flush that is through with its keys has saved that value. -/
def restoresLastCall (s : Session T) : Event T → Bool
  | .continueFlush flush =>
    match s.flushes.get? flush with
    | some ⟨wasPaused, .processing [] _⟩ => wasPaused = s.lastPause
    | _ => true
  | _ => true

/-- `restoresLastCall`, as a condition on steps. -/
abbrev RestoresLastCall (s : Session T) (event : Event T) : Prop := restoresLastCall s event = true

theorem timely_step {s s' : Session T} {event : Event T} (h : s.toWriter.Timely s.lastPause)
    (met : RestoresLastCall s event) (stepped : s.step event = some s') :
    s'.toWriter.Timely s'.lastPause := by
  obtain ⟨w', hw', rfl⟩ := map_eq_some_iff.mp stepped
  cases event with
  | write key task debounceFor =>
    obtain rfl := some.inj hw'
    exact h.write key task debounceFor
  | expire timer => exact h.expire hw'
  | complete execution => exact h.complete hw'
  | pause =>
    obtain rfl := some.inj hw'
    exact h.pause
  | resume =>
    obtain rfl := some.inj hw'
    exact h.resume
  | pauseNotebook notebookId =>
    obtain rfl := some.inj hw'
    exact h.pauseNotebook notebookId
  | resumeNotebook notebookId =>
    obtain rfl := some.inj hw'
    exact h.resumeNotebook notebookId
  | flush =>
    obtain rfl := some.inj hw'
    exact h.flush
  | continueFlush flush =>
    have hw' : s.toWriter.continueFlush flush = some w' := hw'
    unfold Writer.continueFlush at hw'
    split at hw'
    · simp at hw'
    · rename_i wasPaused keys awaited hflush
      split_ifs at hw'
      obtain rfl := some.inj hw'
      cases keys with
      | nil =>
        refine h.restore hflush ?_
        have met : restoresLastCall s (.continueFlush flush) = true := met
        simpa [restoresLastCall, hflush] using met
      | cons key keys => exact h.process hflush
    · rename_i wasPaused awaited hflush
      split_ifs at hw'
      obtain rfl := some.inj hw'
      exact h.settled hflush

theorem timely_of_run {s : Session T} (run : Run RestoresLastCall s) :
    s.toWriter.Timely s.lastPause := by
  refine run.invariant ?_ fun s event s' h met stepped => timely_step h met stepped
  refine ⟨⟨?_, ?_⟩, fun _ => rfl, fun _ => rfl, ?_, ?_⟩
  · intro key task t htask
    simp at htask
  · intro key task htask
    simp at htask
  · intro _ key _
    left
    intro task htask
    simp at htask
  · intro flush f hflush
    simp at hflush

/-- Where every flush restores what is wanted, the flag is what the last of
`pause` and `resume` asked for whenever no flush is running; and where the writer
is not paused, every pending task of a notebook that is not paused has a live
timer, or a flush that was started on the paused writer is about to start it. -/
theorem paused_iff_of_run {s : Session T} (run : Run RestoresLastCall s) :
    (s.NoFlush → (s.paused = true ↔ s.lastPause = true)) ∧
      (s.paused = false → ∀ key task, s.pendingTasks.get? key = some task → s.held key = false →
        (∃ t, s.timers.get? task.timer = some t) ∨ s.Covered key) := by
  have h := timely_of_run run
  constructor
  · intro hnone
    rw [h.agree hnone]
  · intro hnot key task htask hheld
    exact (h.armed hnot key hheld).imp_left fun harmed => harmed task htask

/-- A paused writer that is flushed is paused again. -/
theorem paused_after_flush :
    ∃ s : Session Text, s.NoFlush ∧ s.lastPause = true ∧ (s.paused = true ↔ s.lastPause = true) := by
  have hplay : (Session.play RestoresLastCall
      [.write ['n'] [] 100, .pause, .flush, .complete 0, .continueFlush 0] {} : Option
        (Session Text)).any (fun s => s.flushes.entries.isEmpty && s.lastPause) = true := by
    decide +kernel
  obtain ⟨s, hs, hfinal⟩ := (Option.any_eq_true _ _).mp hplay
  rw [Bool.and_eq_true, List.isEmpty_iff] at hfinal
  have hno_flush : s.NoFlush := by
    intro flush wasPaused keys awaited hget
    rw [InsertionMap.entries_eq_nil_iff.mp hfinal.1] at hget
    simp at hget
  exact ⟨s, hno_flush, hfinal.2, (paused_iff_of_run (Run.start.play hs)).1 hno_flush⟩

/-- `pause` is called while a flush of the running writer awaits a task, and a
timer expires before the flush goes on: the writer then runs although `pause` was
called last, and the second task is left without a timer. -/
theorem flush_overwrites_pause :
    ∃ s : Session Text, Run (fun _ _ => True) s ∧ s.flushes.keys = [] ∧
      s.lastPause = true ∧ s.paused = false ∧
      s.pendingTasks.keys = [['m']] ∧ s.held ['m'] = false ∧ s.timers.keys = [] := by
  have hplay : (Session.play (fun _ _ => True)
      [.write ['n'] [] 100, .flush, .pause, .write ['m'] [] 100, .expire 1, .complete 0,
        .continueFlush 0] {} : Option (Session Text)).any
      (fun s => s.flushes.keys = [] ∧ s.lastPause = true ∧ s.paused = false ∧
        s.pendingTasks.keys = [['m']] ∧ s.held ['m'] = false ∧ s.timers.keys = []) = true := by
    decide +kernel
  obtain ⟨s, hs, hfinal⟩ := (Option.any_eq_true _ _).mp hplay
  exact ⟨s, Run.start.play hs, of_decide_eq_true hfinal⟩

end DashQL.Storage
