import DashQL.Storage.Writer

/-!
# Timers and tasks

The loops that pause and resume go over the pending tasks and touch nothing but
timers (`OnlyTimers`).  A timer that is live belongs to the key of the task that
holds it (`TimersAgree`), so clearing the timer of one task leaves the others
armed, and arming a task leaves it armed with a timer of its own.
-/

namespace DashQL.Storage

open List Option
open InsertionMap (get?_delete get?_eq_some_iff get?_set get?_set_of_ne get?_set_self mem_keys_iff)

namespace Writer

variable {T : Type} {w w' : Writer T}

def queue (w : Writer T) : List (StorageWriteKey × T) :=
  w.pendingTasks.entries.map fun entry => (entry.1, entry.2.latestTask)

/-- Writers that differ in nothing but their timers. -/
structure OnlyTimers (w w' : Writer T) : Prop where
  queue : w'.queue = w.queue
  paused : w'.paused = w.paused
  pausedNotebooks : w'.pausedNotebooks = w.pausedNotebooks
  inFlight : w'.inFlight = w.inFlight
  executions : w'.executions = w.executions
  flushes : w'.flushes = w.flushes
  nextFlush : w'.nextFlush = w.nextFlush

theorem OnlyTimers.refl (w : Writer T) : OnlyTimers w w :=
  ⟨rfl, rfl, rfl, rfl, rfl, rfl, rfl⟩

theorem OnlyTimers.trans {w'' : Writer T} (h : OnlyTimers w w') (h' : OnlyTimers w' w'') :
    OnlyTimers w w'' :=
  ⟨h'.queue.trans h.queue, h'.paused.trans h.paused, h'.pausedNotebooks.trans h.pausedNotebooks,
    h'.inFlight.trans h.inFlight, h'.executions.trans h.executions, h'.flushes.trans h.flushes,
    h'.nextFlush.trans h.nextFlush⟩

theorem keys_eq_map_queue (w : Writer T) : w.pendingTasks.keys = w.queue.map Prod.fst := by
  simp [InsertionMap.keys, queue]

theorem OnlyTimers.keys (h : OnlyTimers w w') : w'.pendingTasks.keys = w.pendingTasks.keys := by
  rw [keys_eq_map_queue, keys_eq_map_queue, h.queue]

theorem OnlyTimers.held (h : OnlyTimers w w') (key : StorageWriteKey) : w'.held key = w.held key := by
  rw [Writer.held, Writer.held, h.pausedNotebooks]

variable {task : AsyncStorageWriteTask T}

theorem queue_set {key : StorageWriteKey} {task' : AsyncStorageWriteTask T}
    (h : w.pendingTasks.get? key = some task) (hlatest : task'.latestTask = task.latestTask) :
    (w.pendingTasks.set key task').entries.map (fun entry => (entry.1, entry.2.latestTask)) =
      w.queue := by
  obtain ⟨front, back, heq⟩ := InsertionMap.exists_split h
  rw [InsertionMap.set_of_split heq, queue, heq]
  simp [hlatest]

/-! ## Live timers -/

/-- The timer of a pending task is the timer of its key, and was made before. -/
structure TimersAgree (w : Writer T) : Prop where
  key : ∀ key task t, w.pendingTasks.get? key = some task → w.timers.get? task.timer = some t →
    t.key = key
  fresh : ∀ key task, w.pendingTasks.get? key = some task → task.timer < w.nextTimer

/-- The task of a key, if it is pending, has a live timer. -/
def Armed (w : Writer T) (key : StorageWriteKey) : Prop :=
  ∀ task, w.pendingTasks.get? key = some task → ∃ t, w.timers.get? task.timer = some t

theorem onlyTimers_clearTimeout (timer : ℕ) : OnlyTimers w (w.clearTimeout timer) :=
  ⟨rfl, rfl, rfl, rfl, rfl, rfl, rfl⟩

theorem timersAgree_clearTimeout (h : TimersAgree w) (timer : ℕ) :
    TimersAgree (w.clearTimeout timer) := by
  refine ⟨?_, h.fresh⟩
  intro key task t htask ht
  have hlive : (w.timers.delete timer).get? task.timer = some t := ht
  rw [get?_delete] at hlive
  split_ifs at hlive
  exact h.key key task t htask hlive

theorem armed_clear (h : TimersAgree w) {timer : ℕ} {other : StorageWriteKey}
    (hne : ∀ t, w.timers.get? timer = some t → t.key ≠ other) (harmed : Armed w other) :
    Armed (w.clearTimeout timer) other := by
  intro task htask
  obtain ⟨t, ht⟩ := harmed task htask
  refine ⟨t, ?_⟩
  change (w.timers.delete timer).get? task.timer = some t
  rw [get?_delete, if_neg]
  · exact ht
  · intro heq
    rw [heq] at ht
    exact hne t ht (h.key other task t htask (heq ▸ ht))

theorem armed_clearTimeout (h : TimersAgree w) {key other : StorageWriteKey}
    (htask : w.pendingTasks.get? key = some task) (hne : other ≠ key) (harmed : Armed w other) :
    Armed (w.clearTimeout task.timer) other := by
  refine armed_clear h ?_ harmed
  intro t ht
  rw [h.key key task t htask ht]
  exact hne.symm

theorem foldl_clear {p : StorageWriteKey → Bool}
    {f : Writer T → StorageWriteKey × AsyncStorageWriteTask T → Writer T}
    (hf : ∀ w entry, f w entry = if p entry.1 then w.clearTimeout entry.2.timer else w)
    (entries : List (StorageWriteKey × AsyncStorageWriteTask T)) (w : Writer T)
    (h : TimersAgree w) (hentries : ∀ entry ∈ entries, entry ∈ w.pendingTasks.entries) :
    OnlyTimers w (entries.foldl f w) ∧ TimersAgree (entries.foldl f w) ∧
      ∀ key, p key = false → Armed w key → Armed (entries.foldl f w) key := by
  induction entries generalizing w with
  | nil => exact ⟨.refl w, h, fun _ _ harmed => harmed⟩
  | cons entry entries ih =>
    have hentry := get?_eq_some_iff.mpr (hentries entry (by simp))
    have hrest : ∀ entry' ∈ entries, entry' ∈ w.pendingTasks.entries :=
      fun entry' hmem => hentries entry' (mem_cons_of_mem _ hmem)
    rw [foldl_cons, hf]
    split_ifs with hp
    · obtain ⟨hsame, hagree, harmed⟩ :=
        ih (w.clearTimeout entry.2.timer) (timersAgree_clearTimeout h _) hrest
      refine ⟨(onlyTimers_clearTimeout _).trans hsame, hagree, ?_⟩
      intro key hkey hlive
      refine harmed key hkey (armed_clearTimeout h hentry ?_ hlive)
      rintro rfl
      simp [hp] at hkey
    · exact ih w h hrest

theorem rearm_spec (h : TimersAgree w) {entry : StorageWriteKey × AsyncStorageWriteTask T}
    (hentry : w.pendingTasks.get? entry.1 = some entry.2) :
    OnlyTimers w (w.rearm entry) ∧ TimersAgree (w.rearm entry) ∧
      (∀ other, other ≠ entry.1 →
        (w.rearm entry).pendingTasks.get? other = w.pendingTasks.get? other) ∧
      Armed (w.rearm entry) entry.1 ∧ ∀ key, Armed w key → Armed (w.rearm entry) key := by
  have hself : (w.rearm entry).pendingTasks.get? entry.1 =
      some { entry.2 with timer := w.nextTimer } := get?_set_self
  have hother : ∀ other, other ≠ entry.1 →
      (w.rearm entry).pendingTasks.get? other = w.pendingTasks.get? other :=
    fun other hne => get?_set_of_ne hne
  have hnew : (w.rearm entry).timers.get? w.nextTimer =
      some ⟨entry.1, entry.2.debounceDurationMs⟩ := get?_set_self
  have hold : ∀ timer, timer < w.nextTimer →
      (w.rearm entry).timers.get? timer = w.timers.get? timer :=
    fun timer hlt => get?_set_of_ne (Nat.ne_of_lt hlt)
  have harmed : Armed (w.rearm entry) entry.1 := by
    intro task htask
    rw [hself] at htask
    obtain rfl := some.inj htask
    exact ⟨_, hnew⟩
  refine ⟨⟨queue_set hentry rfl, rfl, rfl, rfl, rfl, rfl, rfl⟩, ⟨?_, ?_⟩, hother, harmed, ?_⟩
  · intro key task t htask ht
    by_cases hkey : key = entry.1
    · subst hkey
      rw [hself] at htask
      obtain rfl := some.inj htask
      rw [hnew] at ht
      rw [← some.inj ht]
    · rw [hother key hkey] at htask
      rw [hold _ (h.fresh key task htask)] at ht
      exact h.key key task t htask ht
  · intro key task htask
    change task.timer < w.nextTimer + 1
    by_cases hkey : key = entry.1
    · subst hkey
      rw [hself] at htask
      rw [← some.inj htask]
      exact Nat.lt_succ_self _
    · rw [hother key hkey] at htask
      exact Nat.lt_succ_of_lt (h.fresh key task htask)
  · intro key hlive
    by_cases hkey : key = entry.1
    · exact hkey ▸ harmed
    · intro task htask
      rw [hother key hkey] at htask
      rw [hold _ (h.fresh key task htask)]
      exact hlive task htask

theorem foldl_rearm {p : StorageWriteKey → Bool} {notebooks : List Text}
    {f : Writer T → StorageWriteKey × AsyncStorageWriteTask T → Writer T}
    (hf : ∀ w entry, w.pausedNotebooks = notebooks →
      f w entry = if p entry.1 then w.rearm entry else w)
    (entries : List (StorageWriteKey × AsyncStorageWriteTask T)) (w : Writer T)
    (h : TimersAgree w) (hnotebooks : w.pausedNotebooks = notebooks)
    (hentries : ∀ entry ∈ entries, w.pendingTasks.get? entry.1 = some entry.2)
    (hnodup : (entries.map Prod.fst).Nodup) :
    OnlyTimers w (entries.foldl f w) ∧ TimersAgree (entries.foldl f w) ∧
      (∀ key ∈ entries.map Prod.fst, p key = true → Armed (entries.foldl f w) key) ∧
      ∀ key, Armed w key → Armed (entries.foldl f w) key := by
  induction entries generalizing w with
  | nil => exact ⟨.refl w, h, by simp, fun _ harmed => harmed⟩
  | cons entry entries ih =>
    obtain ⟨hfresh, hnodup⟩ := nodup_cons.mp hnodup
    have hrest : ∀ entry' ∈ entries, w.pendingTasks.get? entry'.1 = some entry'.2 :=
      fun entry' hmem => hentries entry' (mem_cons_of_mem _ hmem)
    rw [foldl_cons, hf w entry hnotebooks]
    split_ifs with hp
    · obtain ⟨hsame, hagree, hother, hself, hkept⟩ := rearm_spec h (hentries entry (by simp))
      have hrest' : ∀ entry' ∈ entries,
          (w.rearm entry).pendingTasks.get? entry'.1 = some entry'.2 := by
        intro entry' hmem
        rw [hother, hrest entry' hmem]
        intro heq
        exact hfresh (heq ▸ mem_map_of_mem hmem)
      obtain ⟨hsame', hagree', hloop, hkept'⟩ :=
        ih (w.rearm entry) hagree (hsame.pausedNotebooks.trans hnotebooks) hrest' hnodup
      refine ⟨hsame.trans hsame', hagree', ?_, fun key harmed => hkept' key (hkept key harmed)⟩
      intro key hmem hkey
      rcases mem_cons.mp hmem with rfl | hmem
      · exact hkept' entry.1 hself
      · exact hloop key hmem hkey
    · obtain ⟨hsame, hagree, hloop, hkept⟩ := ih w h hnotebooks hrest hnodup
      refine ⟨hsame, hagree, ?_, hkept⟩
      intro key hmem hkey
      rcases mem_cons.mp hmem with rfl | hmem
      · exact absurd hkey hp
      · exact hloop key hmem hkey

/-! ## What the calls do to the tasks -/

theorem pause_spec (h : TimersAgree w) :
    OnlyTimers { w with paused := true } w.pause ∧ TimersAgree w.pause := by
  have hclear := @foldl_clear T (fun _ => true) (fun w entry => w.clearTimeout entry.2.timer)
    (fun _ _ => rfl) w.pendingTasks.entries { w with paused := true } ⟨h.key, h.fresh⟩
    (fun _ hmem => hmem)
  exact ⟨hclear.1, hclear.2.1⟩

theorem pauseNotebook_spec (h : TimersAgree w) (notebookId : Text) :
    OnlyTimers { w with pausedNotebooks := w.pausedNotebooks.insert notebookId }
      (w.pauseNotebook notebookId) ∧ TimersAgree (w.pauseNotebook notebookId) ∧
      ∀ key, storageWriteKeyBelongsToNotebook key notebookId = false → Armed w key →
        Armed (w.pauseNotebook notebookId) key :=
  @foldl_clear T (fun key => storageWriteKeyBelongsToNotebook key notebookId)
    (fun w entry =>
      if storageWriteKeyBelongsToNotebook entry.1 notebookId then w.clearTimeout entry.2.timer
      else w)
    (fun _ _ => rfl) w.pendingTasks.entries
    { w with pausedNotebooks := w.pausedNotebooks.insert notebookId } ⟨h.key, h.fresh⟩
    (fun _ hmem => hmem)

/-- Every task that no notebook holds is armed by `resume`, if it had paused. -/
theorem resume_spec (h : TimersAgree w) (hpaused : w.paused = true) :
    OnlyTimers { w with paused := false } w.resume ∧ TimersAgree w.resume ∧
      ∀ key, w.held key = false → Armed w.resume key := by
  have hloop := @foldl_rearm T (fun key => !w.held key) w.pausedNotebooks
    (fun w entry => if w.held entry.1 then w else w.rearm entry)
    (by
      intro w' entry hnotebooks
      have hheld : w'.held entry.1 = w.held entry.1 := by rw [held, held, hnotebooks]
      cases hcase : w.held entry.1 <;> simp [hheld, hcase])
    w.pendingTasks.entries { w with paused := false } ⟨h.key, h.fresh⟩ rfl
    (fun _ hmem => get?_eq_some_iff.mpr hmem) w.pendingTasks.nodup
  have hresume : w.resume = w.pendingTasks.entries.foldl
      (fun w entry => if w.held entry.1 then w else w.rearm entry) { w with paused := false } := by
    simp [resume, hpaused]
  rw [hresume]
  obtain ⟨hsame, hagree, harmed, -⟩ := hloop
  refine ⟨hsame, hagree, ?_⟩
  intro key hheld
  by_cases hmem : key ∈ w.pendingTasks.keys
  · exact harmed key hmem (by simp [hheld])
  · intro task htask
    have hkey := mem_keys_iff.mpr ⟨task, htask⟩
    rw [hsame.keys] at hkey
    exact absurd hkey hmem

/-- Every task of the notebook is armed by `resumeNotebook`, if it was paused
and the writer is not. -/
theorem resumeNotebook_spec (h : TimersAgree w) (notebookId : Text) :
    OnlyTimers { w with pausedNotebooks := w.pausedNotebooks.filter (· ≠ notebookId) }
      (w.resumeNotebook notebookId) ∧ TimersAgree (w.resumeNotebook notebookId) ∧
      (∀ key, Armed w key → Armed (w.resumeNotebook notebookId) key) ∧
      (notebookId ∈ w.pausedNotebooks → w.paused = false →
        ∀ key, storageWriteKeyBelongsToNotebook key notebookId = true →
          Armed (w.resumeNotebook notebookId) key) := by
  have hloop := @foldl_rearm T (fun key => storageWriteKeyBelongsToNotebook key notebookId)
    (w.pausedNotebooks.filter (· ≠ notebookId))
    (fun w entry =>
      if storageWriteKeyBelongsToNotebook entry.1 notebookId then w.rearm entry else w)
    (fun _ _ _ => rfl) w.pendingTasks.entries
    { w with pausedNotebooks := w.pausedNotebooks.filter (· ≠ notebookId) } ⟨h.key, h.fresh⟩ rfl
    (fun _ hmem => get?_eq_some_iff.mpr hmem) w.pendingTasks.nodup
  unfold resumeNotebook
  dsimp only
  split_ifs with hskip
  · refine ⟨⟨rfl, rfl, rfl, rfl, rfl, rfl, rfl⟩, ⟨h.key, h.fresh⟩, fun _ harmed => harmed, ?_⟩
    intro hmem hpaused
    rcases hskip with hnot | hp
    · exact absurd hmem hnot
    · simp [hpaused] at hp
  · obtain ⟨hsame, hagree, harmed, hkept⟩ := hloop
    refine ⟨hsame, hagree, hkept, ?_⟩
    intro _ _ key hkey
    by_cases hmem : key ∈ w.pendingTasks.keys
    · exact harmed key hmem hkey
    · intro task htask
      have hpending := mem_keys_iff.mpr ⟨task, htask⟩
      rw [hsame.keys] at hpending
      exact absurd hpending hmem

theorem processTask_cases (key : StorageWriteKey) (force : Bool) (w : Writer T) :
    (w.processTask key force = (w, none) ∧
      (w.pendingTasks.get? key = none ∨ force = false ∧ (w.paused = true ∨ w.held key = true))) ∨
    ∃ task, w.pendingTasks.get? key = some task ∧
      (force = true ∨ w.paused = false ∧ w.held key = false) ∧
      w.processTask key force =
        ({ w with
            pendingTasks := w.pendingTasks.delete key
            executions := w.executions ++ [task.latestTask]
            inFlight := w.inFlight ++ [w.executions.length] },
          some w.executions.length) := by
  unfold processTask
  cases htask : w.pendingTasks.get? key with
  | none => exact .inl ⟨rfl, .inl rfl⟩
  | some task =>
    dsimp only
    split_ifs with hcond
    · left
      refine ⟨rfl, .inr ?_⟩
      simpa using hcond
    · right
      refine ⟨task, rfl, ?_, rfl⟩
      cases force <;> simp_all

theorem processTask_of_none {key : StorageWriteKey} (h : w.pendingTasks.get? key = none)
    (force : Bool) : w.processTask key force = (w, none) := by
  simp [processTask, h]

theorem processTask_forced {key : StorageWriteKey} (h : w.pendingTasks.get? key = some task) :
    w.processTask key true =
      ({ w with
          pendingTasks := w.pendingTasks.delete key
          executions := w.executions ++ [task.latestTask]
          inFlight := w.inFlight ++ [w.executions.length] },
        some w.executions.length) := by
  simp [processTask, h]

/-- Removing a task keeps the others as they are. -/
theorem timersAgree_delete (h : TimersAgree w) {key : StorageWriteKey}
    (hpending : w'.pendingTasks = w.pendingTasks.delete key) (htimers : w'.timers = w.timers)
    (hnext : w'.nextTimer = w.nextTimer) : TimersAgree w' := by
  have hsub : ∀ other task, w'.pendingTasks.get? other = some task →
      w.pendingTasks.get? other = some task := by
    intro other task htask
    rw [hpending, get?_delete] at htask
    split_ifs at htask
    exact htask
  refine ⟨?_, ?_⟩
  · intro other task t htask ht
    rw [htimers] at ht
    exact h.key other task t (hsub other task htask) ht
  · intro other task htask
    rw [hnext]
    exact h.fresh other task (hsub other task htask)

theorem armed_delete {key : StorageWriteKey} (hpending : w'.pendingTasks = w.pendingTasks.delete key)
    (htimers : w'.timers = w.timers) {other : StorageWriteKey}
    (harmed : other ≠ key → Armed w other) : Armed w' other := by
  intro task htask
  rw [hpending, get?_delete] at htask
  split_ifs at htask with hkey
  rw [htimers]
  exact harmed hkey task htask

section

variable (h : TimersAgree w)

include h

theorem write_spec (key : StorageWriteKey) (task : T) (debounceFor : ℕ) :
    TimersAgree (w.write key task debounceFor) ∧
      ∀ other, Armed w other → Armed (w.write key task debounceFor) other := by
  unfold write
  cases hprev : w.pendingTasks.get? key with
  | some prev =>
    have hget : ∀ other task', (w.pendingTasks.set key { prev with latestTask := task }).get? other =
        some task' → ∃ old, w.pendingTasks.get? other = some old ∧ old.timer = task'.timer := by
      intro other task' htask'
      rw [get?_set] at htask'
      split_ifs at htask' with hkey
      · exact ⟨prev, hkey ▸ hprev, by rw [← some.inj htask']⟩
      · exact ⟨task', htask', rfl⟩
    refine ⟨⟨?_, ?_⟩, ?_⟩
    · intro other task' t htask' ht
      obtain ⟨old, hold, htimer⟩ := hget other task' htask'
      exact h.key other old t hold (htimer ▸ ht)
    · intro other task' htask'
      obtain ⟨old, hold, htimer⟩ := hget other task' htask'
      exact htimer ▸ h.fresh other old hold
    · intro other harmed task' htask'
      obtain ⟨old, hold, htimer⟩ := hget other task' htask'
      exact htimer ▸ harmed old hold
  | none =>
    -- a new task is one that is armed right away
    dsimp only
    have hget : ∀ other, other ≠ key →
        (w.pendingTasks.set key ⟨task, debounceFor, w.nextTimer⟩).get? other =
          w.pendingTasks.get? other := fun other hne => get?_set_of_ne hne
    have hself : (w.pendingTasks.set key ⟨task, debounceFor, w.nextTimer⟩).get? key =
        some ⟨task, debounceFor, w.nextTimer⟩ := get?_set_self
    have hnew : (w.timers.set w.nextTimer ⟨key, debounceFor⟩).get? w.nextTimer =
        some ⟨key, debounceFor⟩ := get?_set_self
    have hold : ∀ timer, timer < w.nextTimer →
        (w.timers.set w.nextTimer ⟨key, debounceFor⟩).get? timer = w.timers.get? timer :=
      fun timer hlt => get?_set_of_ne (Nat.ne_of_lt hlt)
    have harmed_self : ∀ task', (w.pendingTasks.set key ⟨task, debounceFor, w.nextTimer⟩).get? key =
        some task' → ∃ t, (w.timers.set w.nextTimer ⟨key, debounceFor⟩).get? task'.timer =
          some t := by
      intro task' htask'
      rw [hself] at htask'
      obtain rfl := some.inj htask'
      exact ⟨_, hnew⟩
    refine ⟨⟨?_, ?_⟩, ?_⟩
    · intro other task' t htask' ht
      by_cases hkey : other = key
      · subst hkey
        have heq := hself.symm.trans htask'
        obtain rfl := some.inj heq
        exact congrArg Timer.key (some.inj (ht.symm.trans hnew))
      · have htask' := (hget other hkey).symm.trans htask'
        exact h.key other task' t htask' ((hold _ (h.fresh other task' htask')).symm.trans ht)
    · intro other task' htask'
      change task'.timer < w.nextTimer + 1
      by_cases hkey : other = key
      · subst hkey
        have heq := hself.symm.trans htask'
        rw [← some.inj heq]
        exact Nat.lt_succ_self _
      · exact Nat.lt_succ_of_lt (h.fresh other task' ((hget other hkey).symm.trans htask'))
    · intro other harmed
      by_cases hkey : other = key
      · exact hkey ▸ harmed_self
      · intro task' htask'
        have htask' := (hget other hkey).symm.trans htask'
        obtain ⟨t, ht⟩ := harmed task' htask'
        exact ⟨t, (hold _ (h.fresh other task' htask')).trans ht⟩

/-! ## Timers over a step -/

theorem timersAgree_processTask (key : StorageWriteKey) (force : Bool) :
    TimersAgree (w.processTask key force).1 := by
  rcases processTask_cases key force w with ⟨heq, -⟩ | ⟨task, -, -, heq⟩
  · rw [heq]
    exact h
  · rw [heq]
    exact timersAgree_delete h rfl rfl rfl

theorem timersAgree_settle (flush : ℕ) (wasPaused : Bool) :
    TimersAgree (settle flush wasPaused w) := by
  unfold settle
  split_ifs <;> exact ⟨h.key, h.fresh⟩

theorem timersAgree_advance (flush : ℕ) (wasPaused : Bool) (keys : List StorageWriteKey) :
    TimersAgree (advance flush wasPaused keys w) := by
  cases keys with
  | nil => exact @timersAgree_settle T { w with paused := wasPaused } ⟨h.key, h.fresh⟩ flush wasPaused
  | cons key keys =>
    have hprocess : ∀ cleared : Writer T, TimersAgree cleared →
        TimersAgree { (cleared.processTask key true).1 with
          flushes := (cleared.processTask key true).1.flushes.set flush
            ⟨wasPaused, .processing keys (cleared.processTask key true).2⟩ } := by
      intro cleared hcleared
      have hprocessed := timersAgree_processTask hcleared key true
      exact ⟨hprocessed.key, hprocessed.fresh⟩
    apply hprocess
    split
    · exact timersAgree_clearTimeout h _
    · exact h

theorem timersAgree_step {event : Event T} (stepped : w.step event = some w') : TimersAgree w' := by
  cases event with
  | write key task debounceFor =>
    obtain rfl := some.inj stepped
    exact (write_spec h key task debounceFor).1
  | expire timer =>
    obtain ⟨t, -, rfl⟩ := map_eq_some_iff.mp stepped
    exact timersAgree_processTask (timersAgree_clearTimeout h timer) t.key false
  | complete execution =>
    have stepped : w.complete execution = some w' := stepped
    unfold complete at stepped
    split_ifs at stepped
    obtain rfl := some.inj stepped
    exact ⟨h.key, h.fresh⟩
  | pause =>
    obtain rfl := some.inj stepped
    exact (pause_spec h).2
  | resume =>
    obtain rfl := some.inj stepped
    cases hpaused : w.paused with
    | false =>
      have hresume : w.resume = w := by simp [resume, hpaused]
      rw [hresume]
      exact h
    | true => exact (resume_spec h hpaused).2.1
  | pauseNotebook notebookId =>
    obtain rfl := some.inj stepped
    exact (pauseNotebook_spec h notebookId).2.1
  | resumeNotebook notebookId =>
    obtain rfl := some.inj stepped
    exact (resumeNotebook_spec h notebookId).2.1
  | flush =>
    obtain rfl := some.inj stepped
    exact @timersAgree_advance T { w with paused := false, nextFlush := w.nextFlush + 1 }
      ⟨h.key, h.fresh⟩ w.nextFlush w.paused w.pendingTasks.keys
  | continueFlush flush =>
    have stepped : w.continueFlush flush = some w' := stepped
    unfold continueFlush at stepped
    split at stepped
    · simp at stepped
    · split_ifs at stepped
      obtain rfl := some.inj stepped
      exact timersAgree_advance h _ _ _
    · split_ifs at stepped
      obtain rfl := some.inj stepped
      exact timersAgree_settle h _ _

end

theorem timersAgree_start : TimersAgree ({} : Writer T) :=
  ⟨fun _ _ _ htask => absurd htask (by simp), fun _ _ htask => absurd htask (by simp)⟩

end Writer

end DashQL.Storage
