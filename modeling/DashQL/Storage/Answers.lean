import DashQL.Library.Tickets
import DashQL.Storage.Answering
import DashQL.Storage.Coalescing
import DashQL.Storage.Pausing

/-!
# Answers of the storage writer

The promises of `write` are tickets: a ticket waits with its task in the queue, is
taken when the task is executed, and is dropped when a later call replaces the task
or its notebook discards it (`Books`).  A step of the writer that writes nothing
takes at most one of them, and a flush forgets a key only when its task is no longer
pending (`Writer.Moves`).  So every promise is accounted for, and a flush that has
returned leaves none of the earlier promises open (`accounted_of_reached`).
-/

namespace DashQL.Storage

open List
open InsertionMap (exists_split get?_delete get?_eq_none_iff get?_eq_some_iff get?_set_of_ne get?_set_self)

/-! ## Steps that write nothing -/

def FlushStage.keys : FlushStage → List StorageWriteKey
  | .processing keys _ => keys
  | .settling _ => []

namespace Writer

variable {T : Type} {w w' : Writer T}

/-- The keys that a flush that has not returned has not reached. -/
def remaining (w : Writer T) (flush : ℕ) : Option (List StorageWriteKey) :=
  (w.flushes.get? flush).map fun f => f.stage.keys

/-- A step that writes nothing: it starts a task or none, no flush passes over a pending task, and
none returns while a task is in flight. -/
structure Moves (w w' : Writer T) : Prop where
  tasks : (w'.queue = w.queue ∧ w'.executions = w.executions ∧ w'.inFlight = w.inFlight) ∨
    ∃ key, Starts w key w' ∧ w'.inFlight = w.inFlight ++ [w.executions.length]
  flushes : ∀ flush keys, w.remaining flush = some keys →
    (∃ keys', w'.remaining flush = some keys' ∧
      ∀ key ∈ keys, key ∈ keys' ∨ key ∉ w'.pendingTasks.keys) ∨
    (w'.remaining flush = none ∧ keys = [] ∧ w'.inFlight = [])
  nextFlush : w'.nextFlush = w.nextFlush

/-- The flushes stay where they are. -/
theorem Moves.of_flushes_eq
    (htasks : (w'.queue = w.queue ∧ w'.executions = w.executions ∧ w'.inFlight = w.inFlight) ∨
      ∃ key, Starts w key w' ∧ w'.inFlight = w.inFlight ++ [w.executions.length])
    (hflushes : w'.flushes = w.flushes) (hnext : w'.nextFlush = w.nextFlush) : Moves w w' := by
  refine ⟨htasks, fun flush keys hkeys => .inl ⟨keys, ?_, fun _ hkey => .inl hkey⟩, hnext⟩
  rw [remaining, hflushes]
  exact hkeys

theorem OnlyTimers.moves (h : OnlyTimers w w') : Moves w w' :=
  .of_flushes_eq (.inl ⟨h.queue, h.executions, h.inFlight⟩) h.flushes h.nextFlush

theorem moves_processTask (key : StorageWriteKey) (force : Bool) (w : Writer T) :
    Moves w (w.processTask key force).1 := by
  rcases processTask_cases key force w with ⟨heq, -⟩ | ⟨task, htask, -, heq⟩
  · rw [heq]
    exact .of_flushes_eq (.inl ⟨rfl, rfl, rfl⟩) rfl rfl
  · rw [heq]
    exact .of_flushes_eq (.inr ⟨key, starts_of_delete htask rfl rfl, rfl⟩) rfl rfl

/-- The loop of a flush behind its keys. -/
theorem moves_settle {flush : ℕ} (wasPaused : Bool) (hleft : w.remaining flush = some []) :
    Moves w (settle flush wasPaused w) := by
  have hspec := settle_spec flush wasPaused w
  refine ⟨.inl ?_, fun other keys hkeys => ?_, by rw [hspec.2.2]⟩
  · rw [hspec.2.2]
    exact ⟨rfl, rfl, rfl⟩
  · by_cases hother : other = flush
    · subst hother
      obtain rfl := Option.some.inj (hleft.symm.trans hkeys)
      unfold settle
      split_ifs with hidle
      · refine .inr ⟨?_, rfl, hidle⟩
        change Option.map _ ((w.flushes.delete other).get? other) = none
        rw [get?_delete, if_pos rfl]
        rfl
      · refine .inl ⟨[], ?_, fun _ hkey => (not_mem_nil hkey).elim⟩
        change Option.map _ ((w.flushes.set other _).get? other) = some []
        rw [get?_set_self]
        rfl
    · refine .inl ⟨keys, ?_, fun _ hkey => .inl hkey⟩
      rw [remaining, hspec.1 other hother]
      exact hkeys

/-- A flush goes on at the head of its loop. -/
theorem moves_advance {flush : ℕ} {keys : List StorageWriteKey} (wasPaused : Bool)
    (hleft : w.remaining flush = some keys) : Moves w (advance flush wasPaused keys w) := by
  cases keys with
  | nil =>
    have hsettle : Moves { w with paused := wasPaused } _ := moves_settle wasPaused hleft
    exact ⟨hsettle.tasks, hsettle.flushes, hsettle.nextFlush⟩
  | cons key keys =>
    -- What the loop does to the flushes, if the key is not pending behind it.
    have hflushes : ∀ {w' : Writer T} {awaited : Option ℕ},
        w'.flushes = w.flushes.set flush ⟨wasPaused, .processing keys awaited⟩ →
        key ∉ w'.pendingTasks.keys → ∀ other left, w.remaining other = some left →
        (∃ left', w'.remaining other = some left' ∧
          ∀ key' ∈ left, key' ∈ left' ∨ key' ∉ w'.pendingTasks.keys) ∨
        (w'.remaining other = none ∧ left = [] ∧ w'.inFlight = []) := by
      intro w' awaited hset hgone other left hleft'
      left
      rw [remaining, hset]
      by_cases hother : other = flush
      · subst hother
        obtain rfl := Option.some.inj (hleft.symm.trans hleft')
        refine ⟨keys, by rw [get?_set_self]; rfl, fun key' hkey' => ?_⟩
        rcases mem_cons.mp hkey' with rfl | hmem
        · exact .inr hgone
        · exact .inl hmem
      · rw [get?_set_of_ne hother]
        exact ⟨left, hleft', fun _ hkey' => .inl hkey'⟩
    unfold advance
    dsimp only
    cases htask : w.pendingTasks.get? key with
    | none =>
      dsimp only
      rw [processTask_of_none htask]
      exact ⟨.inl ⟨rfl, rfl, rfl⟩, hflushes rfl (get?_eq_none_iff.mp htask), rfl⟩
    | some task =>
      have htask' : (w.clearTimeout task.timer).pendingTasks.get? key = some task := htask
      dsimp only
      rw [processTask_forced htask']
      refine ⟨.inr ⟨key, starts_of_delete htask rfl rfl, rfl⟩, hflushes rfl ?_, rfl⟩
      intro hmem
      exact (InsertionMap.mem_keys_delete.mp hmem).1 rfl

/-- A step that writes nothing, calls no `flush` and takes no execution out of `inFlight`. -/
theorem moves_step (h : TimersAgree w) {event : Event T} (stepped : w.step event = some w')
    (hwrite : ∀ key task debounceFor, event ≠ .write key task debounceFor)
    (hcomplete : ∀ execution, event ≠ .complete execution) (hflush : event ≠ .flush) :
    Moves w w' := by
  cases event with
  | write key task debounceFor => exact (hwrite key task debounceFor rfl).elim
  | complete execution => exact (hcomplete execution rfl).elim
  | flush => exact (hflush rfl).elim
  | expire timer =>
    obtain ⟨t, -, rfl⟩ := Option.map_eq_some_iff.mp stepped
    have hmoves := moves_processTask t.key false (w.clearTimeout timer)
    exact ⟨hmoves.tasks, hmoves.flushes, hmoves.nextFlush⟩
  | pause =>
    obtain rfl := Option.some.inj stepped
    have hmoves := (pause_spec h).1.moves
    exact ⟨hmoves.tasks, hmoves.flushes, hmoves.nextFlush⟩
  | resume =>
    obtain rfl := Option.some.inj stepped
    cases hpaused : w.paused with
    | false =>
      have hresume : w.resume = w := by simp [resume, hpaused]
      rw [hresume]
      exact (OnlyTimers.refl w).moves
    | true =>
      have hmoves := (resume_spec h hpaused).1.moves
      exact ⟨hmoves.tasks, hmoves.flushes, hmoves.nextFlush⟩
  | pauseNotebook notebookId =>
    obtain rfl := Option.some.inj stepped
    have hmoves := (pauseNotebook_spec h notebookId).1.moves
    exact ⟨hmoves.tasks, hmoves.flushes, hmoves.nextFlush⟩
  | resumeNotebook notebookId =>
    obtain rfl := Option.some.inj stepped
    have hmoves := (resumeNotebook_spec h notebookId).1.moves
    exact ⟨hmoves.tasks, hmoves.flushes, hmoves.nextFlush⟩
  | continueFlush flush =>
    have stepped : w.continueFlush flush = some w' := stepped
    unfold continueFlush at stepped
    split at stepped
    · cases stepped
    · rename_i wasPaused keys awaited hget
      split_ifs at stepped
      obtain rfl := Option.some.inj stepped
      exact moves_advance wasPaused (by rw [remaining, hget]; rfl)
    · rename_i wasPaused awaited hget
      split_ifs at stepped
      obtain rfl := Option.some.inj stepped
      exact moves_settle wasPaused (by rw [remaining, hget]; rfl)

end Writer

/-! ## The books -/

namespace AnsweringWriter

variable {T : Type} {a a' : AnsweringWriter T} {dropped : List ℕ}

/-- The promises of the tasks that were executed, by execution. -/
def started (a : AnsweringWriter T) : List ℕ := a.writer.executions.map PromisedTask.promise

def waiting (a : AnsweringWriter T) : List ℕ :=
  (a.writer.queue.map Prod.snd).map PromisedTask.promise

def answers (a : AnsweringWriter T) : List (ℕ × Bool) :=
  a.ended.filterMap fun ending => (a.started[ending.1]?).map fun promise => (promise, ending.2)

def Executing (a : AnsweringWriter T) (promise : ℕ) : Prop :=
  ∃ execution, execution ∉ a.ended.map Prod.fst ∧ a.started[execution]? = some promise

/-- A flush that has not returned will execute the task of the promise or await it. -/
def Covers (a : AnsweringWriter T) (flush promise : ℕ) : Prop :=
  ∃ keys, a.writer.remaining flush = some keys ∧
    (a.Executing promise ∨
      ∃ key ∈ keys, ∃ task, (key, task) ∈ a.writer.queue ∧ task.promise = promise)

/-- Every promise was dropped, or is that of a task that was executed or is pending, and the
promises before a flush are resolved or covered by it. -/
structure Books (a : AnsweringWriter T) (dropped : List ℕ) : Prop where
  timers : a.writer.TimersAgree
  balanced : Balanced a.calls.length dropped a.started a.waiting
  ofCall : ∀ task, task ∈ a.writer.executions ∨ task ∈ a.writer.queue.map Prod.snd →
    a.calls[task.promise]? = some task.task
  resolutions : a.resolutions.Perm (dropped.map (fun promise => (promise, false)) ++ a.answers)
  ended_nodup : (a.ended.map Prod.fst).Nodup
  ended_lt : ∀ execution ∈ a.ended.map Prod.fst, execution < a.started.length
  inFlight : ∀ execution < a.started.length, execution ∉ a.ended.map Prod.fst →
    execution ∈ a.writer.inFlight
  nextFlush : a.writer.nextFlush = a.flushedCalls.length
  flushed : ∀ flush calls, a.flushedCalls[flush]? = some calls → calls ≤ a.calls.length ∧
    ∀ promise < calls, promise ∈ a.resolved ∨ a.Covers flush promise

theorem books_start : Books ({} : AnsweringWriter T) [] where
  timers := Writer.timersAgree_start
  balanced := Balanced.nil
  ofCall := fun task hmem => by rcases hmem with hmem | hmem <;> exact (not_mem_nil hmem).elim
  resolutions := List.Perm.refl _
  ended_nodup := nodup_nil
  ended_lt := fun _ hmem => (not_mem_nil hmem).elim
  inFlight := fun _ hlt => (Nat.not_lt_zero _ hlt).elim
  nextFlush := rfl
  flushed := fun flush calls hcalls => by cases hcalls

theorem Books.flushed_of (h : Books a dropped) (hcalls : a'.flushedCalls = a.flushedCalls)
    (hgrow : a.calls.length ≤ a'.calls.length)
    (hresolved : ∀ promise ∈ a.resolved, promise ∈ a'.resolved)
    (hexecuting : ∀ promise, a.Executing promise → promise ∈ a'.resolved ∨ a'.Executing promise)
    (hqueue : ∀ key task, (key, task) ∈ a.writer.queue →
      (task.promise ∈ a'.resolved ∨ a'.Executing task.promise) ∨ (key, task) ∈ a'.writer.queue)
    (hflushes : ∀ flush keys, a.writer.remaining flush = some keys →
      (∃ keys', a'.writer.remaining flush = some keys' ∧
        ∀ key ∈ keys, key ∈ keys' ∨ key ∉ a'.writer.pendingTasks.keys) ∨
      (keys = [] ∧ ∀ promise, ¬ a'.Executing promise)) :
    ∀ flush calls, a'.flushedCalls[flush]? = some calls → calls ≤ a'.calls.length ∧
      ∀ promise < calls, promise ∈ a'.resolved ∨ a'.Covers flush promise := by
  intro flush calls hflush
  rw [hcalls] at hflush
  obtain ⟨hle, hcovered⟩ := h.flushed flush calls hflush
  refine ⟨hle.trans hgrow, fun promise hlt => ?_⟩
  rcases hcovered promise hlt with hdone | ⟨keys, hkeys, hopen⟩
  · exact .inl (hresolved promise hdone)
  · rcases hflushes flush keys hkeys with ⟨keys', hkeys', hleft⟩ | ⟨rfl, hnone⟩
    · rcases hopen with hrunning | ⟨key, hkey, task, hmem, rfl⟩
      · rcases hexecuting promise hrunning with hdone | hrunning'
        · exact .inl hdone
        · exact .inr ⟨keys', hkeys', .inl hrunning'⟩
      · rcases hqueue key task hmem with (hdone | hrunning) | hmem'
        · exact .inl hdone
        · exact .inr ⟨keys', hkeys', .inl hrunning⟩
        · have hpending : key ∈ a'.writer.pendingTasks.keys := by
            rw [Writer.keys_eq_map_queue]
            exact mem_map_of_mem hmem'
          have hkey' := (hleft key hkey).resolve_right fun hgone => hgone hpending
          exact .inr ⟨keys', hkeys', .inr ⟨key, hkey', task, hmem', rfl⟩⟩
    · rcases hopen with hrunning | ⟨key, hkey, -⟩
      · exact .inl ((hexecuting promise hrunning).resolve_right (hnone promise))
      · exact (not_mem_nil hkey).elim

/-- Executions that are added leave the answers as they are. -/
theorem Books.answers_append (h : Books a dropped) (extra : List ℕ) :
    (a.ended.filterMap fun ending =>
      ((a.started ++ extra)[ending.1]?).map fun promise => (promise, ending.2)) = a.answers := by
  refine filterMap_congr fun ending hending => ?_
  rw [getElem?_append_left (h.ended_lt ending.1 (mem_map_of_mem hending))]

/-- What a step that writes nothing does to the tasks. -/
theorem moves_tasks {w w' : Writer (PromisedTask T)} (h : w.Moves w')
    {issued : ℕ} (hbalanced : Balanced issued dropped (w.executions.map PromisedTask.promise)
      ((w.queue.map Prod.snd).map PromisedTask.promise)) :
    ∃ extra, w'.executions = w.executions ++ extra ∧
      Balanced issued dropped (w'.executions.map PromisedTask.promise)
        ((w'.queue.map Prod.snd).map PromisedTask.promise) ∧
      (∀ task, task ∈ extra ∨ task ∈ w'.queue.map Prod.snd → task ∈ w.queue.map Prod.snd) ∧
      (∀ entry ∈ w.queue, entry ∈ w'.queue ∨ entry.2 ∈ extra) ∧
      ∀ execution < w'.executions.length,
        execution ∈ w.inFlight ∨ w.executions.length ≤ execution → execution ∈ w'.inFlight := by
  rcases h.tasks with ⟨hqueue, hexecutions, hflight⟩ |
    ⟨key, ⟨task, front, back, -, hsplit, hqueue, hexecutions⟩, hflight⟩
  · refine ⟨[], by rw [hexecutions, append_nil], ?_, ?_, ?_, ?_⟩
    · rw [hqueue, hexecutions]
      exact hbalanced
    · rw [hqueue]
      exact fun task hmem => hmem.resolve_left not_mem_nil
    · rw [hqueue]
      exact fun entry hmem => .inl hmem
    · rw [hexecutions, hflight]
      exact fun execution hlt hmem => hmem.resolve_right (Nat.not_le.mpr hlt)
  · refine ⟨[task.latestTask], hexecutions, ?_, ?_, ?_, ?_⟩
    · rw [hsplit, map_append, map_append, map_cons, map_cons] at hbalanced
      rw [hqueue, hexecutions, map_append, map_append, map_append]
      exact hbalanced.take
    · rw [hsplit, hqueue]
      intro other hmem
      simp only [map_append, map_cons, mem_append, mem_cons, not_mem_nil, or_false] at hmem ⊢
      tauto
    · rw [hsplit, hqueue]
      intro entry hmem
      simp only [mem_append, mem_cons, not_mem_nil, or_false] at hmem ⊢
      rcases hmem with hmem | rfl | hmem
      · exact .inl (.inl hmem)
      · exact .inr rfl
      · exact .inl (.inr hmem)
    · rw [hexecutions, hflight, length_append, length_singleton]
      intro execution hlt hmem
      rcases hmem with hmem | hle
      · exact mem_append_left _ hmem
      · rw [Nat.le_antisymm (Nat.lt_succ_iff.mp hlt) hle]
        exact mem_append_right _ (mem_singleton_self _)

/-- A step that writes nothing. -/
theorem Books.moves (h : Books a dropped) {w' : Writer (PromisedTask T)}
    (hmoves : a.writer.Moves w') (htimers : w'.TimersAgree) :
    Books { a with writer := w' } dropped := by
  obtain ⟨extra, hexecutions, hbalanced, hof, hqueue, hflight⟩ := moves_tasks hmoves h.balanced
  have hstarted : w'.executions.map PromisedTask.promise =
      a.started ++ extra.map PromisedTask.promise := by
    rw [hexecutions, map_append]
    rfl
  have hinFlight : ∀ execution < (w'.executions.map PromisedTask.promise).length,
      execution ∉ a.ended.map Prod.fst → execution ∈ w'.inFlight := by
    intro execution hlt hended
    rw [length_map] at hlt
    refine hflight execution hlt ?_
    rcases Nat.lt_or_ge execution a.writer.executions.length with hold | hnew
    · exact .inl (h.inFlight execution (by rw [started, length_map]; exact hold) hended)
    · exact .inr hnew
  have hexecuting : ∀ promise, a.Executing promise → Executing { a with writer := w' } promise := by
    intro promise hrunning
    obtain ⟨execution, hended, hget⟩ := hrunning
    refine ⟨execution, hended, ?_⟩
    change (w'.executions.map PromisedTask.promise)[execution]? = _
    rw [hstarted, getElem?_append_left (List.getElem?_eq_some_iff.mp hget).1]
    exact hget
  refine ⟨htimers, hbalanced, ?_, ?_, h.ended_nodup, ?_, hinFlight,
    hmoves.nextFlush.trans h.nextFlush, ?_⟩
  · intro task hmem
    change task ∈ w'.executions ∨ task ∈ w'.queue.map Prod.snd at hmem
    rw [hexecutions, mem_append, or_assoc] at hmem
    rcases hmem with hold | hnew
    · exact h.ofCall task (.inl hold)
    · exact h.ofCall task (.inr (hof task hnew))
  · have hanswers : answers { a with writer := w' } = a.answers := by
      unfold answers
      change (a.ended.filterMap fun ending =>
        ((w'.executions.map PromisedTask.promise)[ending.1]?).map fun promise =>
          (promise, ending.2)) = _
      rw [hstarted]
      exact h.answers_append _
    rw [hanswers]
    exact h.resolutions
  · intro execution hmem
    change execution < (w'.executions.map PromisedTask.promise).length
    rw [hstarted, length_append]
    exact Nat.lt_add_right _ (h.ended_lt execution hmem)
  · refine h.flushed_of rfl (le_refl _) (fun _ hmem => hmem)
      (fun promise hrunning => .inr (hexecuting promise hrunning)) ?_ ?_
    · intro key task hmem
      rcases hqueue (key, task) hmem with hstays | hstarts
      · exact .inr hstays
      · left
        right
        obtain ⟨place, hplace⟩ := mem_iff_getElem?.mp hstarts
        refine ⟨a.started.length + place, ?_, ?_⟩
        · intro hended
          exact Nat.not_lt.mpr (Nat.le_add_right _ _) (h.ended_lt _ hended)
        · change (w'.executions.map PromisedTask.promise)[a.started.length + place]? = _
          rw [hstarted, getElem?_append_right (Nat.le_add_right _ _), Nat.add_sub_cancel_left,
            getElem?_map, hplace]
          rfl
    · intro flush keys hkeys
      rcases hmoves.flushes flush keys hkeys with hleft | ⟨-, hnil, hidle⟩
      · exact .inl hleft
      · refine .inr ⟨hnil, fun promise hrunning => ?_⟩
        obtain ⟨execution, hended, hget⟩ := hrunning
        have hmem := hinFlight execution (List.getElem?_eq_some_iff.mp hget).1 hended
        rw [hidle] at hmem
        exact not_mem_nil hmem

/-- A promise that is resolved without its task. -/
theorem resolutions_drop {resolutions answers : List (ℕ × Bool)} (promise : ℕ)
    (h : resolutions.Perm (dropped.map (fun promise => (promise, false)) ++ answers)) :
    (resolutions ++ [(promise, false)]).Perm
      ((dropped ++ [promise]).map (fun promise => (promise, false)) ++ answers) := by
  refine (h.append_right _).trans ?_
  rw [map_append, append_assoc, append_assoc]
  exact List.Perm.append_left _ perm_append_comm

theorem resolved_append (resolutions : List (ℕ × Bool)) (answer : ℕ × Bool) {promise : ℕ} :
    promise ∈ (resolutions ++ [answer]).map Prod.fst ↔
      promise ∈ resolutions.map Prod.fst ∨ promise = answer.1 := by
  rw [map_append, mem_append, map_singleton, mem_singleton]

theorem Books.discard (h : Books a dropped)
    {entry : StorageWriteKey × AsyncStorageWriteTask (PromisedTask T)}
    (hentry : entry ∈ a.writer.pendingTasks.entries) :
    Books (a.discard entry) (dropped ++ [entry.2.latestTask.promise]) := by
  obtain ⟨key, task⟩ := entry
  obtain ⟨front, back, hsplit⟩ :=
    exists_split (get?_eq_some_iff.mpr hentry)
  have hqueue : a.writer.queue = front.map (fun entry => (entry.1, entry.2.latestTask)) ++
      (key, task.latestTask) :: back.map fun entry => (entry.1, entry.2.latestTask) :=
    Writer.queue_of_split hsplit
  have hqueue' : (a.discard (key, task)).writer.queue =
      front.map (fun entry => (entry.1, entry.2.latestTask)) ++
        back.map fun entry => (entry.1, entry.2.latestTask) := by
    change (a.writer.pendingTasks.delete key).entries.map _ = _
    rw [InsertionMap.delete_of_split hsplit, map_append]
  have hbalanced := h.balanced
  unfold waiting at hbalanced
  rw [hqueue, map_append, map_append, map_cons, map_cons] at hbalanced
  have hcleared := Writer.timersAgree_clearTimeout h.timers task.timer
  refine ⟨Writer.timersAgree_delete hcleared rfl rfl rfl, ?_, ?_, resolutions_drop _ h.resolutions,
    h.ended_nodup, h.ended_lt, h.inFlight, h.nextFlush, ?_⟩
  · unfold waiting
    rw [hqueue', map_append, map_append]
    exact hbalanced.drop
  · intro other hmem
    refine h.ofCall other (hmem.imp_right fun hpending => ?_)
    rw [hqueue'] at hpending
    rw [hqueue]
    simp only [map_append, map_cons, mem_append, mem_cons] at hpending ⊢
    exact hpending.imp_right .inr
  · refine h.flushed_of rfl (le_refl _) (fun promise hmem => ?_)
      (fun _ hrunning => .inr hrunning) ?_
      fun flush keys hkeys => .inl ⟨keys, hkeys, fun _ hkey => .inl hkey⟩
    · exact (resolved_append _ _).mpr (.inl hmem)
    · intro key' task' hmem
      rw [hqueue] at hmem
      rw [hqueue']
      rcases mem_append.mp hmem with hfront | hrest
      · exact .inr (mem_append_left _ hfront)
      · rcases mem_cons.mp hrest with heq | hback
        · obtain ⟨rfl, rfl⟩ := Prod.mk.inj heq
          exact .inl (.inl ((resolved_append _ _).mpr (.inr rfl)))
        · exact .inr (mem_append_right _ hback)

/-- The loop of `cancelPendingWritesForNotebook` over pending tasks. -/
theorem Books.foldl_discard
    {skips : StorageWriteKey × AsyncStorageWriteTask (PromisedTask T) → Bool}
    (entries : List (StorageWriteKey × AsyncStorageWriteTask (PromisedTask T)))
    (hnodup : (entries.map Prod.fst).Nodup) (h : Books a dropped)
    (hentries : ∀ entry ∈ entries, entry ∈ a.writer.pendingTasks.entries) :
    ∃ dropped', Books
      (entries.foldl (fun a entry => if skips entry then a else a.discard entry) a) dropped' := by
  induction entries generalizing a dropped with
  | nil => exact ⟨dropped, h⟩
  | cons entry entries ih =>
    obtain ⟨hfresh, hnodup'⟩ := nodup_cons.mp hnodup
    rw [foldl_cons]
    cases hskips : skips entry with
    | true => exact ih hnodup' h fun other hmem => hentries other (mem_cons_of_mem _ hmem)
    | false =>
      refine ih hnodup' (h.discard (hentries entry mem_cons_self)) fun other hmem => ?_
      have hne : other.1 ≠ entry.1 := fun heq => hfresh (heq ▸ mem_map_of_mem hmem)
      have hpending := hentries other (mem_cons_of_mem _ hmem)
      rw [← get?_eq_some_iff] at hpending
      have hkept : (a.writer.pendingTasks.delete entry.1).get? other.1 = some other.2 := by
        rw [get?_delete, if_neg hne]
        exact hpending
      exact get?_eq_some_iff.mp hkept

theorem getElem?_calls {calls : List T} {task task' : T} {promise : ℕ}
    (h : calls[promise]? = some task) : (calls ++ [task'])[promise]? = some task := by
  rw [getElem?_append_left (List.getElem?_eq_some_iff.mp h).1]
  exact h

theorem Books.write (h : Books a dropped) (key : StorageWriteKey) (task : T) (debounceFor : ℕ) :
    ∃ dropped', Books (a.write key task debounceFor) dropped' := by
  have htimers :=
    (Writer.write_spec h.timers key (⟨a.calls.length, task⟩ : PromisedTask T) debounceFor).1
  have hnew : (a.calls ++ [task])[a.calls.length]? = some task := by
    rw [getElem?_append_right (le_refl _), Nat.sub_self]
    rfl
  have hgrow : a.calls.length ≤ (a.calls ++ [task]).length := by
    rw [length_append]
    exact Nat.le_add_right _ _
  have hbalanced := h.balanced
  unfold waiting at hbalanced
  unfold AnsweringWriter.write
  unfold Writer.write at htimers ⊢
  cases hprev : a.writer.pendingTasks.get? key with
  | none =>
    rw [hprev] at htimers
    have hentries := @InsertionMap.set_of_not_mem _ _ _ a.writer.pendingTasks key
      ⟨⟨a.calls.length, task⟩, debounceFor, a.writer.nextTimer⟩
      (get?_eq_none_iff.mp hprev)
    refine ⟨dropped, htimers, ?_, ?_, h.resolutions, h.ended_nodup, h.ended_lt, h.inFlight,
      h.nextFlush, ?_⟩
    · unfold waiting Writer.queue
      dsimp only
      rw [hentries, length_append, map_append, map_append, map_append]
      exact hbalanced.issue
    · intro other hmem
      unfold Writer.queue at hmem
      dsimp only at hmem
      rw [hentries, map_append, map_append, mem_append, ← or_assoc] at hmem
      rcases hmem with hold | hlast
      · exact getElem?_calls (h.ofCall other hold)
      · rw [mem_singleton.mp hlast]
        exact hnew
    · refine h.flushed_of rfl hgrow (fun _ hmem => hmem) (fun _ hrunning => .inr hrunning) ?_ ?_
      · intro key' task' hmem
        refine .inr ?_
        unfold Writer.queue
        dsimp only
        rw [hentries, map_append]
        exact mem_append_left _ hmem
      · exact fun flush keys hkeys => .inl ⟨keys, hkeys, fun _ hkey => .inl hkey⟩
  | some prev =>
    rw [hprev] at htimers
    obtain ⟨front, back, hsplit⟩ := exists_split hprev
    have hentries := @InsertionMap.set_of_split _ _ front back _ a.writer.pendingTasks key
      { prev with latestTask := (⟨a.calls.length, task⟩ : PromisedTask T) } prev hsplit
    have hqueue := Writer.queue_of_split hsplit
    rw [hqueue, map_append, map_append, map_cons, map_cons] at hbalanced
    refine ⟨dropped ++ [prev.latestTask.promise], htimers, ?_, ?_,
      resolutions_drop _ h.resolutions, h.ended_nodup, h.ended_lt, h.inFlight, h.nextFlush, ?_⟩
    · unfold waiting Writer.queue
      dsimp only
      rw [hentries, length_append, map_append, map_append, map_append, map_cons, map_cons, map_cons]
      exact hbalanced.replace
    · intro other hmem
      unfold Writer.queue at hmem
      dsimp only at hmem
      rw [hentries, map_append, map_append, map_cons, map_cons, mem_append, mem_cons] at hmem
      have hold : other ∈ a.writer.executions ∨ other ∈ a.writer.queue.map Prod.snd →
          (a.calls ++ [task])[other.promise]? = some other.task :=
        fun hmem => getElem?_calls (h.ofCall other hmem)
      rw [hqueue, map_append, map_cons, mem_append, mem_cons] at hold
      rcases hmem with hmem | hmem | rfl | hmem
      · exact hold (.inl hmem)
      · exact hold (.inr (.inl hmem))
      · exact hnew
      · exact hold (.inr (.inr (.inr hmem)))
    · refine h.flushed_of rfl hgrow (fun promise hmem => (resolved_append _ _).mpr (.inl hmem))
        (fun _ hrunning => .inr hrunning) ?_ ?_
      · intro key' task' hmem
        rw [hqueue, mem_append, mem_cons] at hmem
        unfold Writer.queue
        dsimp only
        rw [hentries, map_append, map_cons, mem_append, mem_cons]
        rcases hmem with hfront | heq | hback
        · exact .inr (.inl hfront)
        · obtain ⟨rfl, rfl⟩ := Prod.mk.inj heq
          exact .inl (.inl ((resolved_append _ _).mpr (.inr rfl)))
        · exact .inr (.inr (.inr hback))
      · exact fun flush keys hkeys => .inl ⟨keys, hkeys, fun _ hkey => .inl hkey⟩

theorem Books.endTask (h : Books a dropped) {execution : ℕ} {ok : Bool}
    (stepped : a.endTask execution ok = some a') : Books a' dropped := by
  unfold AnsweringWriter.endTask at stepped
  cases hget : a.writer.executions[execution]? with
  | none =>
    rw [hget] at stepped
    cases stepped
  | some task =>
    rw [hget] at stepped
    dsimp only at stepped
    split_ifs at stepped with hended
    obtain rfl := Option.some.inj stepped
    have hstarted : a.started[execution]? = some task.promise := by
      unfold started
      rw [getElem?_map, hget]
      rfl
    have hended' : ∀ other, other ∈ (a.ended ++ [(execution, ok)]).map Prod.fst ↔
        other ∈ a.ended.map Prod.fst ∨ other = execution := fun other => resolved_append _ _
    refine ⟨h.timers, h.balanced, h.ofCall, ?_, ?_, ?_, ?_, h.nextFlush, ?_⟩
    · have hanswers : answers ({ a with ended := a.ended ++ [(execution, ok)] }.resolveLatestTask
          task ok) = a.answers ++ [(task.promise, ok)] := by
        change (a.ended ++ [(execution, ok)]).filterMap (fun ending =>
          (a.started[ending.1]?).map fun promise => (promise, ending.2)) = _
        rw [filterMap_append, filterMap_cons, hstarted]
        rfl
      rw [hanswers, ← append_assoc]
      exact h.resolutions.append_right _
    · change ((a.ended ++ [(execution, ok)]).map Prod.fst).Nodup
      rw [map_append, map_singleton]
      refine nodup_append.mpr ⟨h.ended_nodup, nodup_singleton _, ?_⟩
      rintro other hmem last hlast rfl
      have hlast : other = execution := mem_singleton.mp hlast
      exact hended (hlast ▸ hmem)
    · intro other hmem
      rcases (hended' other).mp hmem with hold | rfl
      · exact h.ended_lt other hold
      · exact (List.getElem?_eq_some_iff.mp hstarted).1
    · intro other hlt hmem
      exact h.inFlight other hlt fun hold => hmem ((hended' other).mpr (.inl hold))
    · refine h.flushed_of rfl (le_refl _)
        (fun promise hmem => (resolved_append _ _).mpr (.inl hmem)) ?_ (fun _ _ hmem => .inr hmem)
        fun flush keys hkeys => .inl ⟨keys, hkeys, fun _ hkey => .inl hkey⟩
      intro promise hrunning
      obtain ⟨other, hother, hpromise⟩ := hrunning
      by_cases heq : other = execution
      · rw [heq, hstarted] at hpromise
        exact .inl ((resolved_append _ _).mpr (.inr (Option.some.inj hpromise).symm))
      · exact .inr ⟨other, fun hmem => ((hended' other).mp hmem).elim hother heq, hpromise⟩

/-- An execution whose task has ended leaves `inFlight`. -/
theorem Books.complete (h : Books a dropped) {execution : ℕ}
    (hended : execution ∈ a.ended.map Prod.fst)
    (stepped : a.goOn (.complete execution) = some a') : Books a' dropped := by
  obtain ⟨w, hcomplete, rfl⟩ := Option.map_eq_some_iff.mp stepped
  have hcomplete' : a.writer.complete execution = some w := hcomplete
  unfold Writer.complete at hcomplete'
  split_ifs at hcomplete'
  obtain rfl := Option.some.inj hcomplete'
  refine ⟨⟨h.timers.key, h.timers.fresh⟩, h.balanced, h.ofCall, h.resolutions, h.ended_nodup,
    h.ended_lt, ?_, h.nextFlush, h.flushed⟩
  intro other hlt hother
  refine mem_filter.mpr ⟨h.inFlight other hlt hother, decide_eq_true ?_⟩
  rintro rfl
  exact hother hended

theorem Books.mem_resolved (h : Books a dropped) {promise : ℕ} :
    promise ∈ a.resolved ↔ promise ∈ dropped ∨
      ∃ execution ∈ a.ended.map Prod.fst, a.started[execution]? = some promise := by
  unfold resolved
  rw [(h.resolutions.map Prod.fst).mem_iff, map_append, mem_append, map_map, map_id'']
  · refine or_congr_right ?_
    unfold answers
    simp only [mem_map, mem_filterMap, Option.map_eq_some_iff]
    constructor
    · rintro ⟨-, ⟨ending, hending, promise', hget, rfl⟩, rfl⟩
      exact ⟨ending.1, ⟨ending, hending, rfl⟩, hget⟩
    · rintro ⟨-, ⟨ending, hending, rfl⟩, hget⟩
      exact ⟨(promise, ending.2), ⟨ending, hending, promise, hget, rfl⟩, rfl⟩
  · exact fun _ => rfl

theorem Books.open_cases (h : Books a dropped) {promise : ℕ} (hlt : promise < a.calls.length) :
    promise ∈ a.resolved ∨ a.Executing promise ∨ promise ∈ a.waiting := by
  rcases h.balanced.mem_iff.mpr hlt with (hdropped | hstarted) | hwaiting
  · exact .inl (h.mem_resolved.mpr (.inl hdropped))
  · obtain ⟨execution, hget⟩ := mem_iff_getElem?.mp hstarted
    by_cases hended : execution ∈ a.ended.map Prod.fst
    · exact .inl (h.mem_resolved.mpr (.inr ⟨execution, hended, hget⟩))
    · exact .inr (.inl ⟨execution, hended, hget⟩)
  · exact .inr (.inr hwaiting)

/-- A call of `flush`, which has all pending tasks before it. -/
theorem Books.flush (h : Books a dropped) : Books a.flush dropped := by
  have hrecorded : Books { a with
      writer := { a.writer with
        paused := false
        nextFlush := a.writer.nextFlush + 1
        flushes := a.writer.flushes.set a.writer.nextFlush
          ⟨a.writer.paused, .processing a.writer.pendingTasks.keys none⟩ }
      flushedCalls := a.flushedCalls ++ [a.calls.length] } dropped := by
    refine ⟨⟨h.timers.key, h.timers.fresh⟩, h.balanced, h.ofCall, h.resolutions, h.ended_nodup,
      h.ended_lt, h.inFlight, ?_, ?_⟩
    · dsimp only
      rw [h.nextFlush, length_append, length_singleton]
    · intro flush calls hcalls
      dsimp only at hcalls ⊢
      rcases Nat.lt_or_ge flush a.flushedCalls.length with hold | hnew
      · rw [getElem?_append_left hold] at hcalls
        obtain ⟨hle, hcovered⟩ := h.flushed flush calls hcalls
        refine ⟨hle, fun promise hlt => (hcovered promise hlt).imp_right fun hcovers => ?_⟩
        obtain ⟨keys, hkeys, hopen⟩ := hcovers
        refine ⟨keys, ?_, hopen⟩
        unfold Writer.remaining
        dsimp only
        rw [get?_set_of_ne (by rw [h.nextFlush]; exact Nat.ne_of_lt hold)]
        exact hkeys
      · rw [getElem?_append_right hnew] at hcalls
        obtain ⟨hzero, heq⟩ := List.getElem?_eq_some_iff.mp hcalls
        rw [length_singleton, Nat.lt_one_iff, Nat.sub_eq_zero_iff_le] at hzero
        obtain rfl := Nat.le_antisymm hzero hnew
        simp only [Nat.sub_self, getElem_singleton] at heq
        subst heq
        refine ⟨le_refl _, fun promise hlt => (h.open_cases hlt).imp_right fun hopen => ?_⟩
        refine ⟨a.writer.pendingTasks.keys, ?_, hopen.imp_right fun hwaiting => ?_⟩
        · unfold Writer.remaining
          dsimp only
          rw [← h.nextFlush, get?_set_self]
          rfl
        · obtain ⟨task, htask, rfl⟩ := mem_map.mp hwaiting
          obtain ⟨entry, hentry, rfl⟩ := mem_map.mp htask
          refine ⟨entry.1, ?_, entry.2, hentry, rfl⟩
          rw [Writer.keys_eq_map_queue]
          exact mem_map_of_mem hentry
  have hadvanced := hrecorded.moves
    (Writer.moves_advance a.writer.paused (by
      unfold Writer.remaining
      dsimp only
      rw [get?_set_self]
      rfl))
    (Writer.timersAgree_advance hrecorded.timers a.writer.nextFlush a.writer.paused
      a.writer.pendingTasks.keys)
  have hset := Writer.advance_set_flush a.writer.nextFlush a.writer.paused
    a.writer.pendingTasks.keys ⟨a.writer.paused, .processing a.writer.pendingTasks.keys none⟩
    { a.writer with paused := false, nextFlush := a.writer.nextFlush + 1 }
  dsimp only at hset hadvanced
  rw [hset] at hadvanced
  exact hadvanced

/-- A call or callback that resolves no promise. -/
theorem Books.goOn (h : Books a dropped) {event : Event (PromisedTask T)}
    (stepped : a.goOn event = some a')
    (hwrite : ∀ key task debounceFor, event ≠ .write key task debounceFor)
    (hcomplete : ∀ execution, event ≠ .complete execution) (hflush : event ≠ .flush) :
    Books a' dropped := by
  obtain ⟨w, hstep, rfl⟩ := Option.map_eq_some_iff.mp stepped
  exact h.moves (Writer.moves_step h.timers hstep hwrite hcomplete hflush)
    (Writer.timersAgree_step h.timers hstep)

theorem Books.settleLoop (h : Books a dropped) (settle : ℕ) :
    Books (a.settleLoop settle) dropped := by
  unfold AnsweringWriter.settleLoop
  split_ifs <;> exact ⟨h.timers, h.balanced, h.ofCall, h.resolutions, h.ended_nodup, h.ended_lt,
    h.inFlight, h.nextFlush, h.flushed⟩

theorem Books.step (h : Books a dropped) {call : WriterCall T} (stepped : a.step call = some a') :
    ∃ dropped', Books a' dropped' := by
  cases call with
  | write key task debounceFor =>
    obtain rfl := Option.some.inj stepped
    exact h.write key task debounceFor
  | cancelPendingWritesForNotebook notebookId includes =>
    obtain rfl := Option.some.inj stepped
    exact h.foldl_discard a.writer.pendingTasks.entries a.writer.pendingTasks.nodup
      fun _ hmem => hmem
  | flush =>
    obtain rfl := Option.some.inj stepped
    exact ⟨dropped, h.flush⟩
  | settle =>
    obtain rfl := Option.some.inj stepped
    have hnext : Books { a with nextSettle := a.nextSettle + 1 } dropped :=
      ⟨h.timers, h.balanced, h.ofCall, h.resolutions, h.ended_nodup, h.ended_lt, h.inFlight,
        h.nextFlush, h.flushed⟩
    exact ⟨dropped, hnext.settleLoop a.nextSettle⟩
  | continueSettle settle =>
    have stepped : a.continueSettle settle = some a' := stepped
    unfold continueSettle at stepped
    split at stepped
    · cases stepped
    · split_ifs at stepped
      obtain rfl := Option.some.inj stepped
      exact ⟨dropped, h.settleLoop settle⟩
  | endTask execution ok => exact ⟨dropped, h.endTask stepped⟩
  | complete execution =>
    unfold AnsweringWriter.step at stepped
    dsimp only at stepped
    split_ifs at stepped with hended
    exact ⟨dropped, h.complete hended stepped⟩
  | pause => exact ⟨dropped, h.goOn stepped (by simp) (by simp) (by simp)⟩
  | resume => exact ⟨dropped, h.goOn stepped (by simp) (by simp) (by simp)⟩
  | pauseNotebook notebookId => exact ⟨dropped, h.goOn stepped (by simp) (by simp) (by simp)⟩
  | resumeNotebook notebookId => exact ⟨dropped, h.goOn stepped (by simp) (by simp) (by simp)⟩
  | continueFlush flush => exact ⟨dropped, h.goOn stepped (by simp) (by simp) (by simp)⟩
  | expire timer => exact ⟨dropped, h.goOn stepped (by simp) (by simp) (by simp)⟩

theorem Reached.books (reached : Reached a) : ∃ dropped, Books a dropped := by
  induction reached with
  | start => exact ⟨[], books_start⟩
  | step call _ stepped ih =>
    obtain ⟨dropped, h⟩ := ih
    exact h.step stepped

/-! ## All promises are accounted for -/

theorem mem_started {promise execution : ℕ} : a.started[execution]? = some promise ↔
    ∃ task, a.writer.executions[execution]? = some ⟨promise, task⟩ := by
  unfold started
  rw [getElem?_map, Option.map_eq_some_iff]
  constructor
  · rintro ⟨task, hget, rfl⟩
    exact ⟨task.task, hget⟩
  · rintro ⟨task, hget⟩
    exact ⟨_, hget, rfl⟩

theorem mem_waiting {promise : ℕ} : promise ∈ a.waiting ↔ a.Pending promise := by
  unfold waiting Writer.queue Pending
  simp only [mem_map, get?_eq_some_iff]
  constructor
  · rintro ⟨-, ⟨-, ⟨entry, hentry, rfl⟩, rfl⟩, rfl⟩
    exact ⟨entry.1, entry.2, hentry, rfl⟩
  · rintro ⟨key, task, hentry, rfl⟩
    exact ⟨_, ⟨_, ⟨(key, task), hentry, rfl⟩, rfl⟩, rfl⟩

theorem Books.executing_iff (h : Books a dropped) {promise : ℕ} :
    a.Executing promise ↔ a.Running promise := by
  constructor
  · rintro ⟨execution, hended, hget⟩
    obtain ⟨task, htask⟩ := mem_started.mp hget
    exact ⟨execution, task, h.inFlight execution (List.getElem?_eq_some_iff.mp hget).1 hended,
      hended, htask⟩
  · rintro ⟨execution, task, -, hended, hget⟩
    exact ⟨execution, hended, mem_started.mpr ⟨task, hget⟩⟩

theorem Books.resolved_nodup (h : Books a dropped) : a.resolved.Nodup := by
  have hended : a.answers.map Prod.fst = (a.ended.map Prod.fst).filterMap (a.started[·]?) := by
    unfold answers
    rw [map_filterMap, filterMap_map]
    refine filterMap_congr fun ending _ => ?_
    dsimp only [Function.comp_apply]
    cases a.started[ending.1]? <;> rfl
  have hdistinct : (a.answers.map Prod.fst).Nodup := by
    rw [hended]
    refine h.ended_nodup.filterMap fun execution other promise hget hget' => ?_
    rw [Option.mem_def] at hget hget'
    exact (getElem?_inj (List.getElem?_eq_some_iff.mp hget).1 h.balanced.nodup_taken).mp
      (hget.trans hget'.symm)
  unfold resolved
  rw [(h.resolutions.map Prod.fst).nodup_iff, map_append, map_map, map_id'']
  · refine nodup_append.mpr ⟨?_, hdistinct, ?_⟩
    · exact (nodup_append.mp (nodup_append.mp h.balanced.nodup).1).1
    · rintro promise hdropped other hanswer rfl
      rw [hended] at hanswer
      obtain ⟨execution, -, hget⟩ := mem_filterMap.mp hanswer
      exact (h.balanced.not_mem_of_dropped hdropped).1 (List.mem_of_getElem? hget)
  · exact fun _ => rfl

theorem Books.answered (h : Books a dropped) (promise : ℕ) :
    (promise, true) ∈ a.resolutions ↔
      ∃ execution task, a.writer.executions[execution]? = some ⟨promise, task⟩ ∧
        (execution, true) ∈ a.ended := by
  rw [h.resolutions.mem_iff, mem_append]
  unfold answers
  constructor
  · rintro (hdropped | hanswer)
    · obtain ⟨other, -, heq⟩ := mem_map.mp hdropped
      cases heq
    · obtain ⟨ending, hending, hget⟩ := mem_filterMap.mp hanswer
      obtain ⟨other, hother, heq⟩ := Option.map_eq_some_iff.mp hget
      obtain ⟨rfl, hok⟩ := Prod.mk.inj heq
      obtain ⟨task, htask⟩ := mem_started.mp hother
      refine ⟨ending.1, task, htask, ?_⟩
      rw [← hok]
      exact hending
  · rintro ⟨execution, task, htask, hended⟩
    refine .inr (mem_filterMap.mpr ⟨(execution, true), hended, ?_⟩)
    rw [mem_started.mpr ⟨task, htask⟩]
    rfl

theorem Books.unresolved (h : Books a dropped) (promise : ℕ) :
    promise < a.calls.length ∧ promise ∉ a.resolved ↔ a.Pending promise ∨ a.Running promise := by
  rw [← h.executing_iff, ← mem_waiting]
  constructor
  · rintro ⟨hlt, hopen⟩
    exact ((h.open_cases hlt).resolve_left hopen).symm
  · intro hopen
    have htaken : promise ∈ a.waiting ∨ promise ∈ a.started :=
      hopen.imp_right fun hrunning => by
        obtain ⟨execution, -, hget⟩ := hrunning
        exact List.mem_of_getElem? hget
    have hlt : promise < a.calls.length := h.balanced.mem_iff.mp (by tauto)
    refine ⟨hlt, fun hresolved => ?_⟩
    rcases h.mem_resolved.mp hresolved with hdropped | ⟨ended, hended, hget⟩
    · have hnot := h.balanced.not_mem_of_dropped hdropped
      exact htaken.elim hnot.2 hnot.1
    · rcases hopen with hwaiting | ⟨execution, hrunning, hget'⟩
      · exact (h.balanced.not_mem_of_taken (List.mem_of_getElem? hget)).2 hwaiting
      · have heq := (getElem?_inj (List.getElem?_eq_some_iff.mp hget).1
          h.balanced.nodup_taken).mp (hget.trans hget'.symm)
        exact hrunning (heq ▸ hended)

/-- In every run all promises are accounted for. -/
theorem accounted_of_reached (reached : Reached a) : Accounted a := by
  obtain ⟨dropped, h⟩ := reached.books
  refine ⟨h.resolved_nodup, h.answered, fun task hmem => h.ofCall task (.inl hmem), h.unresolved,
    a.writer.pendingTasks.nodup_keys, h.balanced.nodup_taken, ?_⟩
  intro flush calls hcalls hreturned promise hlt
  refine ((h.flushed flush calls hcalls).2 promise hlt).resolve_right fun hcovers => ?_
  obtain ⟨keys, hkeys, -⟩ := hcovers
  rw [Writer.remaining, hreturned] at hkeys
  cases hkeys

/-- Two writes of one key, of which the second is executed by a flush and succeeds. -/
def flushingCalls : List (WriterCall ℕ) :=
  [.write ['a'] 10 500, .write ['a'] 11 500, .flush, .endTask 0 true, .complete 0, .continueFlush 0]

def flushedWrites : AnsweringWriter ℕ := (play flushingCalls {}).getD {}

theorem accounted_of_reached_flush :
    flushedWrites.resolutions = [(0, false), (1, true)] ∧ flushedWrites.flushedCalls = [2] ∧
      flushedWrites.writer.flushes.get? 0 = none ∧ Accounted flushedWrites := by
  have hplay : play flushingCalls {} = some flushedWrites := rfl
  exact ⟨rfl, rfl, rfl, accounted_of_reached (Reached.start.play hplay)⟩

end AnsweringWriter

end DashQL.Storage
