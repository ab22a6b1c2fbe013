import DashQL.Storage.Footprints
import DashQL.Storage.Timers

/-!
# Coalesced writes

Every step of the writer schedules a task, starts one, or leaves the tasks as
they are (`Writer.step_cases`).  A step is in order if a task that is started
touches no file of a task in front of it, and a task that replaces a pending one
supersedes it and touches no file of a task behind it.  In a run of such steps
the files are always those of the scheduled tasks, up to what is still pending.
-/

namespace DashQL.Storage

open List

namespace Writer

variable {T : Type} {w w' : Writer T}

def startedKey (w : Writer T) : Event T → Option StorageWriteKey
  | .expire timer =>
    (w.timers.get? timer).bind fun t => if w.paused || w.held t.key then none else some t.key
  | .flush => w.pendingTasks.keys.head?
  | .continueFlush flush =>
    match w.flushes.get? flush with
    | some ⟨_, .processing (key :: _) _⟩ => some key
    | _ => none
  | _ => none

/-- The pending tasks in front of that of a key. -/
def inFront (w : Writer T) (key : StorageWriteKey) : List (StorageWriteKey × T) :=
  w.queue.takeWhile fun entry => entry.1 ≠ key

/-- The pending tasks behind that of a key. -/
def behind (w : Writer T) (key : StorageWriteKey) : List (StorageWriteKey × T) :=
  (w.queue.dropWhile fun entry => entry.1 ≠ key).tail

theorem around_of_split {key : StorageWriteKey} {task : T}
    {front back : List (StorageWriteKey × T)} (h : w.queue = front ++ (key, task) :: back) :
    w.inFront key = front ∧ w.behind key = back := by
  have hnodup := w.pendingTasks.nodup
  rw [← InsertionMap.keys, keys_eq_map_queue, h, map_append, nodup_append] at hnodup
  have hfront : ∀ entry ∈ front, entry.1 ≠ key := by
    intro entry hentry heq
    exact hnodup.2.2 entry.1 (mem_map_of_mem hentry) key (by simp) heq
  have hall : ∀ entry ∈ front, decide (entry.1 ≠ key) = true := by
    intro entry hentry
    simpa using hfront entry hentry
  rw [inFront, behind, h, takeWhile_append_of_pos hall, dropWhile_append_of_pos hall]
  simp

/-- A step that takes the task of a key out of the queue and starts it. -/
def Starts (w : Writer T) (key : StorageWriteKey) (w' : Writer T) : Prop :=
  ∃ task front back, w.pendingTasks.get? key = some task ∧
    w.queue = front ++ (key, task.latestTask) :: back ∧ w'.queue = front ++ back ∧
    w'.executions = w.executions ++ [task.latestTask]

/-- A step that puts a task into the queue, in the place of an older one or at the
end. -/
def Schedules (w : Writer T) (key : StorageWriteKey) (task : T) (w' : Writer T) : Prop :=
  w'.executions = w.executions ∧
    (w'.queue = w.queue ++ [(key, task)] ∨
      ∃ old front back, w.pendingTasks.get? key = some old ∧
        w.queue = front ++ (key, old.latestTask) :: back ∧
        w'.queue = front ++ (key, task) :: back)

theorem queue_of_split {key : StorageWriteKey} {task : AsyncStorageWriteTask T}
    {front back : List (StorageWriteKey × AsyncStorageWriteTask T)}
    (h : w.pendingTasks.entries = front ++ (key, task) :: back) :
    w.queue = front.map (fun entry => (entry.1, entry.2.latestTask)) ++
      (key, task.latestTask) :: back.map fun entry => (entry.1, entry.2.latestTask) := by
  simp [queue, h]

theorem schedules_write (w : Writer T) (key : StorageWriteKey) (task : T) (debounceFor : ℕ) :
    Schedules w key task (w.write key task debounceFor) := by
  unfold write
  cases hprev : w.pendingTasks.get? key with
  | some prev =>
    obtain ⟨front, back, heq⟩ := InsertionMap.exists_split hprev
    refine ⟨rfl, .inr ⟨prev, _, _, hprev, queue_of_split heq, ?_⟩⟩
    simp only [queue]
    rw [InsertionMap.set_of_split heq]
    simp
  | none =>
    refine ⟨rfl, .inl ?_⟩
    have hentries := @InsertionMap.set_of_not_mem _ _ _ w.pendingTasks key
      ⟨task, debounceFor, w.nextTimer⟩ (InsertionMap.get?_eq_none_iff.mp hprev)
    simp only [queue, hentries, map_append, map_cons, map_nil]

theorem starts_of_delete {key : StorageWriteKey} {task : AsyncStorageWriteTask T}
    (htask : w.pendingTasks.get? key = some task)
    (hpending : w'.pendingTasks = w.pendingTasks.delete key)
    (hexecutions : w'.executions = w.executions ++ [task.latestTask]) : Starts w key w' := by
  obtain ⟨front, back, heq⟩ := InsertionMap.exists_split htask
  refine ⟨task, _, _, htask, queue_of_split heq, ?_, hexecutions⟩
  rw [queue, hpending, InsertionMap.delete_of_split heq, map_append]

theorem advance_cases (flush : ℕ) (wasPaused : Bool) (keys : List StorageWriteKey) (w : Writer T) :
    ((advance flush wasPaused keys w).queue = w.queue ∧
      (advance flush wasPaused keys w).executions = w.executions) ∨
    ∃ key, keys.head? = some key ∧ Starts w key (advance flush wasPaused keys w) := by
  cases keys with
  | nil =>
    left
    rw [advance, settle]
    split_ifs <;> exact ⟨rfl, rfl⟩
  | cons key keys =>
    unfold advance
    dsimp only
    cases htask : w.pendingTasks.get? key with
    | none =>
      left
      dsimp only
      rw [processTask_of_none htask]
      exact ⟨rfl, rfl⟩
    | some task =>
      right
      refine ⟨key, rfl, starts_of_delete htask ?_ ?_⟩
      · have htask' : (w.clearTimeout task.timer).pendingTasks.get? key = some task := htask
        rw [processTask_forced htask']
        rfl
      · have htask' : (w.clearTimeout task.timer).pendingTasks.get? key = some task := htask
        rw [processTask_forced htask']
        rfl

theorem step_cases (h : TimersAgree w) {event : Event T} (stepped : w.step event = some w') :
    (w'.queue = w.queue ∧ w'.executions = w.executions ∧
      ∀ key task debounceFor, event ≠ .write key task debounceFor) ∨
    (∃ key, w.startedKey event = some key ∧ Starts w key w') ∨
    ∃ key task debounceFor, event = .write key task debounceFor ∧ Schedules w key task w' := by
  cases event with
  | write key task debounceFor =>
    obtain rfl := Option.some.inj stepped
    exact .inr (.inr ⟨key, task, debounceFor, rfl, schedules_write w key task debounceFor⟩)
  | expire timer =>
    obtain ⟨t, ht, rfl⟩ := Option.map_eq_some_iff.mp stepped
    rcases processTask_cases t.key false (w.clearTimeout timer) with ⟨heq, -⟩ |
      ⟨task, htask, hfree, heq⟩
    · rw [heq]
      exact .inl ⟨rfl, rfl, by simp⟩
    · right
      left
      have hfree : w.paused = false ∧ w.held t.key = false := by
        simpa [clearTimeout, held] using hfree
      refine ⟨t.key, ?_, ?_⟩
      · simp [startedKey, ht, hfree]
      · rw [heq]
        exact starts_of_delete htask rfl rfl
  | complete execution =>
    have stepped : w.complete execution = some w' := stepped
    unfold complete at stepped
    split_ifs at stepped
    obtain rfl := Option.some.inj stepped
    exact .inl ⟨rfl, rfl, by simp⟩
  | pause =>
    obtain rfl := Option.some.inj stepped
    have honly := (pause_spec h).1
    exact .inl ⟨honly.queue, honly.executions, by simp⟩
  | resume =>
    obtain rfl := Option.some.inj stepped
    cases hpaused : w.paused with
    | false =>
      have hresume : w.resume = w := by simp [resume, hpaused]
      rw [hresume]
      exact .inl ⟨rfl, rfl, by simp⟩
    | true =>
      have honly := (resume_spec h hpaused).1
      exact .inl ⟨honly.queue, honly.executions, by simp⟩
  | pauseNotebook notebookId =>
    obtain rfl := Option.some.inj stepped
    have honly := (pauseNotebook_spec h notebookId).1
    exact .inl ⟨honly.queue, honly.executions, by simp⟩
  | resumeNotebook notebookId =>
    obtain rfl := Option.some.inj stepped
    have honly := (resumeNotebook_spec h notebookId).1
    exact .inl ⟨honly.queue, honly.executions, by simp⟩
  | flush =>
    obtain rfl := Option.some.inj stepped
    rcases advance_cases w.nextFlush w.paused w.pendingTasks.keys
      { w with paused := false, nextFlush := w.nextFlush + 1 } with ⟨hq, he⟩ | ⟨key, hkey, hstarts⟩
    · exact .inl ⟨hq, he, by simp⟩
    · exact .inr (.inl ⟨key, hkey, hstarts⟩)
  | continueFlush flush =>
    have stepped : w.continueFlush flush = some w' := stepped
    unfold continueFlush at stepped
    split at stepped
    · simp at stepped
    · rename_i wasPaused keys awaited hflush
      split_ifs at stepped
      obtain rfl := Option.some.inj stepped
      rcases advance_cases flush wasPaused keys w with ⟨hq, he⟩ | ⟨key, hkey, hstarts⟩
      · exact .inl ⟨hq, he, by simp⟩
      · refine .inr (.inl ⟨key, ?_, hstarts⟩)
        cases keys with
        | nil => simp at hkey
        | cons key' keys =>
          simp only [head?_cons, Option.some.injEq] at hkey
          simp [startedKey, hflush, hkey]
    · split_ifs at stepped
      obtain rfl := Option.some.inj stepped
      left
      rw [settle]
      split_ifs <;> exact ⟨rfl, rfl, by simp⟩

end Writer

/-! ## Runs in order -/

/-- A write replaces a pending task only by one that supersedes it and touches no
file of a task behind it, and a task is started only if it touches no file of a
task in front of it. -/
def inOrder (s : Session ScriptTask) : Event ScriptTask → Bool
  | .write key task _ =>
    match s.pendingTasks.get? key with
    | none => true
    | some old =>
      supersedes task old.latestTask && (s.behind key).all fun entry => !conflicts entry.2 task
  | event =>
    match s.startedKey event with
    | none => true
    | some key =>
      match s.pendingTasks.get? key with
      | none => true
      | some task => (s.inFront key).all fun entry => !conflicts entry.2 task.latestTask

/-- `inOrder`, as a condition on steps. -/
abbrev InOrder (s : Session ScriptTask) (event : Event ScriptTask) : Prop := inOrder s event = true

/-- The files after the scheduled tasks are those after the tasks that were
started and the tasks that are pending. -/
structure Coalesced (s : Session ScriptTask) : Prop where
  timers : s.toWriter.TimersAgree
  files : ∀ files, replay effect s.scheduled files =
    replay effect (s.queue.map Prod.snd) (replay effect s.executions files)

variable {s : Session ScriptTask}

theorem coalesced_schedules (h : Coalesced s) {key : StorageWriteKey} {task : ScriptTask}
    {debounceFor : ℕ} {w' : Writer ScriptTask} (hschedules : s.Schedules key task w')
    (met : InOrder s (.write key task debounceFor)) (files : Files) :
    replay effect (s.scheduled ++ [task]) files =
      replay effect (w'.queue.map Prod.snd) (replay effect w'.executions files) := by
  obtain ⟨hexecutions, hqueue | ⟨old, front, back, hold, hsplit, hqueue⟩⟩ := hschedules
  · rw [hexecutions, hqueue, map_append, replay_append, replay_append, h.files]
    rfl
  · have met : inOrder s (.write key task debounceFor) = true := met
    simp only [inOrder, hold, (Writer.around_of_split hsplit).2, Bool.and_eq_true,
      all_eq_true, Bool.not_eq_true'] at met
    have hback : ∀ t ∈ back.map Prod.snd, Function.Commute (effect t) (effect task) := by
      intro t ht
      obtain ⟨entry, hentry, rfl⟩ := mem_map.mp ht
      exact commute_of_not_conflicts (met.2 entry hentry)
    calc replay effect (s.scheduled ++ [task]) files
        = effect task (replay effect (s.queue.map Prod.snd) (replay effect s.executions files)) := by
          rw [replay_append, h.files]
          rfl
      _ = replay effect (w'.queue.map Prod.snd) (replay effect w'.executions files) := by
          rw [hexecutions, hqueue, hsplit, map_append, map_append, map_cons, map_cons]
          exact (replay_replace hback (absorbs_of_supersedes met.1) _).symm

theorem coalesced_starts (h : Coalesced s) {key : StorageWriteKey} {event : Event ScriptTask}
    {w' : Writer ScriptTask} (hkey : s.startedKey event = some key) (hstarts : s.Starts key w')
    (met : InOrder s event) (files : Files) :
    replay effect s.scheduled files =
      replay effect (w'.queue.map Prod.snd) (replay effect w'.executions files) := by
  obtain ⟨task, front, back, htask, hsplit, hqueue, hexecutions⟩ := hstarts
  have hfree : ∀ entry ∈ front, conflicts entry.2 task.latestTask = false := by
    have met : inOrder s event = true := met
    cases event with
    | write key task debounceFor => simp [Writer.startedKey] at hkey
    | _ =>
      simp only [inOrder, hkey, htask, (Writer.around_of_split hsplit).1, all_eq_true,
        Bool.not_eq_true'] at met
      exact met
  have hfront : ∀ t ∈ front.map Prod.snd, Function.Commute (effect t) (effect task.latestTask) := by
    intro t ht
    obtain ⟨entry, hentry, rfl⟩ := mem_map.mp ht
    exact commute_of_not_conflicts (hfree entry hentry)
  rw [h.files, hsplit, hqueue, hexecutions, map_append, map_append, map_cons,
    replay_take hfront, replay_append s.executions [task.latestTask]]
  rfl

theorem coalesced_step {s' : Session ScriptTask} {event : Event ScriptTask} (h : Coalesced s)
    (met : InOrder s event) (stepped : s.step event = some s') : Coalesced s' := by
  obtain ⟨w', hw', rfl⟩ := Option.map_eq_some_iff.mp stepped
  refine ⟨Writer.timersAgree_step h.timers hw', ?_⟩
  intro files
  rcases Writer.step_cases h.timers hw' with ⟨hqueue, hexecutions, hevent⟩ |
    ⟨key, hkey, hstarts⟩ | ⟨key, task, debounceFor, rfl, hschedules⟩
  · have hfiles : replay effect s.scheduled files =
        replay effect (w'.queue.map Prod.snd) (replay effect w'.executions files) := by
      rw [hqueue, hexecutions, h.files]
    cases event with
    | write key task debounceFor => exact absurd rfl (hevent key task debounceFor)
    | _ => exact hfiles
  · have hfiles := coalesced_starts h hkey hstarts met files
    cases event with
    | write key task debounceFor => simp [Writer.startedKey] at hkey
    | _ => exact hfiles
  · exact coalesced_schedules h hschedules met files

theorem coalesced_of_run (run : Run InOrder s) : Coalesced s :=
  run.invariant ⟨Writer.timersAgree_start, fun _ => rfl⟩ fun _ _ _ h met stepped =>
    coalesced_step h met stepped

theorem readFile_replay (tasks : List ScriptTask) (disk : Disk) :
    (replay executeTask tasks disk).readFile = replay effect tasks disk.readFile := by
  induction tasks generalizing disk with
  | nil => rfl
  | cons task tasks ih => rw [replay_cons, replay_cons, ih, readFile_executeTask]

/-- In a run in order, once no task is pending, the script files are those that
the scheduled tasks would have left one after another. -/
theorem readFile_of_run {s : Session ScriptTask} (run : Run InOrder s)
    (hdone : s.pendingTasks.entries = []) (disk : Disk) :
    (replay executeTask s.executions disk).readFile =
      (replay executeTask s.scheduled disk).readFile := by
  have hqueue : s.queue = [] := by rw [Writer.queue, hdone, map_nil]
  rw [readFile_replay, readFile_replay, (coalesced_of_run run).files, hqueue]
  rfl

/-- Two scripts may be written out of order. -/
theorem readFile_out_of_order :
    ∃ s : Session ScriptTask, s.executions ≠ s.scheduled ∧
      (replay executeTask s.executions {}).readFile =
        (replay executeTask s.scheduled {}).readFile := by
  have hplay : (Session.play InOrder
      [.write (ScriptTask.key (.writeScript ['n'] ['p'] ['x'] ['1']))
          (.writeScript ['n'] ['p'] ['x'] ['1']) 100,
        .write (ScriptTask.key (.writeScript ['n'] ['p'] ['y'] ['2']))
          (.writeScript ['n'] ['p'] ['y'] ['2']) 0,
        .expire 1, .expire 0] {} : Option (Session ScriptTask)).any
      (fun s => s.executions ≠ s.scheduled ∧ s.pendingTasks.entries.isEmpty) = true := by
    decide +kernel
  obtain ⟨s, hs, hfinal⟩ := (Option.any_eq_true _ _).mp hplay
  rw [decide_eq_true_eq, List.isEmpty_iff] at hfinal
  exact ⟨s, hfinal.1, readFile_of_run (Run.start.play hs) hfinal.2 {}⟩

/-- Every task is scheduled under its own key. -/
def keyed (_ : Session ScriptTask) : Event ScriptTask → Bool
  | .write key task _ => key = task.key
  | _ => true

/-- A script is written, deleted and written again, and flushed: the second write
takes the place of the first one, in front of the delete, and the file is gone. -/
theorem write_delete_write_lost :
    ∃ s : Session ScriptTask, Run (fun s event => keyed s event = true) s ∧
      s.pendingTasks.keys = [] ∧ s.inFlight = [] ∧
      s.scheduled = [.writeScript ['n'] ['p'] ['x'] ['1'], .deleteScript ['n'] ['p'] ['x'],
        .writeScript ['n'] ['p'] ['x'] ['2']] ∧
      (replay executeTask s.scheduled {}).readFile (.script ['n'] ['p'] ['x']) = some ['2'] ∧
      (replay executeTask s.executions {}).readFile (.script ['n'] ['p'] ['x']) = none := by
  have hplay : (Session.play (fun s event => keyed s event = true)
      [.write (ScriptTask.key (.writeScript ['n'] ['p'] ['x'] ['1']))
          (.writeScript ['n'] ['p'] ['x'] ['1']) 100,
        .write (ScriptTask.key (.deleteScript ['n'] ['p'] ['x']))
          (.deleteScript ['n'] ['p'] ['x']) 100,
        .write (ScriptTask.key (.writeScript ['n'] ['p'] ['x'] ['2']))
          (.writeScript ['n'] ['p'] ['x'] ['2']) 100,
        .flush, .complete 0, .continueFlush 0, .complete 1, .continueFlush 0] {} :
        Option (Session ScriptTask)).any
      (fun s => s.pendingTasks.keys = [] ∧ s.inFlight = [] ∧
        s.scheduled = [.writeScript ['n'] ['p'] ['x'] ['1'], .deleteScript ['n'] ['p'] ['x'],
          .writeScript ['n'] ['p'] ['x'] ['2']] ∧
        (replay executeTask s.scheduled {}).readFile (.script ['n'] ['p'] ['x']) = some ['2'] ∧
        (replay executeTask s.executions {}).readFile (.script ['n'] ['p'] ['x']) = none) =
          true := by
    decide +kernel
  obtain ⟨s, hs, hfinal⟩ := (Option.any_eq_true _ _).mp hplay
  exact ⟨s, Run.start.play hs, of_decide_eq_true hfinal⟩

end DashQL.Storage
