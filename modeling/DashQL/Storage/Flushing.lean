import DashQL.Storage.Timers

/-!
# A flush on its own

If nothing is in flight and nothing else happens, a flush starts the pending
tasks one after another, in the order in which their keys were first written, and
leaves the writer as paused as it was.
-/

namespace DashQL.Storage

open List

namespace Writer

variable {T : Type} {w : Writer T}

/-- The writer after a list of events, if they can come. -/
def steps : List (Event T) → Writer T → Option (Writer T)
  | [], w => some w
  | event :: events, w => (w.step event).bind (steps events)

/-- Executions end one after another, and a flush goes on after each. -/
def continuations (flush : ℕ) (execution : ℕ) : ℕ → List (Event T)
  | 0 => []
  | keys + 1 =>
    .complete execution :: .continueFlush flush :: continuations flush (execution + 1) keys

def flushEvents (w : Writer T) : List (Event T) :=
  .flush :: continuations w.nextFlush w.executions.length w.pendingTasks.keys.length

/-- What a flush leaves when it returns. -/
structure Flushed (w : Writer T) (wasPaused : Bool) (w' : Writer T) : Prop where
  executions : w'.executions = w.executions ++ w.queue.map Prod.snd
  pendingTasks : w'.pendingTasks.entries = []
  inFlight : w'.inFlight = []
  paused : w'.paused = wasPaused

theorem advance_cons {flush : ℕ} {wasPaused : Bool} {key : StorageWriteKey}
    {task : AsyncStorageWriteTask T} {entries : List (StorageWriteKey × AsyncStorageWriteTask T)}
    {keys : List StorageWriteKey} (hentries : w.pendingTasks.entries = (key, task) :: entries)
    (hidle : w.inFlight = []) :
    ∃ next : Writer T,
      (∀ events, (advance flush wasPaused (key :: keys) w).steps
          (.complete w.executions.length :: .continueFlush flush :: events) =
        (advance flush wasPaused keys next).steps events) ∧
      next.pendingTasks.entries = entries ∧ next.inFlight = [] ∧
      next.executions = w.executions ++ [task.latestTask] := by
  have hfirst : w.pendingTasks.entries = [] ++ (key, task) :: entries := hentries
  have htask : w.pendingTasks.get? key = some task := by
    rw [InsertionMap.get?_eq_some_iff, hentries]
    exact mem_cons_self
  have htask' : (w.clearTimeout task.timer).pendingTasks.get? key = some task := htask
  have hadvance : advance flush wasPaused (key :: keys) w =
      { w with
        timers := w.timers.delete task.timer
        pendingTasks := w.pendingTasks.delete key
        executions := w.executions ++ [task.latestTask]
        inFlight := [w.executions.length]
        flushes := w.flushes.set flush ⟨wasPaused, .processing keys (some w.executions.length)⟩ } := by
    rw [advance, htask]
    dsimp only
    rw [processTask_forced htask', clearTimeout, hidle]
    rfl
  refine ⟨{ w with
      timers := w.timers.delete task.timer
      pendingTasks := w.pendingTasks.delete key
      executions := w.executions ++ [task.latestTask]
      inFlight := []
      flushes := w.flushes.set flush ⟨wasPaused, .processing keys (some w.executions.length)⟩ },
    ?_, ?_, rfl, rfl⟩
  · intro events
    rw [hadvance]
    simp [steps, step, complete, continueFlush, InsertionMap.get?_set_self]
  · have hdelete := InsertionMap.delete_of_split hfirst
    rw [nil_append] at hdelete
    exact hdelete

theorem steps_advance {flush : ℕ} {wasPaused : Bool} (hidle : w.inFlight = []) :
    ∃ w', (advance flush wasPaused w.pendingTasks.keys w).steps
        (continuations flush w.executions.length w.pendingTasks.keys.length) = some w' ∧
      Flushed w wasPaused w' := by
  generalize hentries : w.pendingTasks.entries = entries
  have hkeys : w.pendingTasks.keys = entries.map Prod.fst := by rw [InsertionMap.keys, hentries]
  rw [hkeys]
  induction entries generalizing w with
  | nil =>
    refine ⟨settle flush wasPaused { w with paused := wasPaused }, rfl, ?_⟩
    have hsettle : settle flush wasPaused { w with paused := wasPaused } =
        { w with paused := wasPaused, flushes := w.flushes.delete flush } := by
      rw [settle, if_pos hidle]
    rw [hsettle]
    exact ⟨by simp [queue, hentries], hentries, hidle, rfl⟩
  | cons entry entries ih =>
    obtain ⟨key, task⟩ := entry
    obtain ⟨next, hsteps, hnext, hnextIdle, hexecutions⟩ :=
      @advance_cons T w flush wasPaused key task entries (entries.map Prod.fst) hentries hidle
    obtain ⟨w', hw', hflushed⟩ := ih hnextIdle hnext (by rw [InsertionMap.keys, hnext])
    refine ⟨w', ?_, ?_⟩
    · rw [map_cons, length_cons, continuations, hsteps]
      rw [hexecutions, length_append, length_singleton] at hw'
      exact hw'
    · refine ⟨?_, hflushed.pendingTasks, hflushed.inFlight, hflushed.paused⟩
      rw [hflushed.executions, hexecutions, queue, queue, hnext, hentries]
      simp

/-- A flush on its own executes the pending tasks in the order of the queue. -/
theorem steps_flushEvents (hidle : w.inFlight = []) :
    ∃ w', w.steps w.flushEvents = some w' ∧ Flushed w w.paused w' := by
  obtain ⟨w', hsteps, hflushed⟩ := @steps_advance T
    { w with paused := false, nextFlush := w.nextFlush + 1 } w.nextFlush w.paused hidle
  exact ⟨w', hsteps, hflushed.executions, hflushed.pendingTasks, hflushed.inFlight, hflushed.paused⟩

end Writer

end DashQL.Storage
