import DashQL.Connection.CatalogUpdates
import DashQL.Library.Replay

/-!
# Which refresh is the current one

Several refreshes may run at once: a forced refresh aborts the running ones, which complete later.
In every run the maps and `lastFullRefresh` are right (`represents_step`).  Every completion also
takes `currentFullRefresh`, though, so that it is right all along exactly if no refresh completes
while another one is running (`refreshes_right_of_run_iff`).
-/

namespace DashQL.Connection

open List Option

/-! ## Refreshes -/

/-- The refreshes, in the order in which they started and in which they completed. -/
structure Refreshes where
  started : List ℕ
  completed : List ℕ

namespace Refreshes

def running (refreshes : Refreshes) : List ℕ :=
  refreshes.started.filter (· ∉ refreshes.completed)

/-- The most recently started refresh that is running, or else the most recently completed one. -/
def current (refreshes : Refreshes) : Option ℕ :=
  refreshes.running.getLast?.or refreshes.completed.getLast?

def start (id : ℕ) (refreshes : Refreshes) : Refreshes :=
  { refreshes with started := refreshes.started ++ [id] }

def complete (id : ℕ) (refreshes : Refreshes) : Refreshes :=
  if id ∈ refreshes.running then { refreshes with completed := refreshes.completed ++ [id] }
  else refreshes

variable {refreshes : Refreshes} {id : ℕ}

theorem mem_running : id ∈ refreshes.running ↔ id ∈ refreshes.started ∧ id ∉ refreshes.completed := by
  rw [running, mem_filter, decide_eq_true_eq]

theorem running_start (h : id ∉ refreshes.completed) :
    (refreshes.start id).running = refreshes.running ++ [id] := by
  change (refreshes.started ++ [id]).filter (· ∉ refreshes.completed) = _
  rw [filter_append, filter_singleton, decide_eq_true h]
  rfl

theorem current_start (h : id ∉ refreshes.completed) : (refreshes.start id).current = some id := by
  rw [current, running_start h, getLast?_concat]
  rfl

theorem complete_of_running (h : id ∈ refreshes.running) :
    refreshes.complete id = { refreshes with completed := refreshes.completed ++ [id] } :=
  if_pos h

theorem complete_of_not_running (h : id ∉ refreshes.running) : refreshes.complete id = refreshes :=
  if_neg h

theorem mem_running_complete (h : id ∈ refreshes.running) {other : ℕ} :
    other ∈ (refreshes.complete id).running ↔ other ≠ id ∧ other ∈ refreshes.running := by
  rw [complete_of_running h, mem_running, mem_running, mem_append, mem_singleton]
  tauto

/-- A refresh that completes is the current one if it ran alone. -/
theorem current_complete_iff (h : id ∈ refreshes.running) :
    (refreshes.complete id).current = some id ↔ ∀ other ∈ refreshes.running, other = id := by
  have hlast : (refreshes.complete id).completed.getLast? = some id := by
    rw [complete_of_running h]
    exact getLast?_concat
  constructor
  · intro hcurrent other hother
    by_contra hne
    have hmem := (mem_running_complete h).mpr ⟨hne, hother⟩
    have hfound := getLast?_eq_some_getLast (ne_nil_of_mem hmem)
    rw [current, hfound, some_or] at hcurrent
    exact ((mem_running_complete h).mp (mem_of_getLast? hfound)).1 (some.inj hcurrent)
  · intro halone
    have hnone : (refreshes.complete id).running = [] := by
      refine eq_nil_iff_forall_not_mem.mpr fun other hother => ?_
      obtain ⟨hne, hmem⟩ := (mem_running_complete h).mp hother
      exact hne (halone other hmem)
    rw [current, hnone, hlast]
    rfl

end Refreshes

/-! ## Runs -/

namespace CatalogAction

def refreshes : CatalogAction → Refreshes → Refreshes
  | updateCatalog updateId _ => Refreshes.start updateId
  | catalogUpdateCancelled updateId _ => Refreshes.complete updateId
  | catalogUpdateFailed updateId _ => Refreshes.complete updateId
  | catalogUpdateSucceeded updateId => Refreshes.complete updateId
  | _ => id

def starts : CatalogAction → Option ℕ
  | updateCatalog updateId _ => some updateId
  | _ => none

def completes : CatalogAction → Option ℕ
  | catalogUpdateCancelled updateId _ => some updateId
  | catalogUpdateFailed updateId _ => some updateId
  | catalogUpdateSucceeded updateId => some updateId
  | _ => none

end CatalogAction

structure CatalogRun where
  state : CatalogState
  refreshes : Refreshes

namespace CatalogRun

/-- A connection without refreshes. -/
def initial (notebookId : String) (active : Bool) (relations functions : String) : CatalogRun where
  state :=
    { notebookId
      active
      catalogUpdates := createCatalogUpdates
      catalogRelationScript := relations
      catalogFunctionScript := functions }
  refreshes := ⟨[], []⟩

/-- An action is reduced at a point in time. -/
def step (event : ℤ × CatalogAction) (run : CatalogRun) : CatalogRun where
  state := (reduceCatalogAction event.1 event.2 run.state).1
  refreshes := event.2.refreshes run.refreshes

def Increasing (event : ℤ × CatalogAction) (run : CatalogRun) : Prop :=
  ∀ id ∈ event.2.starts, ∀ earlier ∈ run.refreshes.started, earlier < id

def Alone (event : ℤ × CatalogAction) (run : CatalogRun) : Prop :=
  ∀ id ∈ event.2.completes, id ∈ run.refreshes.running → ∀ other ∈ run.refreshes.running, other = id

/-- What the pointers and the maps say about the refreshes. -/
structure Right (run : CatalogRun) : Prop where
  current : run.state.catalogUpdates.currentFullRefresh = run.refreshes.current
  last : run.state.catalogUpdates.lastFullRefresh = run.refreshes.completed.getLast?
  isRunning : isCatalogRefreshRunning (some run.state) = true ↔ run.refreshes.running ≠ []
  disjoint : ∀ id ∈ run.state.catalogUpdates.tasksRunning.keys,
    id ∉ run.state.catalogUpdates.tasksFinished.keys

/-! ## What holds in every run -/

/-- The maps have the refreshes that are running and completed. -/
structure Represents (run : CatalogRun) : Prop where
  running : ∀ id, id ∈ run.state.catalogUpdates.tasksRunning.keys ↔ id ∈ run.refreshes.running
  finished : ∀ id, id ∈ run.state.catalogUpdates.tasksFinished.keys ↔ id ∈ run.refreshes.completed
  last : run.state.catalogUpdates.lastFullRefresh = run.refreshes.completed.getLast?
  started : ∀ id ∈ run.refreshes.completed, id ∈ run.refreshes.started

variable {run : CatalogRun} {id : ℕ}

theorem represents_initial (notebookId : String) (active : Bool) (relations functions : String) :
    (initial notebookId active relations functions).Represents where
  running _ := Iff.rfl
  finished _ := Iff.rfl
  last := rfl
  started _ hid := hid

theorem right_iff (h : run.Represents) :
    run.Right ↔ run.state.catalogUpdates.currentFullRefresh = run.refreshes.current := by
  refine ⟨Right.current, fun hcurrent => ⟨hcurrent, h.last, ?_, ?_⟩⟩
  · have hunfold : isCatalogRefreshRunning (some run.state) = true ↔
        ∃ id ∈ run.refreshes.current, id ∈ run.refreshes.running := by
      unfold isCatalogRefreshRunning
      dsimp only
      rw [hcurrent]
      cases run.refreshes.current with
      | none => simp
      | some id => simp [h.running id]
    rw [hunfold]
    constructor
    · rintro ⟨id, -, hid⟩
      exact ne_nil_of_mem hid
    · intro hrunning
      have hid := getLast?_eq_some_getLast hrunning
      refine ⟨_, ?_, mem_of_getLast? hid⟩
      rw [Refreshes.current, hid]
      rfl
  · intro id hid hfinished
    exact (Refreshes.mem_running.mp ((h.running id).mp hid)).2 ((h.finished id).mp hfinished)

/-! ## Single actions -/

theorem updateTask_represents (h : run.Represents) {old update : CatalogUpdateTaskState}
    (hold : run.state.catalogUpdates.tasksRunning.get? id = some old) :
    Represents { run with state := run.state.updateTask id update } where
  running := by
    intro other
    have hkeys : (run.state.catalogUpdates.tasksRunning.set id update).keys =
        run.state.catalogUpdates.tasksRunning.keys :=
      InsertionMap.keys_set_of_mem (InsertionMap.mem_keys_iff.mpr ⟨old, hold⟩)
    change other ∈ (run.state.catalogUpdates.tasksRunning.set id update).keys ↔ _
    rw [hkeys]
    exact h.running other
  finished := h.finished
  last := h.last
  started := h.started

theorem finishTask_represents (h : run.Represents) {update : CatalogUpdateTaskState}
    (hrunning : id ∈ run.refreshes.running) :
    Represents { state := run.state.finishTask id update
                 refreshes := run.refreshes.complete id } := by
  rw [Refreshes.complete_of_running hrunning]
  refine ⟨fun other => ?_, fun other => ?_, ?_, fun other hother => ?_⟩
  · change other ∈ (run.state.catalogUpdates.tasksRunning.delete id).keys ↔ _
    rw [InsertionMap.mem_keys_delete, h.running other, ← Refreshes.mem_running_complete hrunning,
      Refreshes.complete_of_running hrunning]
  · change other ∈ (run.state.catalogUpdates.tasksFinished.set id update).keys ↔ _
    rw [InsertionMap.mem_keys_set, h.finished other, mem_append, mem_singleton, or_comm]
  · exact getLast?_concat.symm
  · rcases mem_append.mp hother with hother | hother
    · exact h.started other hother
    · rw [mem_singleton.mp hother]
      exact (Refreshes.mem_running.mp hrunning).1

theorem complete_spec (h : run.Represents) {event : ℤ × CatalogAction}
    (hrefreshes : event.2.refreshes = Refreshes.complete id)
    (hcompletes : event.2.completes = some id)
    (hnone : run.state.catalogUpdates.tasksRunning.get? id = none →
      (reduceCatalogAction event.1 event.2 run.state).1 = run.state)
    (hsome : ∀ update, run.state.catalogUpdates.tasksRunning.get? id = some update →
      ∃ update', (reduceCatalogAction event.1 event.2 run.state).1 =
        run.state.finishTask id update') :
    (step event run).Represents ∧ (run.Right → ((step event run).Right ↔ Alone event run)) := by
  have hkeys := h.running id
  cases htask : run.state.catalogUpdates.tasksRunning.get? id with
  | none =>
    have hnot : id ∉ run.refreshes.running := by
      rw [← hkeys]
      exact InsertionMap.get?_eq_none_iff.mp htask
    have hstep : step event run = run := by
      rw [step, hnone htask, hrefreshes, Refreshes.complete_of_not_running hnot]
    rw [hstep]
    refine ⟨h, fun hright => iff_of_true hright ?_⟩
    intro other hother hrunning
    rw [hcompletes] at hother
    obtain rfl := some.inj hother
    exact absurd hrunning hnot
  | some update =>
    have hrunning : id ∈ run.refreshes.running :=
      hkeys.mp (InsertionMap.mem_keys_iff.mpr ⟨update, htask⟩)
    obtain ⟨update', hstate⟩ := hsome update htask
    have hstep : step event run =
        { state := run.state.finishTask id update', refreshes := run.refreshes.complete id } := by
      rw [step, hstate, hrefreshes]
    have hafter := @finishTask_represents run id h update' hrunning
    rw [hstep]
    refine ⟨hafter, fun _ => ?_⟩
    rw [right_iff hafter]
    change some id = (run.refreshes.complete id).current ↔ _
    rw [eq_comm, Refreshes.current_complete_iff hrunning]
    constructor
    · intro halone other hother _
      rw [hcompletes] at hother
      obtain rfl := some.inj hother
      exact halone
    · intro halone
      exact halone id hcompletes hrunning

/-- An action that changes no refresh and at most a running task. -/
theorem unchanged_spec {event : ℤ × CatalogAction} {state' : CatalogState}
    (hstate : (reduceCatalogAction event.1 event.2 run.state).1 = state')
    (hrefreshes : event.2.refreshes run.refreshes = run.refreshes)
    (hcompletes : event.2.completes = none) (hrepresents : Represents { run with state := state' })
    (hcurrent : state'.catalogUpdates.currentFullRefresh =
      run.state.catalogUpdates.currentFullRefresh) :
    (step event run).Represents ∧ (run.Right → ((step event run).Right ↔ Alone event run)) := by
  have hstep : step event run = { run with state := state' } := by
    rw [step, hstate, hrefreshes]
  rw [hstep]
  refine ⟨hrepresents, fun hright => iff_of_true ?_ ?_⟩
  · rw [right_iff hrepresents]
    exact hcurrent.trans hright.current
  · intro id hid
    rw [hcompletes] at hid
    exact absurd hid (by simp)

theorem update_spec (h : run.Represents) {event : ℤ × CatalogAction}
    (hrefreshes : event.2.refreshes run.refreshes = run.refreshes)
    (hcompletes : event.2.completes = none)
    (hnone : run.state.catalogUpdates.tasksRunning.get? id = none →
      (reduceCatalogAction event.1 event.2 run.state).1 = run.state)
    (hsome : ∀ update, run.state.catalogUpdates.tasksRunning.get? id = some update →
      ∃ update', (reduceCatalogAction event.1 event.2 run.state).1 =
        run.state.updateTask id update') :
    (step event run).Represents ∧ (run.Right → ((step event run).Right ↔ Alone event run)) := by
  cases htask : run.state.catalogUpdates.tasksRunning.get? id with
  | none => exact unchanged_spec (hnone htask) hrefreshes hcompletes h rfl
  | some update =>
    obtain ⟨update', hstate⟩ := hsome update htask
    exact unchanged_spec hstate hrefreshes hcompletes (updateTask_represents h htask) rfl

theorem start_spec (h : run.Represents) {now : ℤ} {update : CatalogUpdateTaskState}
    (hfresh : id ∉ run.refreshes.started) :
    (step (now, .updateCatalog id update) run).Represents ∧
      (step (now, .updateCatalog id update) run).Right := by
  have hcompleted : id ∉ run.refreshes.completed := fun hmem => hfresh (h.started id hmem)
  have hrepresents : (step (now, .updateCatalog id update) run).Represents := by
    refine ⟨fun other => ?_, h.finished, h.last, fun other hother => ?_⟩
    · change other ∈ (run.state.catalogUpdates.tasksRunning.set id update).keys ↔
        other ∈ (run.refreshes.start id).running
      rw [InsertionMap.mem_keys_set, h.running other, Refreshes.running_start hcompleted,
        mem_append, mem_singleton, or_comm]
    · exact mem_append_left _ (h.started other hother)
  refine ⟨hrepresents, (right_iff hrepresents).mpr ?_⟩
  have hcurrent : (if update.taskVariant = .fullCatalogRefresh then some id
      else run.state.catalogUpdates.currentFullRefresh) = some id := by
    cases update.taskVariant
    exact if_pos rfl
  change (if update.taskVariant = .fullCatalogRefresh then some id
    else run.state.catalogUpdates.currentFullRefresh) = (run.refreshes.start id).current
  rw [hcurrent, Refreshes.current_start hcompleted]

/-- An action keeps the maps right, and the pointers exactly if a completing refresh runs alone. -/
theorem step_spec (h : run.Represents) {event : ℤ × CatalogAction}
    (hallowed : Increasing event run) :
    (step event run).Represents ∧ (run.Right → ((step event run).Right ↔ Alone event run)) := by
  obtain ⟨now, action⟩ := event
  cases action with
  | setCatalogScript script =>
    exact unchanged_spec rfl rfl rfl ⟨h.running, h.finished, h.last, h.started⟩ rfl
  | updateCatalog id update =>
    have hfresh : id ∉ run.refreshes.started := by
      intro hmem
      exact absurd (hallowed id rfl id hmem) (lt_irrefl id)
    obtain ⟨hrepresents, hright⟩ := @start_spec run id h now update hfresh
    refine ⟨hrepresents, fun _ => iff_of_true hright ?_⟩
    intro other hother
    exact absurd hother (by simp [CatalogAction.completes])
  | catalogUpdateRegisterQuery id queryId =>
    refine @update_spec run id h _ rfl rfl (fun hnone => ?_) (fun task htask =>
      ⟨{ task with queries := task.queries ++ [queryId], lastUpdateAt := some now }, ?_⟩)
    · simp only [reduceCatalogAction, hnone]
    · simp only [reduceCatalogAction, htask]
  | catalogUpdateSchemaScript id =>
    refine @update_spec run id h _ rfl rfl (fun hnone => ?_) (fun task htask =>
      ⟨{ task with lastUpdateAt := some now }, ?_⟩)
    · simp only [reduceCatalogAction, hnone]
    · simp only [reduceCatalogAction, htask]
  | catalogUpdateCancelled id error =>
    refine complete_spec h rfl rfl (fun hnone => ?_) (fun task htask =>
      ⟨{ task with
        status := .cancelled, error := some error, finishedAt := some now
        lastUpdateAt := some now }, ?_⟩)
    · simp only [reduceCatalogAction, hnone]
    · simp only [reduceCatalogAction, htask]
  | catalogUpdateFailed id error =>
    refine complete_spec h rfl rfl (fun hnone => ?_) (fun task htask =>
      ⟨{ task with
        status := .failed, error := some error, finishedAt := some now
        lastUpdateAt := some now }, ?_⟩)
    · simp only [reduceCatalogAction, hnone]
    · simp only [reduceCatalogAction, htask]
  | catalogUpdateSucceeded id =>
    refine complete_spec h rfl rfl (fun hnone => ?_) (fun task htask =>
      ⟨{ task with status := .succeeded, finishedAt := some now, lastUpdateAt := some now }, ?_⟩)
    · simp only [reduceCatalogAction, hnone]
    · simp only [reduceCatalogAction, htask]

/-- In a run of catalog actions the pointers and the maps are right all along exactly if no refresh
completes while another one is running. -/
theorem refreshes_right_of_run_iff (notebookId : String) (active : Bool)
    (relations functions : String) (events : List (ℤ × CatalogAction))
    (hallowed : ReplayMeets step Increasing events
      (initial notebookId active relations functions)) :
    (∀ front back, events = front ++ back →
      (replay step front (initial notebookId active relations functions)).Right) ↔
        ReplayMeets step Alone events (initial notebookId active relations functions) := by
  have hinitial := represents_initial notebookId active relations functions
  have hright : (initial notebookId active relations functions).Right :=
    (right_iff hinitial).mpr rfl
  exact replay_invariant_iff_of_allowed Represents Right
    (fun event run h hallowed => (step_spec h hallowed).1)
    (fun event run h hallowed => (step_spec h hallowed).2) hallowed hinitial hright

def startedTask (taskId : ℕ) : CatalogUpdateTaskState where
  taskId
  taskVariant := .fullCatalogRefresh
  status := .started
  queries := []
  error := none
  startedAt := some 0
  finishedAt := none
  lastUpdateAt := none

/-- A refresh is superseded by another one and is cancelled then. -/
def superseded : List (ℤ × CatalogAction) :=
  [(0, .updateCatalog 1 (startedTask 1)), (1, .updateCatalog 2 (startedTask 2)),
    (2, .catalogUpdateCancelled 1 "superseded by forced catalog refresh")]

instance (event : ℤ × CatalogAction) (run : CatalogRun) : Decidable (Increasing event run) :=
  inferInstanceAs (Decidable (∀ id ∈ event.2.starts, ∀ earlier ∈ run.refreshes.started, _))

theorem refreshes_right_of_run_iff_superseded :
    (∀ front back, superseded = front ++ back →
      (replay step front (initial "notebook" true "" "")).Right) ↔
        ReplayMeets step Alone superseded (initial "notebook" true "" "") :=
  refreshes_right_of_run_iff "notebook" true "" "" superseded (by decide)

/-- The pointer is at the refresh that was superseded, while its successor is running. -/
theorem current_after_superseded :
    ReplayMeets step Increasing superseded (initial "notebook" true "" "") ∧
      ¬ (replay step superseded (initial "notebook" true "" "")).Right :=
  ⟨by decide, fun h => absurd h.current (by decide)⟩

end CatalogRun

end DashQL.Connection
