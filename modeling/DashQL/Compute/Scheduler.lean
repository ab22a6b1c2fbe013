import DashQL.Compute.Derived

/-!
# The computation scheduler

`processTask` dispatches the messages of one task in order: its progress, its result or its
failure, and that it is done.  The messages of different tasks come in any order, and all filtering
tasks of a table share one place, as do all ordering tasks.

`described_of_run_iff` says exactly in which runs the places always describe the latest tasks.  A
result of an older filtering task is never installed, and outdated aggregates are always marked.
-/

namespace DashQL.Compute

open Option
open InsertionMap (get?_set get?_set_self)

open SparseArray (assign slot getElem?_assign_self getElem?_assign_of_ne length_le_assign)

variable {D R : Type}

/-! ## Results -/

def filterTable (task : TableFilteringTask D R) (dataTable : ArrowTable R) (dataFrame : D) :
    Option (FilterTable D R) :=
  if task.filters = [] then none
  else some
    { inputRowNumberColumnName := task.rowNumberColumnName
      dataTable
      dataFrame
      version := task.tableVersion }

def sortTable (task : TableOrderingTask D R) (dataTable : ArrowTable R) (dataFrame : D) :
    OrderingTable D R where
  inputRowNumberColumnName := task.rowNumberColumnName
  orderingConstraints := task.orderingConstraints
  dataTable
  dataFrame
  version := task.tableVersion

/-- The result of `computeFilteredColumnAggregates`, which throws at other columns. -/
def computeFilteredColumnAggregates (task : FilteredColumnAggregationTask D R) (dataFrame : D) :
    Option (FilteredColumnAggregation D) :=
  match task.columnEntry with
  | .ordinal =>
    some { aggregate := .ordinal dataFrame, filterVersion := task.filterTable.version }
  | .string =>
    some { aggregate := .string dataFrame, filterVersion := task.filterTable.version }
  | _ => none

/-- The message of `processTask` for a task that succeeded, with the data of its query. -/
def succeededAction (value : TaskValue D R) (dataTable : ArrowTable R) (dataFrame : D) :
    Option (ComputationAction D R) :=
  match value with
  | .tableFiltering task =>
    some (.tableFilteringSucceeded task.tableId task.tableVersion
      (filterTable task dataTable dataFrame))
  | .tableOrdering task =>
    some (.tableOrderingSucceded task.tableId (sortTable task dataTable dataFrame))
  | .filteredColumnAggregation task =>
    (computeFilteredColumnAggregates task dataFrame).map fun aggregate =>
      .filteredColumnAggregationSucceeded task.tableId task.columnId task.filterTable.version
        (some aggregate)
  | _ => none

/-! ## Tasks in flight -/

/-- Where `processTask` stands with a task. -/
inductive Stage
  | scheduled
  | running
  | succeeded
  | done
  deriving DecidableEq

/-- A task of the scheduler, how far it is processed, and the progress it was started with. -/
structure Process (D R : Type) where
  task : TaskVariant D R
  stage : Stage
  progress : TaskProgress := {}

/-- The computation state with the tasks in flight.  What was scheduled last is only recorded. -/
structure Scheduler (D R : Type) where
  state : ComputationState D R
  memory : DataFrameRegistry D
  processes : InsertionMap ℕ (Process D R) := .empty
  latestFiltering : Option (ℕ × TableFilteringTask D R) := none
  latestOrdering : Option (TableOrderingTask D R) := none

/-- What happens to the tasks of a table: one is scheduled, or `processTask` dispatches the next
message of one. -/
inductive TaskEvent (D R : Type)
  | filter (task : TableFilteringTask D R)
  | order (task : TableOrderingTask D R)
  | aggregate (task : FilteredColumnAggregationTask D R)
  | launch (taskId : ℕ)
  | succeed (taskId : ℕ) (dataTable : ArrowTable R) (dataFrame : D)
  | fail (taskId : ℕ) (error : Storage.Text)
  | unregister (taskId : ℕ)

section Steps

variable [DecidableEq D]

/-- An action that is dispatched, after which a task is at another stage. -/
def Scheduler.dispatch (now : ℕ) (action : ComputationAction D R) (taskId : ℕ)
    (process : Process D R) (scheduler : Scheduler D R) : Scheduler D R :=
  let reduced := reduceComputationState now action scheduler.state scheduler.memory
  { scheduler with
    state := reduced.1
    memory := reduced.2
    processes := scheduler.processes.set taskId process }

/-- `SCHEDULE_TASK` of a task without an id: the task gets the next id, and is processed as it is
in the task map then. -/
def Scheduler.schedule (now : ℕ) (value : TaskValue D R) (scheduler : Scheduler D R) :
    Scheduler D R :=
  let taskId := scheduler.state.nextSchedulerTaskId
  let reduced :=
    reduceComputationState now (.scheduleTask { value }) scheduler.state scheduler.memory
  { scheduler with
    state := reduced.1
    memory := reduced.2
    processes :=
      match reduced.1.schedulerTasks.get? taskId with
      | some task => scheduler.processes.set taskId { task, stage := .scheduled }
      | none => scheduler.processes }

def initialProgress (now : ℕ) : TaskProgress where
  status := some .running
  startedAt := some now
  completedAt := some none
  failedAt := some none
  failedWithError := some none

/-- One event, at a time of the clock, on the tables with one id.  An event that cannot happen
changes nothing. -/
def Scheduler.step (tableId : ℕ) (event : ℕ × TaskEvent D R) (scheduler : Scheduler D R) :
    Scheduler D R :=
  let now := event.1
  match event.2 with
  | .filter task =>
    { scheduler.schedule now (.tableFiltering { task with tableId }) with
      latestFiltering := some (scheduler.state.nextSchedulerTaskId, task) }
  | .order task =>
    { scheduler.schedule now (.tableOrdering { task with tableId }) with
      latestOrdering := some task }
  | .aggregate task =>
    scheduler.schedule now (.filteredColumnAggregation { task with tableId })
  | .launch taskId =>
    match scheduler.processes.get? taskId with
    | some ⟨task, .scheduled, _⟩ =>
      let progress := initialProgress now
      scheduler.dispatch now (.updateSchedulerTask task progress) taskId ⟨task, .running, progress⟩
    | _ => scheduler
  | .succeed taskId dataTable dataFrame =>
    match scheduler.processes.get? taskId with
    | some ⟨task, .running, progress⟩ =>
      match succeededAction task.value dataTable dataFrame with
      | some action => scheduler.dispatch now action taskId ⟨task, .succeeded, progress⟩
      | none => scheduler
    | _ => scheduler
  | .fail taskId error =>
    match scheduler.processes.get? taskId with
    | some ⟨task, .running, progress⟩ =>
      let progress := { progress with
        status := some .failed
        failedAt := some (some now)
        failedWithError := some (some error) }
      scheduler.dispatch now (.updateSchedulerTask task progress) taskId ⟨task, .done, progress⟩
    | _ => scheduler
  | .unregister taskId =>
    match scheduler.processes.get? taskId with
    | some ⟨task, .succeeded, progress⟩ =>
      scheduler.dispatch now (.unregisterSchedulerTask task) taskId ⟨task, .done, progress⟩
    | _ => scheduler

end Steps

/-! ## What the claims are about -/

structure SameFiltering (task task' : TableFilteringTask D R) : Prop where
  inputDataTable : task.inputDataTable = task'.inputDataTable
  inputDataTableFieldIndex : task.inputDataTableFieldIndex = task'.inputDataTableFieldIndex
  inputDataFrame : task.inputDataFrame = task'.inputDataFrame
  rowNumberColumnName : task.rowNumberColumnName = task'.rowNumberColumnName
  filters : task.filters = task'.filters

structure SameOrdering (task task' : TableOrderingTask D R) : Prop where
  inputDataTable : task.inputDataTable = task'.inputDataTable
  inputDataTableFieldIndex : task.inputDataTableFieldIndex = task'.inputDataTableFieldIndex
  inputDataFrame : task.inputDataFrame = task'.inputDataFrame
  filterTable : task.filterTable = task'.filterTable
  rowNumberColumnName : task.rowNumberColumnName = task'.rowNumberColumnName
  orderingConstraints : task.orderingConstraints = task'.orderingConstraints

/-- A filtered aggregate that is not of the installed filter is marked as outdated. -/
def TableComputationState.Marked (tableState : TableComputationState D R) : Prop :=
  ∀ filterTable, tableState.filterTable = some filterTable → ∀ columnId columnGroup,
    tableState.columnGroups[columnId]? = some columnGroup → columnGroup.isSummarised = true →
    (slot tableState.columnAggregates columnId).isSome = true →
    (∀ aggregate, slot tableState.filteredColumnAggregates columnId = some aggregate →
      aggregate.filterVersion ≠ filterTable.version) →
    tableState.filteredColumnAggregatesOutdated[columnId]? = some true

namespace Scheduler

/-- The table that the tasks are on. -/
def table (tableId : ℕ) (scheduler : Scheduler D R) : Option (TableComputationState D R) :=
  scheduler.state.tableComputations.get? tableId

/-- The places of the table describe the tasks that were scheduled last. -/
structure Describes (tableId : ℕ) (scheduler : Scheduler D R) : Prop where
  filtering : ∀ tableState, scheduler.table tableId = some tableState →
    ∀ latest, scheduler.latestFiltering = some latest →
      ∃ current, tableState.tasks.filteringTask = some current ∧ SameFiltering current.task latest.2
  ordering : ∀ tableState, scheduler.table tableId = some tableState →
    ∀ latest, scheduler.latestOrdering = some latest →
      ∃ current, tableState.tasks.orderingTask = some current ∧ SameOrdering current.task latest

def updatedTask (event : TaskEvent D R) (scheduler : Scheduler D R) : Option (TaskValue D R) :=
  match event with
  | .launch taskId =>
    (scheduler.processes.get? taskId).bind fun process =>
      if process.stage = .scheduled then some process.task.value else none
  | .fail taskId _ =>
    (scheduler.processes.get? taskId).bind fun process =>
      if process.stage = .running then some process.task.value else none
  | _ => none

def LikeLatest (value : TaskValue D R) (scheduler : Scheduler D R) : Prop :=
  match value with
  | .tableFiltering task =>
    ∀ latest, scheduler.latestFiltering = some latest → SameFiltering task latest.2
  | .tableOrdering task =>
    ∀ latest, scheduler.latestOrdering = some latest →
      areOrderingConstraintsEqual latest.orderingConstraints task.orderingConstraints = true →
      SameOrdering task latest
  | _ => True

/-- An event that does not put an older task into the place of the latest one. -/
def KeepsDescription (event : TaskEvent D R) (scheduler : Scheduler D R) : Prop :=
  ∀ value, scheduler.updatedTask event = some value → scheduler.LikeLatest value

/-- An event that replaces the installed filter only by the result of the latest filtering task. -/
def InstallsLatest [DecidableEq D] (tableId : ℕ) (event : ℕ × TaskEvent D R)
    (scheduler : Scheduler D R) : Prop :=
  ∀ tableState tableState', scheduler.table tableId = some tableState →
    (scheduler.step tableId event).table tableId = some tableState' →
    tableState'.filterTable = tableState.filterTable ∨
      ∃ taskId dataTable dataFrame latest, event.2 = .succeed taskId dataTable dataFrame ∧
        scheduler.latestFiltering = some (taskId, latest)

end Scheduler

/-! ## What a completion changes -/

/-- A table after a completion: the version and the tasks in the places stay, and what was marked is
marked. -/
structure Completed (tableState tableState' : TableComputationState D R) : Prop where
  version : tableState'.version = tableState.version
  filteringTask : tableState'.tasks.filteringTask.map (·.task) =
    tableState.tasks.filteringTask.map (·.task)
  orderingTask : tableState'.tasks.orderingTask.map (·.task) =
    tableState.tasks.orderingTask.map (·.task)
  marked : tableState.Marked → tableState'.Marked

theorem Completed.refl (tableState : TableComputationState D R) : Completed tableState tableState :=
  ⟨rfl, rfl, rfl, id⟩

theorem map_succeeded {T : Type} (now : ℕ) (task : Option (WithProgress T)) :
    (task.map (·.succeeded now)).map (·.task) = task.map (·.task) := by
  cases task <;> rfl

section Loop

variable {flag : ColumnGroup × ℕ → Bool}

/-- The rounds of a loop leave the flags in front of their columns alone. -/
theorem getElem?_loop_of_lt {columns : List ColumnGroup} :
    ∀ {start index : ℕ} {outdated : List Bool}, index < start → index < outdated.length →
      ((columns.zipIdx start).foldl
        (fun outdated column => assign false outdated column.2 (flag column)) outdated)[index]? =
        outdated[index]? := by
  induction columns with
  | nil => intro start index outdated _ _; rfl
  | cons column columns ih =>
    intro start index outdated hstart hlength
    rw [List.zipIdx_cons, List.foldl_cons, ih (Nat.lt_succ_of_lt hstart)
      (hlength.trans_le length_le_assign), getElem?_assign_of_ne hstart.ne hlength]

theorem getElem?_loop {columns : List ColumnGroup} :
    ∀ {start index : ℕ} {outdated : List Bool} {column : ColumnGroup},
      columns[index]? = some column →
      ((columns.zipIdx start).foldl
        (fun outdated column => assign false outdated column.2 (flag column))
        outdated)[start + index]? = some (flag (column, start + index)) := by
  induction columns with
  | nil => intro start index outdated column hcolumn; cases hcolumn
  | cons head columns ih =>
    intro start index outdated column hcolumn
    rw [List.zipIdx_cons, List.foldl_cons]
    cases index with
    | zero =>
      obtain rfl := some.inj hcolumn
      have hlength : start < (assign false outdated start (flag (head, start))).length := by
        rw [SparseArray.length_assign]
        omega
      exact (getElem?_loop_of_lt (Nat.lt_succ_self start) hlength).trans getElem?_assign_self
    | succ index =>
      have hnext : start + (index + 1) = start + 1 + index := by omega
      rw [hnext]
      exact ih hcolumn

end Loop

section Completions

variable [DecidableEq D] {state : ComputationState D R} (memory : DataFrameRegistry D)
  {tableId : ℕ} {tableState : TableComputationState D R}

theorem completed_tableFilteringSucceeded (now : ℕ) (completedVersion : ComputationStateVersion)
    (filterTable : Option (FilterTable D R))
    (hget : state.tableComputations.get? tableId = some tableState) :
    (tableFilteringSucceeded now tableId completedVersion filterTable state memory).1 = state ∨
      completedVersion = tableState.version ∧ ∃ tableState',
        (tableFilteringSucceeded now tableId completedVersion filterTable state memory).1 =
          state.setTable tableId tableState' ∧ Completed tableState tableState' := by
  unfold tableFilteringSucceeded
  rw [hget]
  dsimp only
  split
  next => exact .inl rfl
  next hmatches =>
    rw [Bool.not_eq_true', Bool.not_eq_false, ComputationStateVersion.filterMatches_iff] at hmatches
    refine .inr ⟨hmatches, ?_⟩
    unfold tableFilteringSucceded
    rw [hget]
    refine ⟨_, rfl, rfl, map_succeeded now _, rfl, ?_⟩
    intro _ installed hinstalled columnId columnGroup hgroup hsummarised hunfiltered hother
    cases filterTable with
    | none => cases hinstalled
    | some filterTable =>
      obtain rfl := some.inj hinstalled
      have hround : (outdatedAggregates tableState filterTable)[0 + columnId]? =
          some (columnGroup.isSummarised &&
            (slot tableState.columnAggregates (0 + columnId)).isSome &&
            !(slot tableState.filteredColumnAggregates (0 + columnId)).any fun aggregate =>
              aggregate.filterVersion.filterMatches filterTable.version) := getElem?_loop hgroup
      have hstale : ((slot tableState.filteredColumnAggregates columnId).any fun aggregate =>
          aggregate.filterVersion.filterMatches filterTable.version) = false := by
        rw [any_eq_false]
        intro aggregate haggregate
        rw [← Bool.not_eq_true, ComputationStateVersion.filterMatches_iff]
        exact hother aggregate haggregate
      rw [Nat.zero_add, hsummarised, hunfiltered, hstale] at hround
      exact hround

theorem completed_tableOrderingSucceded (now : ℕ) (orderingTable : OrderingTable D R)
    (hget : state.tableComputations.get? tableId = some tableState) :
    (tableOrderingSucceded now tableId orderingTable state memory).1 = state ∨ ∃ tableState',
      (tableOrderingSucceded now tableId orderingTable state memory).1 =
          state.setTable tableId tableState' ∧
        Completed tableState tableState' ∧ tableState'.filterTable = tableState.filterTable := by
  unfold tableOrderingSucceded
  rw [hget]
  dsimp only
  split
  next => exact .inl rfl
  next =>
    split
    next => exact .inl rfl
    next orderingTask htask =>
      split
      next => exact .inl rfl
      next =>
        refine .inr ⟨_, rfl, ⟨rfl, rfl, ?_, id⟩, rfl⟩
        dsimp only
        rw [htask]
        rfl

/-- A filtered aggregate that is taken is marked unless it is of the installed filter. -/
theorem completed_filteredColumnAggregationSucceeded (now columnId : ℕ)
    (completedFilterVersion : ComputationStateVersion)
    (newColumnAggregate : Option (FilteredColumnAggregation D))
    (hget : state.tableComputations.get? tableId = some tableState) :
    (filteredColumnAggregationSucceeded now tableId columnId completedFilterVersion
        newColumnAggregate state memory).1 = state ∨ ∃ tableState',
      (filteredColumnAggregationSucceeded now tableId columnId completedFilterVersion
          newColumnAggregate state memory).1 = state.setTable tableId tableState' ∧
        Completed tableState tableState' ∧ tableState'.filterTable = tableState.filterTable := by
  unfold filteredColumnAggregationSucceeded
  rw [hget]
  dsimp only
  split
  next currentTask filterTable htask hfilter =>
    split
    next => exact .inl rfl
    next =>
      refine .inr ⟨_, rfl, ⟨rfl, rfl, rfl, ?_⟩, rfl⟩
      intro hmarked installed hinstalled column columnGroup hgroup hsummarised hunfiltered hother
      obtain rfl := some.inj (hfilter.symm.trans hinstalled)
      dsimp only at hother ⊢
      by_cases hcolumn : column = columnId
      · -- the column of the task
        have hstale : (newColumnAggregate.any fun aggregate =>
            aggregate.filterVersion.filterMatches filterTable.version) = false := by
          rw [any_eq_false]
          intro aggregate haggregate
          rw [← Bool.not_eq_true, ComputationStateVersion.filterMatches_iff]
          apply hother aggregate
          rw [SparseArray.slot_assign, if_pos hcolumn, haggregate]
        rw [hcolumn, getElem?_assign_self, hstale]
        rfl
      · have hkept := hmarked filterTable hfilter column columnGroup hgroup hsummarised
          hunfiltered fun aggregate haggregate => by
            apply hother aggregate
            rw [SparseArray.slot_assign, if_neg hcolumn, haggregate]
        rw [getElem?_assign_of_ne hcolumn (List.getElem?_eq_some_iff.mp hkept).1, hkept]
  next => exact .inl rfl

end Completions

/-! ## Descriptions -/

namespace Scheduler

variable {tableId taskId : ℕ} {scheduler : Scheduler D R}
  {tableState tableState' : TableComputationState D R} {process process' : Process D R}
  {latestFiltering : Option (ℕ × TableFilteringTask D R)}
  {latestOrdering : Option (TableOrderingTask D R)}

def updatedTable (create : Bool) (progress : TaskProgress) (value : TaskValue D R)
    (tableState : TableComputationState D R) : TableComputationState D R :=
  let version := updatedVersion create value tableState.version
  { tableState with
    version
    tasks := registerTask create version progress (stampTask create version value)
      tableState.tasks }

theorem version_updatedTable (progress : TaskProgress) (value : TaskValue D R)
    (tableState : TableComputationState D R) :
    (updatedTable false progress value tableState).version = tableState.version := by
  cases value <;> rfl

/-- The tasks in the places of a table describe the tasks that were scheduled last. -/
structure DescribedBy (latestFiltering : Option (ℕ × TableFilteringTask D R))
    (latestOrdering : Option (TableOrderingTask D R)) (tasks : TableComputationTasks D R) : Prop where
  filtering : ∀ latest, latestFiltering = some latest →
    ∃ current, tasks.filteringTask.map (·.task) = some current ∧ SameFiltering current latest.2
  ordering : ∀ latest, latestOrdering = some latest →
    ∃ current, tasks.orderingTask.map (·.task) = some current ∧ SameOrdering current latest

theorem describes_iff (hget : scheduler.table tableId = some tableState) :
    scheduler.Describes tableId ↔
      DescribedBy scheduler.latestFiltering scheduler.latestOrdering tableState.tasks := by
  have htasks : ∀ {T : Type} {task : Option (WithProgress T)} {p : T → Prop},
      (∃ current, task.map (·.task) = some current ∧ p current) ↔
        ∃ current, task = some current ∧ p current.task := by
    intro T task p
    cases task <;> simp
  constructor <;> intro h
  · exact ⟨fun latest hlatest => htasks.mpr (h.filtering tableState hget latest hlatest),
      fun latest hlatest => htasks.mpr (h.ordering tableState hget latest hlatest)⟩
  · constructor <;> intro found hfound latest hlatest <;>
      obtain rfl := some.inj (hget.symm.trans hfound)
    · exact htasks.mp (h.filtering latest hlatest)
    · exact htasks.mp (h.ordering latest hlatest)

/-- A completion leaves the tasks in the places as they are. -/
theorem describedBy_completed (hcompleted : Completed tableState tableState') :
    DescribedBy latestFiltering latestOrdering tableState'.tasks ↔
      DescribedBy latestFiltering latestOrdering tableState.tasks := by
  constructor <;> intro h
  · exact ⟨hcompleted.filteringTask ▸ h.filtering, hcompleted.orderingTask ▸ h.ordering⟩
  · exact ⟨hcompleted.filteringTask.symm ▸ h.filtering, hcompleted.orderingTask.symm ▸ h.ordering⟩

/-- An ordering task takes the place unless it is updated and the task there has other
constraints. -/
theorem registerTask_tableOrdering (create : Bool) (version : ComputationStateVersion)
    (progress : TaskProgress) (task : TableOrderingTask D R) (tasks : TableComputationTasks D R) :
    registerTask create version progress (.tableOrdering task) tasks =
      if (!create && tasks.orderingTask.any fun current =>
          !areOrderingConstraintsEqual current.task.orderingConstraints
            task.orderingConstraints) = true then tasks
      else
        { tasks with
          orderingTask := some
            { task := { task with tableVersion := version }
              progress := updateProgress tasks.orderingTask progress } } := by
  unfold registerTask
  dsimp only
  split
  next current hcurrent =>
    rw [hcurrent]
    rfl
  next hnone =>
    rw [hnone, any_none, Bool.and_false]
    rfl

theorem describedBy_update_iff (progress : TaskProgress) (value : TaskValue D R)
    (h : DescribedBy scheduler.latestFiltering scheduler.latestOrdering tableState.tasks) :
    DescribedBy scheduler.latestFiltering scheduler.latestOrdering
        (updatedTable false progress value tableState).tasks ↔
      scheduler.LikeLatest value := by
  cases value with
  | tableFiltering task =>
    constructor
    · intro hdescribed latest hlatest
      obtain ⟨current, hcurrent, hsame⟩ := hdescribed.filtering latest hlatest
      obtain rfl := some.inj hcurrent
      exact { hsame with }
    · intro hlike
      refine ⟨fun latest hlatest => ⟨_, rfl, ?_⟩, h.ordering⟩
      exact { hlike latest hlatest with }
  | tableOrdering task =>
    have htasks : (updatedTable false progress (.tableOrdering task) tableState).tasks = _ :=
      registerTask_tableOrdering false tableState.version progress task tableState.tasks
    rw [htasks]
    split_ifs with hother
    · -- the task in the place has other constraints
      rw [Bool.not_false, Bool.true_and, any_eq_true] at hother
      obtain ⟨current, hcurrent, hequal⟩ := hother
      refine iff_of_true h fun latest hlatest hequal' => ?_
      obtain ⟨found, hfound, hsame⟩ := h.ordering latest hlatest
      rw [hcurrent] at hfound
      obtain rfl := some.inj hfound
      rw [hsame.orderingConstraints, hequal'] at hequal
      cases hequal
    · rw [Bool.not_false, Bool.true_and, Bool.not_eq_true, any_eq_false] at hother
      constructor
      · intro hdescribed latest hlatest _
        obtain ⟨current, hcurrent, hsame⟩ := hdescribed.ordering latest hlatest
        obtain rfl := some.inj hcurrent
        exact { hsame with }
      · intro hlike
        refine ⟨h.filtering, fun latest hlatest => ⟨_, rfl, ?_⟩⟩
        obtain ⟨found, hfound, hsame⟩ := h.ordering latest hlatest
        obtain ⟨current, hcurrent, rfl⟩ := map_eq_some_iff.mp hfound
        have hequal := hother current hcurrent
        rw [hsame.orderingConstraints, Bool.not_eq_false'] at hequal
        exact { hlike latest hlatest hequal with }
  | _ => exact iff_of_true { h with } trivial

theorem keepsDescription_of_none {event : TaskEvent D R}
    (hupdated : scheduler.updatedTask event = none) : scheduler.KeepsDescription event := by
  intro value hvalue
  rw [hupdated] at hvalue
  cases hvalue

theorem keepsDescription_of_latest {event : TaskEvent D R} (taskId : ℕ)
    (task : TableFilteringTask D R) {latest : TableFilteringTask D R}
    (hupdated : scheduler.updatedTask event = some (.tableFiltering task))
    (hlatest : scheduler.latestFiltering = some (taskId, latest)) (hsame : SameFiltering task latest) :
    scheduler.KeepsDescription event := by
  intro value hvalue
  rw [hupdated] at hvalue
  obtain rfl := some.inj hvalue
  intro found hfound
  rw [hlatest] at hfound
  obtain rfl := some.inj hfound
  exact hsame

/-- The task that is scheduled is in its place. -/
theorem describedBy_filter (tableId : ℕ) (progress : TaskProgress)
    (task : TableFilteringTask D R) (taskId : ℕ)
    (h : DescribedBy latestFiltering latestOrdering tableState.tasks) :
    DescribedBy (some (taskId, task)) latestOrdering
      (updatedTable true progress (.tableFiltering { task with tableId }) tableState).tasks := by
  refine ⟨fun latest hlatest => ⟨_, rfl, ?_⟩, h.ordering⟩
  obtain rfl := some.inj hlatest
  exact ⟨rfl, rfl, rfl, rfl, rfl⟩

theorem describedBy_order (tableId : ℕ) (progress : TaskProgress) (task : TableOrderingTask D R)
    (h : DescribedBy latestFiltering latestOrdering tableState.tasks) :
    DescribedBy latestFiltering (some task)
      (updatedTable true progress (.tableOrdering { task with tableId }) tableState).tasks := by
  have htasks : (updatedTable true progress (.tableOrdering { task with tableId })
      tableState).tasks = _ :=
    registerTask_tableOrdering true tableState.version progress { task with tableId }
      tableState.tasks
  rw [htasks, Bool.not_true, Bool.false_and, if_neg Bool.false_ne_true]
  refine ⟨h.filtering, fun latest hlatest => ⟨_, rfl, ?_⟩⟩
  obtain rfl := some.inj hlatest
  exact ⟨rfl, rfl, rfl, rfl, rfl, rfl⟩

theorem table_of_set_or_same {state state' : ComputationState D R}
    {holds : TableComputationState D R → Prop}
    (hget : state.tableComputations.get? tableId = some tableState) (hself : holds tableState)
    (h : state' = state ∨ ∃ tableState', state' = state.setTable tableId tableState' ∧
      holds tableState') :
    state'.nextSchedulerTaskId = state.nextSchedulerTaskId ∧
      ∃ tableState', state'.tableComputations.get? tableId = some tableState' ∧
        holds tableState' := by
  obtain rfl | ⟨tableState', rfl, hholds⟩ := h
  · exact ⟨rfl, tableState, hget, hself⟩
  · exact ⟨rfl, tableState', get?_set_self, hholds⟩

theorem bind_stage_eq_none {found : Option (Process D R)} {stage : Stage}
    (hnone : ∀ task progress, found = some ⟨task, stage, progress⟩ → False) :
    (found.bind fun process => if process.stage = stage then some process.task.value else none) =
      none := by
  cases found with
  | none => rfl
  | some process =>
    refine if_neg fun hstage => hnone process.task process.progress ?_
    rw [← hstage]

/-! ## The table after an event -/

variable [DecidableEq D]

theorem updateTask_of_some {state : ComputationState D R} {task : TaskVariant D R}
    (progress : TaskProgress) (memory : DataFrameRegistry D) (create : Bool)
    (hget : state.tableComputations.get? task.value.tableId = some tableState) :
    (updateTask state task progress memory create).1 =
      { nextSchedulerTaskId :=
          if task.taskId.isNone then state.nextSchedulerTaskId + 1 else state.nextSchedulerTaskId
        schedulerTasks := state.schedulerTasks.set (task.taskId.getD state.nextSchedulerTaskId)
          { taskId := some (task.taskId.getD state.nextSchedulerTaskId)
            value := stampTask create (updatedVersion create task.value tableState.version)
              task.value }
        tableComputations := state.tableComputations.set task.value.tableId
          (updatedTable create progress task.value tableState) } := by
  unfold updateTask
  rw [hget]
  rfl

structure Scheduled (now tableId : ℕ) (value : TaskValue D R) (tableState : TableComputationState D R)
    (scheduler : Scheduler D R) : Prop where
  nextSchedulerTaskId : (scheduler.schedule now value).state.nextSchedulerTaskId =
    scheduler.state.nextSchedulerTaskId + 1
  table : (scheduler.schedule now value).table tableId =
    some (updatedTable true (initialProgress now) value tableState)
  processes : (scheduler.schedule now value).processes =
    scheduler.processes.set scheduler.state.nextSchedulerTaskId
      { task :=
          { taskId := some scheduler.state.nextSchedulerTaskId
            value := stampTask true (updatedVersion true value tableState.version) value }
        stage := .scheduled }

theorem scheduled (now : ℕ) (value : TaskValue D R) (hvalue : value.tableId = tableId)
    (hget : scheduler.table tableId = some tableState) :
    Scheduled now tableId value tableState scheduler := by
  have hon : scheduler.table value.tableId = some tableState := hvalue ▸ hget
  have hreduced : (updateTask scheduler.state { value } _ _ _).1 = _ :=
    updateTask_of_some (initialProgress now) scheduler.memory true hon
  have hstate : (scheduler.schedule now value).state =
      (updateTask scheduler.state { value } (initialProgress now) scheduler.memory true).1 := rfl
  refine ⟨?_, ?_, ?_⟩
  · rw [hstate, hreduced]
    rfl
  · rw [table, hstate, hreduced, ← hvalue]
    exact get?_set_self
  · have hentry : (reduceComputationState now (.scheduleTask { value }) scheduler.state
        scheduler.memory).1.schedulerTasks.get? scheduler.state.nextSchedulerTaskId =
        some { taskId := some scheduler.state.nextSchedulerTaskId
               value := stampTask true (updatedVersion true value tableState.version) value } := by
      change (updateTask scheduler.state { value } (initialProgress now) scheduler.memory
        true).1.schedulerTasks.get? _ = _
      rw [hreduced]
      exact get?_set_self
    unfold schedule
    dsimp only
    rw [hentry]

/-! ## What holds in every run -/

/-- A task in flight: it has an id that was given out, it is on the table, and a filtering task has
the version of the table only if it is the latest. -/
structure InFlight (tableId : ℕ) (scheduler : Scheduler D R)
    (tableState : TableComputationState D R) (taskId : ℕ) (task : TaskVariant D R) : Prop where
  given : taskId < scheduler.state.nextSchedulerTaskId
  allocated : task.taskId = some taskId
  onTable : task.value.tableId = tableId
  version : ∀ filtering, task.value = .tableFiltering filtering →
    filtering.tableVersion.data = tableState.version.data ∧
      filtering.tableVersion.filter ≤ tableState.version.filter ∧
      (filtering.tableVersion.filter = tableState.version.filter →
        ∃ latest, scheduler.latestFiltering = some (taskId, latest))

/-- The table is there, its outdated aggregates are marked, and so are the tasks in flight. -/
structure WellFormed (tableId : ℕ) (scheduler : Scheduler D R) : Prop where
  table : ∃ tableState, scheduler.table tableId = some tableState ∧ tableState.Marked ∧
    ∀ taskId process, scheduler.processes.get? taskId = some process →
      InFlight tableId scheduler tableState taskId process.task

theorem WellFormed.dispatch {now : ℕ} {action : ComputationAction D R}
    (h : scheduler.WellFormed tableId) (hget : scheduler.table tableId = some tableState)
    (hprocess : scheduler.processes.get? taskId = some process) (htask : process'.task = process.task)
    (hnext : (scheduler.dispatch now action taskId process').state.nextSchedulerTaskId =
      scheduler.state.nextSchedulerTaskId)
    (hget' : (scheduler.dispatch now action taskId process').table tableId = some tableState')
    (hversion : tableState'.version = tableState.version)
    (hmarked : tableState.Marked → tableState'.Marked) :
    (scheduler.dispatch now action taskId process').WellFormed tableId := by
  obtain ⟨found, hfound, hfoundMarked, hflights⟩ := h.table
  obtain rfl := some.inj (hget.symm.trans hfound)
  refine ⟨tableState', hget', hmarked hfoundMarked, ?_⟩
  intro other otherProcess hother
  -- the task of the process is in flight as before
  have hflight : InFlight tableId scheduler tableState other otherProcess.task := by
    change (scheduler.processes.set taskId process').get? other = some otherProcess at hother
    rw [get?_set] at hother
    split_ifs at hother with heq
    · obtain rfl := some.inj hother
      rw [htask, heq]
      exact hflights taskId process hprocess
    · exact hflights other otherProcess hother
  exact
    { given := hnext ▸ hflight.given
      allocated := hflight.allocated
      onTable := hflight.onTable
      version := fun filtering hvalue => hversion ▸ hflight.version filtering hvalue }

theorem WellFormed.schedule {now : ℕ} {scheduler' : Scheduler D R}
    (h : scheduler.WellFormed tableId) (value : TaskValue D R) (hvalue : value.tableId = tableId)
    (hstate : scheduler'.state = (scheduler.schedule now value).state)
    (hprocesses : scheduler'.processes = (scheduler.schedule now value).processes)
    (hlatest : ∀ filtering, value = .tableFiltering filtering →
      ∃ latest, scheduler'.latestFiltering = some (scheduler.state.nextSchedulerTaskId, latest))
    (hkept : (∀ filtering, value ≠ .tableFiltering filtering) →
      scheduler'.latestFiltering = scheduler.latestFiltering) :
    scheduler'.WellFormed tableId := by
  obtain ⟨tableState, hget, hmarked, hflights⟩ := h.table
  have hscheduled := scheduled now value hvalue hget
  have hget' : scheduler'.table tableId =
      some (updatedTable true (initialProgress now) value tableState) := by
    rw [Scheduler.table, hstate]
    exact hscheduled.table
  have hnext : scheduler'.state.nextSchedulerTaskId = scheduler.state.nextSchedulerTaskId + 1 := by
    rw [hstate, hscheduled.nextSchedulerTaskId]
  refine ⟨_, hget', hmarked, ?_⟩
  intro taskId process hprocess
  rw [hprocesses, hscheduled.processes, get?_set] at hprocess
  split_ifs at hprocess with heq
  · obtain rfl := some.inj hprocess
    refine ⟨?_, by rw [heq], ?_, ?_⟩
    · rw [heq, hnext]
      exact Nat.lt_succ_self _
    · rw [← hvalue]
      cases value <;> rfl
    · intro filtering hfiltering
      cases value with
      | tableFiltering task =>
        obtain rfl := TaskValue.tableFiltering.inj hfiltering
        exact ⟨rfl, le_rfl, fun _ => heq ▸ hlatest task rfl⟩
      | _ => cases hfiltering
  · have hflight := hflights taskId process hprocess
    refine ⟨hnext ▸ Nat.lt_succ_of_lt hflight.given, hflight.allocated, hflight.onTable, ?_⟩
    intro filtering hfiltering
    obtain ⟨hdata, hle, heqLatest⟩ := hflight.version filtering hfiltering
    by_cases hnew : ∃ task, value = .tableFiltering task
    · -- the version of the table is above all that were given out
      obtain ⟨task, rfl⟩ := hnew
      refine ⟨hdata, Nat.le_succ_of_le hle, fun hsame => ?_⟩
      have hnew : filtering.tableVersion.filter = tableState.version.filter + 1 := hsame
      omega
    · have hversion : updatedVersion true value tableState.version = tableState.version := by
        cases value with
        | tableFiltering task => exact absurd ⟨task, rfl⟩ hnew
        | _ => rfl
      change filtering.tableVersion.data = (updatedVersion true value _).data ∧
        filtering.tableVersion.filter ≤ (updatedVersion true value _).filter ∧
        (filtering.tableVersion.filter = (updatedVersion true value _).filter → _)
      rw [hversion, hkept fun task htask => hnew ⟨task, htask⟩]
      exact ⟨hdata, hle, heqLatest⟩

/-! ## Messages of a task in flight -/

/-- What the update of a task in flight does. -/
structure Updated (tableId : ℕ) (progress : TaskProgress) (value : TaskValue D R)
    (tableState : TableComputationState D R) (scheduler scheduler' : Scheduler D R) : Prop where
  nextSchedulerTaskId : scheduler'.state.nextSchedulerTaskId = scheduler.state.nextSchedulerTaskId
  table : scheduler'.table tableId = some (updatedTable false progress value tableState)
  latestFiltering : scheduler'.latestFiltering = scheduler.latestFiltering
  latestOrdering : scheduler'.latestOrdering = scheduler.latestOrdering

theorem updated_dispatch (now : ℕ) (progress : TaskProgress) (process' : Process D R)
    (hget : scheduler.table tableId = some tableState)
    (hflight : InFlight tableId scheduler tableState taskId process.task) :
    Updated tableId progress process.task.value tableState scheduler
      (scheduler.dispatch now (.updateSchedulerTask process.task progress) taskId process') := by
  have hstate : (scheduler.dispatch now (.updateSchedulerTask process.task progress) taskId
      process').state =
        (updateTask scheduler.state process.task progress scheduler.memory false).1 := rfl
  have hon : scheduler.table process.task.value.tableId = some tableState := hflight.onTable ▸ hget
  have hreduced := updateTask_of_some progress scheduler.memory false hon
  refine ⟨?_, ?_, rfl, rfl⟩
  · rw [hstate, hreduced, hflight.allocated]
    rfl
  · rw [Scheduler.table, hstate, hreduced, ← hflight.onTable]
    exact get?_set_self

/-- A completion installs a filter only if the task has the version of the table. -/
def Installed (value : TaskValue D R) (tableState tableState' : TableComputationState D R) : Prop :=
  tableState'.filterTable = tableState.filterTable ∨
    ∃ filtering, value = .tableFiltering filtering ∧ filtering.tableVersion = tableState.version

/-- What the completion of a task in flight does. -/
theorem completed_succeededAction (now : ℕ) {value : TaskValue D R} {dataTable : ArrowTable R}
    {dataFrame : D} {action : ComputationAction D R} {state : ComputationState D R}
    (memory : DataFrameRegistry D) (hvalue : value.tableId = tableId)
    (hget : state.tableComputations.get? tableId = some tableState)
    (haction : succeededAction value dataTable dataFrame = some action) :
    (reduceComputationState now action state memory).1.nextSchedulerTaskId =
        state.nextSchedulerTaskId ∧
      ∃ tableState', (reduceComputationState now action state memory).1.tableComputations.get?
          tableId = some tableState' ∧
        Completed tableState tableState' ∧ Installed value tableState tableState' := by
  refine table_of_set_or_same hget ⟨.refl tableState, .inl rfl⟩ ?_
  subst hvalue
  cases value with
  | tableFiltering task =>
    obtain rfl := some.inj haction
    have hcases := completed_tableFilteringSucceeded memory now task.tableVersion
      (filterTable task dataTable dataFrame) hget
    refine hcases.imp_right fun h => ?_
    obtain ⟨hversion, tableState', hstate', hcompleted⟩ := h
    exact ⟨tableState', hstate', hcompleted, .inr ⟨task, rfl, hversion⟩⟩
  | tableOrdering task =>
    obtain rfl := some.inj haction
    have hcases := completed_tableOrderingSucceded memory now
      (sortTable task dataTable dataFrame) hget
    refine hcases.imp_right fun h => ?_
    obtain ⟨tableState', hstate', hcompleted, hfilter⟩ := h
    exact ⟨tableState', hstate', hcompleted, .inl hfilter⟩
  | filteredColumnAggregation task =>
    obtain ⟨aggregate, -, rfl⟩ := map_eq_some_iff.mp haction
    have hcases := completed_filteredColumnAggregationSucceeded memory now
      task.columnId task.filterTable.version (some aggregate) hget
    refine hcases.imp_right fun h => ?_
    obtain ⟨tableState', hstate', hcompleted, hfilter⟩ := h
    exact ⟨tableState', hstate', hcompleted, .inl hfilter⟩
  | _ => cases haction

theorem unregistered (now taskId : ℕ) (task : TaskVariant D R) (process' : Process D R)
    (hget : scheduler.table tableId = some tableState) :
    (scheduler.dispatch now (.unregisterSchedulerTask task) taskId
        process').state.nextSchedulerTaskId = scheduler.state.nextSchedulerTaskId ∧
      (scheduler.dispatch now (.unregisterSchedulerTask task) taskId process').table tableId =
        some tableState := by
  unfold Scheduler.dispatch reduceComputationState Scheduler.table
  dsimp only
  split <;> exact ⟨rfl, hget⟩

/-! ## Steps -/

/-- What a step can do. -/
inductive Stepped (tableId : ℕ) (event : ℕ × TaskEvent D R) (scheduler : Scheduler D R) :
    Scheduler D R → Prop
  | same (hupdated : scheduler.updatedTask event.2 = none) :
      Stepped tableId event scheduler scheduler
  | filter {task : TableFilteringTask D R} (hevent : event.2 = .filter task) :
      Stepped tableId event scheduler
        { scheduler.schedule event.1 (.tableFiltering { task with tableId }) with
          latestFiltering := some (scheduler.state.nextSchedulerTaskId, task) }
  | order {task : TableOrderingTask D R} (hevent : event.2 = .order task) :
      Stepped tableId event scheduler
        { scheduler.schedule event.1 (.tableOrdering { task with tableId }) with
          latestOrdering := some task }
  | aggregate {task : FilteredColumnAggregationTask D R} (hevent : event.2 = .aggregate task) :
      Stepped tableId event scheduler
        (scheduler.schedule event.1 (.filteredColumnAggregation { task with tableId }))
  | update {taskId : ℕ} {process process' : Process D R} {progress : TaskProgress}
      (hupdated : scheduler.updatedTask event.2 = some process.task.value)
      (hprocess : scheduler.processes.get? taskId = some process)
      (htask : process'.task = process.task) :
      Stepped tableId event scheduler
        (scheduler.dispatch event.1 (.updateSchedulerTask process.task progress) taskId process')
  | complete {taskId : ℕ} {process process' : Process D R} {dataTable : ArrowTable R}
      {dataFrame : D} {action : ComputationAction D R}
      (hevent : event.2 = .succeed taskId dataTable dataFrame)
      (hprocess : scheduler.processes.get? taskId = some process)
      (htask : process'.task = process.task)
      (haction : succeededAction process.task.value dataTable dataFrame = some action) :
      Stepped tableId event scheduler (scheduler.dispatch event.1 action taskId process')
  | unregister {taskId : ℕ} {process process' : Process D R}
      (hevent : event.2 = .unregister taskId)
      (hprocess : scheduler.processes.get? taskId = some process)
      (htask : process'.task = process.task) :
      Stepped tableId event scheduler
        (scheduler.dispatch event.1 (.unregisterSchedulerTask process.task) taskId process')

theorem stepped_step (tableId : ℕ) (event : ℕ × TaskEvent D R) (scheduler : Scheduler D R) :
    Stepped tableId event scheduler (scheduler.step tableId event) := by
  obtain ⟨now, event⟩ := event
  cases event with
  | filter task => exact .filter rfl
  | order task => exact .order rfl
  | aggregate task => exact .aggregate rfl
  | launch taskId =>
    unfold step
    dsimp only
    split
    next task progress hprocess =>
      refine .update ?_ hprocess rfl
      simp [updatedTask, hprocess]
    next hnone => exact .same (bind_stage_eq_none hnone)
  | succeed taskId dataTable dataFrame =>
    unfold step
    dsimp only
    split
    next task progress hprocess =>
      split
      next action haction => exact .complete rfl hprocess rfl haction
      next => exact .same rfl
    next => exact .same rfl
  | fail taskId error =>
    unfold step
    dsimp only
    split
    next task progress hprocess =>
      refine .update ?_ hprocess rfl
      simp [updatedTask, hprocess]
    next hnone => exact .same (bind_stage_eq_none hnone)
  | unregister taskId =>
    unfold step
    dsimp only
    split
    next task progress hprocess => exact .unregister rfl hprocess rfl
    next => exact .same rfl

theorem wellFormed_step (event : ℕ × TaskEvent D R) (h : scheduler.WellFormed tableId) :
    (scheduler.step tableId event).WellFormed tableId := by
  have hstepped := stepped_step tableId event scheduler
  generalize scheduler.step tableId event = scheduler' at hstepped
  obtain ⟨tableState, hget, hmarked, hflights⟩ := h.table
  cases hstepped with
  | same => exact h
  | @filter task =>
    exact h.schedule (.tableFiltering { task with tableId }) rfl rfl rfl (fun _ _ => ⟨task, rfl⟩)
      fun hother => absurd rfl (hother _)
  | @order task =>
    exact h.schedule (.tableOrdering { task with tableId }) rfl rfl rfl
      (fun _ hfiltering => absurd hfiltering (by simp)) fun _ => rfl
  | @aggregate task =>
    exact h.schedule (.filteredColumnAggregation { task with tableId }) rfl rfl rfl
      (fun _ hfiltering => absurd hfiltering (by simp)) fun _ => rfl
  | @update taskId process process' progress hupdated hprocess htask =>
    have hupdate := updated_dispatch event.1 progress process' hget
      (hflights taskId process hprocess)
    exact h.dispatch hget hprocess htask hupdate.nextSchedulerTaskId hupdate.table
      (version_updatedTable progress _ tableState) id
  | @complete taskId process process' dataTable dataFrame action hevent hprocess htask haction =>
    obtain ⟨hnext, tableState', hget', hcompleted, -⟩ := completed_succeededAction event.1
      scheduler.memory (hflights taskId process hprocess).onTable hget haction
    exact h.dispatch hget hprocess htask hnext hget' hcompleted.version hcompleted.marked
  | @unregister taskId process process' hevent hprocess htask =>
    obtain ⟨hnext, hget'⟩ := unregistered event.1 taskId process.task process' hget
    exact h.dispatch hget hprocess htask hnext hget' rfl id

/-! ## Runs -/

/-- A step keeps the description of the latest tasks exactly if it does not put an older task into
the place of the latest. -/
theorem describes_step_iff (event : ℕ × TaskEvent D R) (h : scheduler.WellFormed tableId)
    (hdescribes : scheduler.Describes tableId) :
    (scheduler.step tableId event).Describes tableId ↔ scheduler.KeepsDescription event.2 := by
  have hstepped := stepped_step tableId event scheduler
  generalize scheduler.step tableId event = scheduler' at hstepped
  obtain ⟨tableState, hget, hmarked, hflights⟩ := h.table
  have hdescribed := (describes_iff hget).mp hdescribes
  cases hstepped with
  | same hupdated => exact iff_of_true hdescribes (keepsDescription_of_none hupdated)
  | @filter task hevent =>
    refine iff_of_true ?_ (keepsDescription_of_none (by rw [hevent]; rfl))
    have hget' := (scheduled event.1 (.tableFiltering { task with tableId }) rfl hget).table
    exact (describes_iff (by exact hget')).mpr (describedBy_filter tableId _ task _ hdescribed)
  | @order task hevent =>
    refine iff_of_true ?_ (keepsDescription_of_none (by rw [hevent]; rfl))
    have hget' := (scheduled event.1 (.tableOrdering { task with tableId }) rfl hget).table
    exact (describes_iff (by exact hget')).mpr (describedBy_order tableId _ task hdescribed)
  | @aggregate task hevent =>
    refine iff_of_true ?_ (keepsDescription_of_none (by rw [hevent]; rfl))
    have hget' :=
      (scheduled event.1 (.filteredColumnAggregation { task with tableId }) rfl hget).table
    exact (describes_iff hget').mpr { hdescribed with }
  | @update taskId process process' progress hupdated hprocess htask =>
    have hupdate := updated_dispatch event.1 progress process' hget
      (hflights taskId process hprocess)
    rw [describes_iff hupdate.table, hupdate.latestFiltering, hupdate.latestOrdering,
      describedBy_update_iff progress _ hdescribed]
    constructor
    · intro hlike value hvalue
      rw [hupdated] at hvalue
      exact some.inj hvalue ▸ hlike
    · intro hkeeps
      exact hkeeps _ hupdated
  | @complete taskId process process' dataTable dataFrame action hevent hprocess htask haction =>
    refine iff_of_true ?_ (keepsDescription_of_none (by rw [hevent]; rfl))
    obtain ⟨-, tableState', hget', hcompleted, -⟩ := completed_succeededAction event.1
      scheduler.memory (hflights taskId process hprocess).onTable hget haction
    have hdescribed' := (describedBy_completed hcompleted).mpr hdescribed
    have hreached : (scheduler.dispatch event.1 action taskId process').table tableId =
        some tableState' := hget'
    exact (describes_iff hreached).mpr hdescribed'
  | @unregister taskId process process' hevent hprocess htask =>
    refine iff_of_true ?_ (keepsDescription_of_none (by rw [hevent]; rfl))
    have hget' := (unregistered event.1 taskId process.task process' hget).2
    exact (describes_iff hget').mpr hdescribed

theorem installsLatest_step (event : ℕ × TaskEvent D R) (h : scheduler.WellFormed tableId) :
    scheduler.InstallsLatest tableId event := by
  intro tableState tableState' hget hget'
  have hstepped := stepped_step tableId event scheduler
  generalize scheduler.step tableId event = scheduler' at hstepped hget'
  obtain ⟨found, hfound, hmarked, hflights⟩ := h.table
  obtain rfl := some.inj (hget.symm.trans hfound)
  cases hstepped with
  | same => exact .inl (congrArg _ (some.inj (hget'.symm.trans hget)))
  | @filter task hevent =>
    have hset := (scheduled event.1 (.tableFiltering { task with tableId }) rfl hget).table
    exact .inl (congrArg (·.filterTable) (some.inj (hget'.symm.trans hset)))
  | @order task hevent =>
    have hset := (scheduled event.1 (.tableOrdering { task with tableId }) rfl hget).table
    exact .inl (congrArg (·.filterTable) (some.inj (hget'.symm.trans hset)))
  | @aggregate task hevent =>
    have hset :=
      (scheduled event.1 (.filteredColumnAggregation { task with tableId }) rfl hget).table
    exact .inl (congrArg (·.filterTable) (some.inj (hget'.symm.trans hset)))
  | @update taskId process process' progress hupdated hprocess htask =>
    have hupdate := updated_dispatch event.1 progress process' hget
      (hflights taskId process hprocess)
    exact .inl (congrArg (·.filterTable) (some.inj (hget'.symm.trans hupdate.table)))
  | @complete taskId process process' dataTable dataFrame action hevent hprocess htask haction =>
    have hflight := hflights taskId process hprocess
    obtain ⟨-, completed, hcompleted, -, hinstalled⟩ := completed_succeededAction event.1
      scheduler.memory hflight.onTable hget haction
    obtain rfl := some.inj (hget'.symm.trans hcompleted)
    refine hinstalled.imp_right fun hnew => ?_
    obtain ⟨filtering, hvalue, hversion⟩ := hnew
    -- a task with the version of the table is the latest
    obtain ⟨latest, hlatest⟩ :=
      (hflight.version filtering hvalue).2.2 (congrArg (·.filter) hversion)
    exact ⟨taskId, dataTable, dataFrame, latest, hevent, hlatest⟩
  | @unregister taskId process process' hevent hprocess htask =>
    have hsame := (unregistered event.1 taskId process.task process' hget).2
    exact .inl (congrArg (·.filterTable) (some.inj (hget'.symm.trans hsame)))

omit [DecidableEq D] in
/-- A scheduler without tasks in flight. -/
theorem wellFormed_start {state : ComputationState D R} {memory : DataFrameRegistry D}
    (hget : state.tableComputations.get? tableId = some tableState) (hmarked : tableState.Marked) :
    WellFormed tableId { state, memory } :=
  ⟨tableState, hget, hmarked, fun _ _ hprocess => absurd hprocess (some_ne_none _).symm⟩

theorem wellFormed_of_run {events : List (ℕ × TaskEvent D R)} (h : scheduler.WellFormed tableId) :
    (replay (step tableId) events scheduler).WellFormed tableId := by
  induction events generalizing scheduler with
  | nil => exact h
  | cons event events ih => exact ih (wellFormed_step event h)

/-- On a table whose outdated aggregates are marked, they are marked all along, no result of an
older filtering task is installed, and the places always describe the latest tasks, exactly if no
message of an older task comes that changes the description. -/
theorem described_of_run_iff (events : List (ℕ × TaskEvent D R)) {state : ComputationState D R}
    (memory : DataFrameRegistry D)
    (hget : state.tableComputations.get? tableId = some tableState) (hmarked : tableState.Marked) :
    (∀ front back, events = front ++ back →
        (replay (step tableId) front { state, memory }).Describes tableId ∧
          (∃ reached, (replay (step tableId) front { state, memory }).table tableId = some reached ∧
            reached.Marked) ∧
          ∀ event rest, back = event :: rest →
            (replay (step tableId) front { state, memory }).InstallsLatest tableId event) ↔
      ReplayMeets (step tableId) (fun event scheduler => scheduler.KeepsDescription event.2) events
        { state, memory } := by
  have hfirst : WellFormed tableId { state, memory } := wellFormed_start hget hmarked
  have hstep : ∀ (event : ℕ × TaskEvent D R) (scheduler : Scheduler D R),
      scheduler.WellFormed tableId ∧ scheduler.Describes tableId →
      ((scheduler.step tableId event).WellFormed tableId ∧
        (scheduler.step tableId event).Describes tableId ↔ scheduler.KeepsDescription event.2) := by
    intro event scheduler h
    rw [and_iff_right (wellFormed_step event h.1), describes_step_iff event h.1 h.2]
  have hdescribes : Describes tableId { state, memory } :=
    ⟨fun _ _ _ hlatest => absurd hlatest (some_ne_none _).symm,
      fun _ _ _ hlatest => absurd hlatest (some_ne_none _).symm⟩
  rw [← replay_invariant_iff (fun scheduler : Scheduler D R =>
    scheduler.WellFormed tableId ∧ scheduler.Describes tableId) hstep ⟨hfirst, hdescribes⟩]
  constructor
  · intro h front back hsplit
    exact ⟨wellFormed_of_run hfirst, (h front back hsplit).1⟩
  · intro h front back hsplit
    obtain ⟨hwellFormed, hreached⟩ := h front back hsplit
    obtain ⟨reached, hget', hmarked', -⟩ := hwellFormed.table
    exact ⟨hreached, ⟨reached, hget', hmarked'⟩,
      fun event _ _ => installsLatest_step event hwellFormed⟩

/-! ## Two filtering tasks -/

omit [DecidableEq D] in
/-- A task with other filters than the latest does not describe it. -/
theorem not_describes_of_filters_ne {filters filters' : List ScalarFilter}
    (hlatest : scheduler.latestFiltering.map (·.2.filters) = some filters)
    (hplace : (scheduler.table tableId).bind (fun tableState =>
      tableState.tasks.filteringTask.map (·.task.filters)) = some filters')
    (hne : filters' ≠ filters) : ¬ scheduler.Describes tableId := by
  intro hdescribes
  obtain ⟨latest, hlatest, hnewer⟩ := map_eq_some_iff.mp hlatest
  obtain ⟨tableState, hget, htask⟩ := bind_eq_some_iff.mp hplace
  obtain ⟨current, hcurrent, hsame⟩ := hdescribes.filtering tableState hget latest hlatest
  rw [hcurrent] at htask
  exact hne ((some.inj htask).symm.trans (hsame.filters.trans hnewer))

def sampleFiltering (filters : List ScalarFilter) : TableFilteringTask ℕ Unit where
  tableId := 1
  tableVersion := {}
  inputDataTable := ⟨[['a']], ()⟩
  inputDataTableFieldIndex := .empty
  inputDataFrame := 7
  rowNumberColumnName := ['n']
  filters

def sampleState : ComputationState ℕ Unit where
  tableComputations :=
    InsertionMap.empty.set 1 (createTableComputationState 1 ⟨[['a']], ()⟩ [.ordinal])

theorem marked_sample : TableComputationState.Marked
    (createTableComputationState 1 ⟨[['a']], ()⟩ [.ordinal] : TableComputationState ℕ Unit) :=
  fun _ hfilter => absurd hfilter (some_ne_none _).symm

/-- The first filtering task is launched before the second one is scheduled, and completes after
it. -/
theorem described_when_launched_in_order :
    let older : TaskEvent ℕ Unit := .filter (sampleFiltering [⟨['a'], .less, 1⟩])
    let newer : TaskEvent ℕ Unit := .filter (sampleFiltering [⟨['a'], .less, 2⟩])
    let events := [(0, older), (1, .launch 1), (2, newer), (3, .launch 2),
      (4, .succeed 1 ⟨[['n']], ()⟩ 8), (5, .succeed 2 ⟨[['n']], ()⟩ 9)]
    let start : Scheduler ℕ Unit := { state := sampleState, memory := ⟨.empty, []⟩ }
    ∀ front back, events = front ++ back → (replay (step 1) front start).Describes 1 := by
  intro older newer events start front back hsplit
  refine ((described_of_run_iff events start.memory
    (get?_set_self (m := .empty)) marked_sample).mpr ?_ front back hsplit).1
  refine ⟨?_, ?_, ?_, ?_, ?_, ?_, trivial⟩
  · exact keepsDescription_of_none rfl
  · exact keepsDescription_of_latest 1
      { sampleFiltering [⟨['a'], .less, 1⟩] with tableVersion := ⟨0, 1⟩ } rfl rfl
      ⟨rfl, rfl, rfl, rfl, rfl⟩
  · exact keepsDescription_of_none rfl
  · exact keepsDescription_of_latest 2
      { sampleFiltering [⟨['a'], .less, 2⟩] with tableVersion := ⟨0, 2⟩ } rfl rfl
      ⟨rfl, rfl, rfl, rfl, rfl⟩
  · exact keepsDescription_of_none rfl
  · exact keepsDescription_of_none rfl

/-- The older of two filtering tasks fails last, and takes the place of the newer. -/
theorem described_lost_with_late_failure :
    let older := sampleFiltering [⟨['a'], .less, 1⟩]
    let newer := sampleFiltering [⟨['a'], .less, 2⟩]
    let events : List (ℕ × TaskEvent ℕ Unit) :=
      [(0, .filter older), (1, .launch 1), (2, .filter newer), (3, .launch 2), (4, .fail 1 [])]
    let start : Scheduler ℕ Unit := { state := sampleState, memory := ⟨.empty, []⟩ }
    ¬ (replay (step 1) events start).Describes 1 ∧
      (replay (step 1) events start).latestFiltering.map (·.2.filters) = some newer.filters ∧
      ((replay (step 1) events start).table 1).bind (fun tableState =>
        tableState.tasks.filteringTask.map (·.task.filters)) = some older.filters := by
  intro older newer events start
  have hlatest : (replay (step 1) events start).latestFiltering.map (·.2.filters) =
      some newer.filters := by decide +kernel
  have hplace : ((replay (step 1) events start).table 1).bind (fun tableState =>
      tableState.tasks.filteringTask.map (·.task.filters)) = some older.filters := by decide +kernel
  exact ⟨not_describes_of_filters_ne hlatest hplace (by decide), hlatest, hplace⟩

end Scheduler

end DashQL.Compute
