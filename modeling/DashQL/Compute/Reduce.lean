import DashQL.Compute.State

/-!
# The computation reducer

`reduceComputationState` with the registry of data frames that it acquires and releases by hand.
The registry is changed also where the reducer returns the state as it was.
-/

namespace DashQL.Compute

open Storage (Text)

open SparseArray (assign slot)

variable {D R : Type} [DecidableEq D]

/-! ## The data frame registry -/

abbrev DataFrameRegistry (D : Type) := CountRegistry D

namespace DataFrameRegistry

/-- `acquire`, which does nothing without a data frame. -/
def acquire (memory : DataFrameRegistry D) (dataFrame : Option D) (times : ℕ+ := 1) :
    DataFrameRegistry D :=
  match dataFrame with
  | some dataFrame => CountRegistry.acquire dataFrame times memory
  | none => memory

def release (memory : DataFrameRegistry D) (dataFrame : Option D) : DataFrameRegistry D :=
  match dataFrame with
  | some dataFrame => CountRegistry.release dataFrame memory
  | none => memory

def releaseMany (memory : DataFrameRegistry D) (dataFrames : List (Option D)) :
    DataFrameRegistry D :=
  dataFrames.foldl release memory

end DataFrameRegistry

open DataFrameRegistry

def ColumnAggregationVariant.dataFrame : ColumnAggregationVariant D → Option D
  | .ordinal binnedDataFrame => some binnedDataFrame
  | .string frequentValuesDataFrame => some frequentValuesDataFrame
  | .list frequentValuesDataFrame => some frequentValuesDataFrame
  | .skipped => none

def acquireColumnAggregate (aggregate : Option (ColumnAggregationVariant D))
    (memory : DataFrameRegistry D) (times : ℕ+ := 1) : DataFrameRegistry D :=
  memory.acquire (aggregate.bind (·.dataFrame)) times

def releaseColumnAggregate (aggregate : Option (ColumnAggregationVariant D))
    (memory : DataFrameRegistry D) : DataFrameRegistry D :=
  memory.release (aggregate.bind (·.dataFrame))

def releaseColumnAggregates (aggregates : List (Option (ColumnAggregationVariant D)))
    (memory : DataFrameRegistry D) : DataFrameRegistry D :=
  aggregates.foldl (fun memory aggregate => releaseColumnAggregate aggregate memory) memory

/-- The aggregates without the versions of their filters. -/
def plainAggregates (aggregates : List (Option (FilteredColumnAggregation D))) :
    List (Option (ColumnAggregationVariant D)) :=
  aggregates.map fun aggregate => aggregate.map (·.aggregate)

def destroyTableComputationState (state : TableComputationState D R)
    (memory : DataFrameRegistry D) : DataFrameRegistry D :=
  let memory := memory.release state.dataFrame
  let memory := memory.release (state.filterTable.map (·.dataFrame))
  let memory := memory.release (state.orderingTable.map (·.dataFrame))
  let memory := memory.release (state.tableAggregation.map (·.dataFrame))
  let memory := releaseColumnAggregates state.columnAggregates memory
  let memory := releaseColumnAggregates (plainAggregates state.filteredColumnAggregates) memory
  let memory := memory.release (state.tasks.filteringTask.map (·.task.inputDataFrame))
  let memory := memory.release (state.tasks.orderingTask.map (·.task.inputDataFrame))
  let memory := memory.release (state.tasks.orderingTask.bind fun task =>
    task.task.filterTable.map (·.dataFrame))
  let memory := memory.release (state.tasks.tableAggregationTask.map (·.task.inputDataFrame))
  let memory := memory.release (state.tasks.systemColumnTask.map (·.task.inputDataFrame))
  let memory := memory.releaseMany (state.tasks.columnAggregationTasks.map fun task =>
    task.map (·.task.inputDataFrame))
  state.tasks.filteredColumnAggregationTasks.foldl
    (fun memory task =>
      releaseColumnAggregate (task.map (·.task.unfilteredAggregate))
        (memory.release (task.map (·.task.filterTable.dataFrame))))
    memory

/-! ## Tasks -/

/-- What `updateTask` acquires for a task that is scheduled: everything twice, for the scheduler
and for the table. -/
def acquireTask (value : TaskValue D R) (memory : DataFrameRegistry D) : DataFrameRegistry D :=
  match value with
  | .tableFiltering task => memory.acquire (some task.inputDataFrame) 2
  | .tableOrdering task =>
    let memory := memory.acquire (some task.inputDataFrame) 2
    memory.acquire (task.filterTable.map (·.dataFrame)) 2
  | .tableAggregation task => memory.acquire (some task.inputDataFrame) 2
  | .systemColumnComputation task =>
    let memory := memory.acquire (some task.inputDataFrame) 2
    memory.acquire (some task.tableAggregate.dataFrame) 2
  | .columnAggregation task =>
    let memory := memory.acquire (some task.inputDataFrame) 2
    memory.acquire (some task.tableAggregate.dataFrame) 2
  | .filteredColumnAggregation task =>
    let memory := memory.acquire (some task.inputDataFrame) 2
    let memory := memory.acquire (some task.filterTable.dataFrame) 2
    let memory := memory.acquire (some task.tableAggregate.dataFrame) 2
    acquireColumnAggregate (some task.unfilteredAggregate) memory 2

/-- The progress of a task in its place, with what it had there before. -/
def updateProgress {T : Type} (prev : Option (WithProgress T)) (progress : TaskProgress) :
    TaskProgress :=
  match prev with
  | some prev => prev.progress.update progress
  | none => progress

/-- The function `registerTask` of `updateTask`: a task in its place among the latest tasks. -/
def registerTask (create : Bool) (version : ComputationStateVersion) (progress : TaskProgress)
    (value : TaskValue D R) (tasks : TableComputationTasks D R) : TableComputationTasks D R :=
  match value with
  | .tableFiltering task =>
    { tasks with
      filteringTask := some
        { task := { task with tableVersion := version }
          progress := updateProgress tasks.filteringTask progress } }
  | .tableOrdering task =>
    let registered : TableComputationTasks D R :=
      { tasks with
        orderingTask := some
          { task := { task with tableVersion := version }
            progress := updateProgress tasks.orderingTask progress } }
    match tasks.orderingTask with
    | some current =>
      if !create && !areOrderingConstraintsEqual current.task.orderingConstraints
          task.orderingConstraints then tasks
      else registered
    | none => registered
  | .tableAggregation task =>
    { tasks with
      tableAggregationTask :=
        some { task, progress := updateProgress tasks.tableAggregationTask progress } }
  | .systemColumnComputation task =>
    { tasks with
      systemColumnTask :=
        some { task, progress := updateProgress tasks.systemColumnTask progress } }
  | .columnAggregation task =>
    let prev := slot tasks.columnAggregationTasks task.columnId
    { tasks with
      columnAggregationTasks := assign none tasks.columnAggregationTasks task.columnId
        (some { task, progress := updateProgress prev progress }) }
  | .filteredColumnAggregation task =>
    let prev := slot tasks.filteredColumnAggregationTasks task.columnId
    { tasks with
      filteredColumnAggregationTasks :=
        assign none tasks.filteredColumnAggregationTasks task.columnId
          (some { task, progress := updateProgress prev progress }) }

/-- The version of the table after a task is updated: scheduling a filter allocates its version. -/
def updatedVersion (create : Bool) (value : TaskValue D R) (version : ComputationStateVersion) :
    ComputationStateVersion :=
  match value with
  | .tableFiltering _ => if create then version.withFilterIncrement else version
  | _ => version

/-- A task that is scheduled carries the version that is allocated for it. -/
def stampTask (create : Bool) (version : ComputationStateVersion) (value : TaskValue D R) :
    TaskValue D R :=
  match value with
  | .tableFiltering task =>
    if create then .tableFiltering { task with tableVersion := version }
    else .tableFiltering task
  | value => value

def updateTask (state : ComputationState D R) (task : TaskVariant D R) (progress : TaskProgress)
    (memory : DataFrameRegistry D) (create : Bool) : ComputationState D R × DataFrameRegistry D :=
  let taskId := task.taskId.getD state.nextSchedulerTaskId
  match state.tableComputations.get? task.value.tableId with
  | none => (state, memory)
  | some tableState =>
    let memory := if create then acquireTask task.value memory else memory
    let version := updatedVersion create task.value tableState.version
    let value := stampTask create version task.value
    ({ nextSchedulerTaskId :=
        if task.taskId.isNone then state.nextSchedulerTaskId + 1 else state.nextSchedulerTaskId
       schedulerTasks := state.schedulerTasks.set taskId { taskId := some taskId, value }
       tableComputations := state.tableComputations.set task.value.tableId
        { tableState with
          version
          tasks := registerTask create version progress value tableState.tasks } },
      memory)

/-! ## Actions -/

inductive ComputationAction (D R : Type)
  | scheduleTask (task : TaskVariant D R)
  | updateSchedulerTask (task : TaskVariant D R) (progress : TaskProgress)
  | unregisterSchedulerTask (task : TaskVariant D R)
  | computationFromQueryResult (tableId : ℕ) (table : ArrowTable R)
      (tableColumns : List ColumnGroup)
  | deleteComputation (tableId : ℕ)
  | createdDataFrame (tableId : ℕ) (dataFrame : D)
  | tableOrderingSucceded (tableId : ℕ) (orderingTable : OrderingTable D R)
  | clearTableOrdering (tableId : ℕ)
  | tableFilteringSucceeded (tableId : ℕ) (completedVersion : ComputationStateVersion)
      (filterTable : Option (FilterTable D R))
  | tableAggregationSucceeded (tableId : ℕ) (tableAggregation : TableAggregation D R)
  | systemColumnComputationSucceeded (tableId : ℕ) (dataTable : ArrowTable R) (dataFrame : D)
      (columnGroups : List ColumnGroup)
  | umapComputationSucceeded (tableId : ℕ) (dataTable : ArrowTable R) (dataFrame : D)
      (columnGroups : List ColumnGroup)
  | columnAggregationSucceeded (tableId columnId : ℕ)
      (columnAggregate : ColumnAggregationVariant D)
  | filteredColumnAggregationSucceeded (tableId columnId : ℕ)
      (completedFilterVersion : ComputationStateVersion)
      (newColumnAggregate : Option (FilteredColumnAggregation D))
  | setCrossFilters (tableId : ℕ) (crossFilters : CrossFilters)

def ComputationState.setTable (state : ComputationState D R) (tableId : ℕ)
    (tableState : TableComputationState D R) : ComputationState D R :=
  { state with tableComputations := state.tableComputations.set tableId tableState }

def computationFromQueryResult (tableId : ℕ) (table : ArrowTable R)
    (tableColumns : List ColumnGroup) (state : ComputationState D R)
    (memory : DataFrameRegistry D) : ComputationState D R × DataFrameRegistry D :=
  let memory :=
    match state.tableComputations.get? tableId with
    | some previousTableState => destroyTableComputationState previousTableState memory
    | none => memory
  (state.setTable tableId (createTableComputationState tableId table tableColumns), memory)

def deleteComputation (tableId : ℕ) (state : ComputationState D R)
    (memory : DataFrameRegistry D) : ComputationState D R × DataFrameRegistry D :=
  match state.tableComputations.get? tableId with
  | none => (state, memory)
  | some tableState =>
    ({ state with tableComputations := state.tableComputations.delete tableId },
      destroyTableComputationState tableState memory)

/-- `CREATED_DATA_FRAME`, which throws without a table, and leaves the state then. -/
def createdDataFrame (tableId : ℕ) (dataFrame : D) (state : ComputationState D R)
    (memory : DataFrameRegistry D) : ComputationState D R × DataFrameRegistry D :=
  let memory := memory.acquire (some dataFrame)
  match state.tableComputations.get? tableId with
  | none => (state, memory)
  | some prevTableState =>
    (state.setTable tableId
      { prevTableState with
        version := prevTableState.version.withDataIncrement
        dataFrame := some dataFrame },
      memory.release prevTableState.dataFrame)

def tableOrderingSucceded (now tableId : ℕ) (orderingTable : OrderingTable D R)
    (state : ComputationState D R) (memory : DataFrameRegistry D) :
    ComputationState D R × DataFrameRegistry D :=
  let memory := memory.acquire (some orderingTable.dataFrame)
  match state.tableComputations.get? tableId with
  | none => (state, memory.release (some orderingTable.dataFrame))
  | some tableState =>
    if !orderingTable.version.filterMatches tableState.version then
      (state, memory.release (some orderingTable.dataFrame))
    else
      match tableState.tasks.orderingTask with
      | none => (state, memory.release (some orderingTable.dataFrame))
      | some orderingTask =>
        if !areOrderingConstraintsEqual orderingTask.task.orderingConstraints
            orderingTable.orderingConstraints then
          (state, memory.release (some orderingTable.dataFrame))
        else
          (state.setTable tableId
            { tableState with
              orderingTable := some orderingTable
              dataTableOrdering := orderingTable.orderingConstraints
              tasks := { tableState.tasks with
                orderingTask := some (orderingTask.succeeded now) } },
            memory.release (tableState.orderingTable.map (·.dataFrame)))

def clearTableOrdering (tableId : ℕ) (state : ComputationState D R)
    (memory : DataFrameRegistry D) : ComputationState D R × DataFrameRegistry D :=
  match state.tableComputations.get? tableId with
  | none => (state, memory)
  | some tableState =>
    (state.setTable tableId
      { tableState with
        dataTableOrdering := []
        orderingTable := none
        tasks := { tableState.tasks with
          orderingTask := tableState.tasks.orderingTask.map fun orderingTask =>
            { orderingTask with task := { orderingTask.task with orderingConstraints := [] } } } },
      memory.release (tableState.orderingTable.map (·.dataFrame)))

/-- The flags of the outdated aggregates after a filter table is installed: one round of the loop
of `tableFilteringSucceded` for each column. -/
def outdatedAggregates (tableState : TableComputationState D R) (filterTable : FilterTable D R) :
    List Bool :=
  tableState.columnGroups.zipIdx.foldl
    (fun outdated column =>
      assign false outdated column.2 <|
        column.1.isSummarised && (slot tableState.columnAggregates column.2).isSome &&
          !(slot tableState.filteredColumnAggregates column.2).any fun aggregate =>
            aggregate.filterVersion.filterMatches filterTable.version)
    tableState.filteredColumnAggregatesOutdated

def tableFilteringSucceded (now tableId : ℕ) (filterTable : Option (FilterTable D R))
    (state : ComputationState D R) (memory : DataFrameRegistry D) :
    ComputationState D R × DataFrameRegistry D :=
  match state.tableComputations.get? tableId with
  | none => (state, memory.release (filterTable.map (·.dataFrame)))
  | some tableState =>
    let filteringTask := tableState.tasks.filteringTask.map (·.succeeded now)
    let outdated :=
      match filterTable with
      | none => List.replicate tableState.filteredColumnAggregatesOutdated.length false
      | some filterTable => outdatedAggregates tableState filterTable
    let aggregates :=
      match filterTable with
      | none => List.replicate tableState.filteredColumnAggregates.length none
      | some _ => tableState.filteredColumnAggregates
    let memory :=
      match filterTable with
      | none =>
        releaseColumnAggregates (plainAggregates tableState.filteredColumnAggregates) memory
      | some _ => memory
    let memory := memory.release (tableState.filterTable.map (·.dataFrame))
    let memory := memory.release (tableState.orderingTable.map (·.dataFrame))
    (state.setTable tableId
      { tableState with
        filterTable
        orderingTable := none
        filteredColumnAggregates := aggregates
        filteredColumnAggregatesOutdated := outdated
        tasks := { tableState.tasks with filteringTask } },
      memory)

def tableFilteringSucceeded (now tableId : ℕ) (completedVersion : ComputationStateVersion)
    (filterTable : Option (FilterTable D R)) (state : ComputationState D R)
    (memory : DataFrameRegistry D) : ComputationState D R × DataFrameRegistry D :=
  let memory := memory.acquire (filterTable.map (·.dataFrame))
  match state.tableComputations.get? tableId with
  | none => (state, memory.release (filterTable.map (·.dataFrame)))
  | some tableState =>
    if !completedVersion.filterMatches tableState.version then
      (state, memory.release (filterTable.map (·.dataFrame)))
    else tableFilteringSucceded now tableId filterTable state memory

def tableAggregationSucceeded (now tableId : ℕ) (tableAggregation : TableAggregation D R)
    (state : ComputationState D R) (memory : DataFrameRegistry D) :
    ComputationState D R × DataFrameRegistry D :=
  let memory := memory.acquire (some tableAggregation.dataFrame)
  match state.tableComputations.get? tableId with
  | none => (state, memory.release (some tableAggregation.dataFrame))
  | some tableState =>
    (state.setTable tableId
      { tableState with
        tableAggregation := some tableAggregation
        tasks := { tableState.tasks with
          tableAggregationTask :=
            tableState.tasks.tableAggregationTask.map (·.succeeded now) } },
      memory.release (tableState.tableAggregation.map (·.dataFrame)))

/-- The last row number column of some column groups, with its index and name. -/
def findRowNumberColumn (columnGroups : List ColumnGroup) : Option ℕ × Option Text :=
  columnGroups.zipIdx.foldl
    (fun found group =>
      match group.1 with
      | .rowNumber rowNumberFieldName => (some group.2, some rowNumberFieldName)
      | _ => found)
    (none, none)

def systemColumnComputationSucceeded (now tableId : ℕ) (dataTable : ArrowTable R) (dataFrame : D)
    (columnGroups : List ColumnGroup) (state : ComputationState D R)
    (memory : DataFrameRegistry D) : ComputationState D R × DataFrameRegistry D :=
  let memory := memory.acquire (some dataFrame)
  let (rowNumberColumnGroup, rowNumberColumnName) := findRowNumberColumn columnGroups
  match state.tableComputations.get? tableId with
  | none => (state, memory.release (some dataFrame))
  | some tableState =>
    (state.setTable tableId
      { tableState with
        version := tableState.version.withDataIncrement
        dataTable
        dataFrame := some dataFrame
        columnGroups
        rowNumberColumnGroup
        rowNumberColumnName
        tasks := { tableState.tasks with
          systemColumnTask := tableState.tasks.systemColumnTask.map (·.succeeded now) } },
      memory.release tableState.dataFrame)

def umapComputationSucceeded (tableId : ℕ) (dataTable : ArrowTable R) (dataFrame : D)
    (columnGroups : List ColumnGroup) (state : ComputationState D R)
    (memory : DataFrameRegistry D) : ComputationState D R × DataFrameRegistry D :=
  let memory := memory.acquire (some dataFrame)
  match state.tableComputations.get? tableId with
  | none => (state, memory.release (some dataFrame))
  | some tableState =>
    (state.setTable tableId
      { tableState with
        dataTable
        dataTableFieldsByName := createArrowFieldIndex dataTable
        dataFrame := some dataFrame
        columnGroups },
      memory.release tableState.dataFrame)

def columnAggregationSucceeded (now tableId columnId : ℕ)
    (columnAggregate : ColumnAggregationVariant D) (state : ComputationState D R)
    (memory : DataFrameRegistry D) : ComputationState D R × DataFrameRegistry D :=
  let memory := acquireColumnAggregate (some columnAggregate) memory
  match state.tableComputations.get? tableId with
  | none => (state, releaseColumnAggregate (some columnAggregate) memory)
  | some tableState =>
    match slot tableState.tasks.columnAggregationTasks columnId with
    | none => (state, releaseColumnAggregate (some columnAggregate) memory)
    | some currentTask =>
      let prevAggregate := slot tableState.columnAggregates columnId
      (state.setTable tableId
        { tableState with
          columnAggregates := assign none tableState.columnAggregates columnId
            (some columnAggregate)
          tasks := { tableState.tasks with
            columnAggregationTasks := assign none tableState.tasks.columnAggregationTasks
              columnId (some (currentTask.succeeded now)) } },
        releaseColumnAggregate prevAggregate memory)

def filteredColumnAggregationSucceeded (now tableId columnId : ℕ)
    (completedFilterVersion : ComputationStateVersion)
    (newColumnAggregate : Option (FilteredColumnAggregation D)) (state : ComputationState D R)
    (memory : DataFrameRegistry D) : ComputationState D R × DataFrameRegistry D :=
  let newAggregate := newColumnAggregate.map (·.aggregate)
  let memory := acquireColumnAggregate newAggregate memory
  match state.tableComputations.get? tableId with
  | none => (state, releaseColumnAggregate newAggregate memory)
  | some tableState =>
    match slot tableState.tasks.filteredColumnAggregationTasks columnId,
        tableState.filterTable with
    | some currentTask, some filterTable =>
      if !currentTask.task.filterTable.version.filterMatches completedFilterVersion ||
          !filterTable.version.filterMatches completedFilterVersion then
        (state, releaseColumnAggregate newAggregate memory)
      else
        let prevColumnAggregate := slot tableState.filteredColumnAggregates columnId
        let aggregateUpToDate := newColumnAggregate.any fun aggregate =>
          aggregate.filterVersion.filterMatches filterTable.version
        (state.setTable tableId
          { tableState with
            filteredColumnAggregates := assign none tableState.filteredColumnAggregates
              columnId newColumnAggregate
            filteredColumnAggregatesOutdated := assign false
              tableState.filteredColumnAggregatesOutdated columnId (!aggregateUpToDate)
            tasks := { tableState.tasks with
              filteredColumnAggregationTasks :=
                assign none tableState.tasks.filteredColumnAggregationTasks columnId
                  (some (currentTask.succeeded now)) } },
          releaseColumnAggregate (prevColumnAggregate.map (·.aggregate)) memory)
    | _, _ => (state, releaseColumnAggregate newAggregate memory)

def setCrossFilters (tableId : ℕ) (crossFilters : CrossFilters) (state : ComputationState D R) :
    ComputationState D R :=
  match state.tableComputations.get? tableId with
  | none => state
  | some tableState =>
    if tableState.crossFilters.equals crossFilters then state
    else state.setTable tableId { tableState with crossFilters }

/-- `reduceComputationState`, at a time of the clock. -/
def reduceComputationState (now : ℕ) (action : ComputationAction D R)
    (state : ComputationState D R) (memory : DataFrameRegistry D) :
    ComputationState D R × DataFrameRegistry D :=
  match action with
  | .scheduleTask task =>
    let initialProgress : TaskProgress :=
      { status := some .running
        startedAt := some now
        completedAt := some none
        failedAt := some none
        failedWithError := some none }
    updateTask state task initialProgress memory true
  | .updateSchedulerTask task progress => updateTask state task progress memory false
  | .unregisterSchedulerTask task =>
    match task.taskId with
    | none => (state, memory)
    | some taskId =>
      ({ state with schedulerTasks := state.schedulerTasks.delete taskId }, memory)
  | .computationFromQueryResult tableId table tableColumns =>
    computationFromQueryResult tableId table tableColumns state memory
  | .deleteComputation tableId => deleteComputation tableId state memory
  | .createdDataFrame tableId dataFrame => createdDataFrame tableId dataFrame state memory
  | .tableOrderingSucceded tableId orderingTable =>
    tableOrderingSucceded now tableId orderingTable state memory
  | .clearTableOrdering tableId => clearTableOrdering tableId state memory
  | .tableFilteringSucceeded tableId completedVersion filterTable =>
    tableFilteringSucceeded now tableId completedVersion filterTable state memory
  | .tableAggregationSucceeded tableId tableAggregation =>
    tableAggregationSucceeded now tableId tableAggregation state memory
  | .systemColumnComputationSucceeded tableId dataTable dataFrame columnGroups =>
    systemColumnComputationSucceeded now tableId dataTable dataFrame columnGroups state memory
  | .umapComputationSucceeded tableId dataTable dataFrame columnGroups =>
    umapComputationSucceeded tableId dataTable dataFrame columnGroups state memory
  | .columnAggregationSucceeded tableId columnId columnAggregate =>
    columnAggregationSucceeded now tableId columnId columnAggregate state memory
  | .filteredColumnAggregationSucceeded tableId columnId completedFilterVersion
      newColumnAggregate =>
      filteredColumnAggregationSucceeded now tableId columnId completedFilterVersion
        newColumnAggregate state memory
  | .setCrossFilters tableId crossFilters => (setCrossFilters tableId crossFilters state, memory)

end DashQL.Compute
