import DashQL.Library.Counting
import DashQL.Library.SparseArray
import DashQL.Storage.Writer

/-!
# The computation state

The tables that are computed on, the tasks of the scheduler, and the registry of the data frames
in the compute module.  Data frames are told apart by identity; what an arrow table holds besides
its fields is of any type.
-/

namespace DashQL.Compute

open Storage (Text)

/-! ## Versions, constraints and filters -/

structure ComputationStateVersion where
  data : ℕ := 0
  filter : ℕ := 0
  deriving DecidableEq

namespace ComputationStateVersion

def withDataIncrement (version : ComputationStateVersion) : ComputationStateVersion :=
  ⟨version.data + 1, version.filter⟩

def withFilterIncrement (version : ComputationStateVersion) : ComputationStateVersion :=
  ⟨version.data, version.filter + 1⟩

def filterMatches (version other : ComputationStateVersion) : Bool :=
  version.data = other.data ∧ version.filter = other.filter

theorem filterMatches_iff {version other : ComputationStateVersion} :
    version.filterMatches other = true ↔ version = other := by
  cases version
  cases other
  simp [filterMatches]

end ComputationStateVersion

structure OrderByConstraint where
  field : Text
  ascending : Option Bool := none
  nullsFirst : Option Bool := none
  deriving DecidableEq

def areOrderingConstraintsEqual (left right : List OrderByConstraint) : Bool :=
  left.length = right.length ∧
    (left.zip right).all fun pair =>
      pair.1.field = pair.2.field ∧
        pair.1.ascending.getD true = pair.2.ascending.getD true ∧
        pair.1.nullsFirst.getD false = pair.2.nullsFirst.getD false

inductive FilterOp
  | equal
  | less
  | lessOrEqual
  | greater
  | greaterOrEqual
  deriving DecidableEq

structure ScalarFilter where
  fieldName : Text
  op : FilterOp
  value : ℚ
  deriving DecidableEq

inductive CrossFilterPredicate
  | histogram (selection : Option (ℚ × ℚ)) (filters : List ScalarFilter)
  | mostFrequent (valueId : ℚ) (filters : List ScalarFilter)
  deriving DecidableEq

/-- The same selection, whatever the scalar filters. -/
def CrossFilterPredicate.selectsSame : CrossFilterPredicate → CrossFilterPredicate → Bool
  | .histogram selection _, .histogram selection' _ => selection = selection'
  | .mostFrequent valueId _, .mostFrequent valueId' _ => valueId = valueId'
  | _, _ => false

structure CrossFilters where
  columnFilters : InsertionMap ℕ CrossFilterPredicate := .empty

def CrossFilters.equals (filters other : CrossFilters) : Bool :=
  filters.columnFilters.keys.length = other.columnFilters.keys.length ∧
    filters.columnFilters.entries.all fun entry =>
      match other.columnFilters.get? entry.1 with
      | some predicate => entry.2.selectsSame predicate
      | none => false

/-! ## Tables -/

/-- `arrow.Table`: the names of the fields of its schema, and the rest. -/
structure ArrowTable (R : Type) where
  fields : List Text
  rows : R

def createArrowFieldIndex {R : Type} (table : ArrowTable R) : InsertionMap Text ℕ :=
  table.fields.zipIdx.foldl (fun out field => out.set field.1 field.2) .empty

/-- `ColumnGroup`; only the name of a row number column is read. -/
inductive ColumnGroup
  | rowNumber (rowNumberFieldName : Text)
  | skipped
  | ordinal
  | string
  | list
  deriving DecidableEq

def ColumnGroup.isSummarised : ColumnGroup → Bool
  | .rowNumber _ | .skipped => false
  | _ => true

variable (D R : Type)

structure FilterTable where
  inputRowNumberColumnName : Text
  dataTable : ArrowTable R
  dataFrame : D
  version : ComputationStateVersion

structure OrderingTable where
  inputRowNumberColumnName : Text
  orderingConstraints : List OrderByConstraint
  dataTable : ArrowTable R
  dataFrame : D
  version : ComputationStateVersion

structure TableAggregation where
  dataFrame : D
  table : ArrowTable R
  countStarFieldName : Text

/-- `ColumnAggregationVariant`, without what is only shown. -/
inductive ColumnAggregationVariant
  | ordinal (binnedDataFrame : D)
  | string (frequentValuesDataFrame : D)
  | list (frequentValuesDataFrame : D)
  | skipped

structure FilteredColumnAggregation where
  aggregate : ColumnAggregationVariant D
  filterVersion : ComputationStateVersion

/-! ## Tasks -/

structure TableFilteringTask where
  tableId : ℕ
  tableVersion : ComputationStateVersion
  inputDataTable : ArrowTable R
  inputDataTableFieldIndex : InsertionMap Text ℕ
  inputDataFrame : D
  rowNumberColumnName : Text
  filters : List ScalarFilter

structure TableOrderingTask where
  tableId : ℕ
  tableVersion : ComputationStateVersion
  inputDataTable : ArrowTable R
  inputDataTableFieldIndex : InsertionMap Text ℕ
  inputDataFrame : D
  filterTable : Option (FilterTable D R)
  rowNumberColumnName : Text
  orderingConstraints : List OrderByConstraint

structure TableAggregationTask where
  tableId : ℕ
  tableVersion : ComputationStateVersion
  columnEntries : List ColumnGroup
  inputDataFrame : D

structure SystemColumnComputationTask where
  tableId : ℕ
  tableVersion : ComputationStateVersion
  columnEntries : List ColumnGroup
  inputTable : ArrowTable R
  inputDataFrame : D
  tableAggregate : TableAggregation D R

structure ColumnAggregationTask where
  tableId : ℕ
  tableVersion : ComputationStateVersion
  columnId : ℕ
  columnEntry : ColumnGroup
  inputDataFrame : D
  tableAggregate : TableAggregation D R

structure FilteredColumnAggregationTask extends ColumnAggregationTask D R where
  filterTable : FilterTable D R
  unfilteredAggregate : ColumnAggregationVariant D

inductive TaskValue
  | tableFiltering (task : TableFilteringTask D R)
  | tableOrdering (task : TableOrderingTask D R)
  | tableAggregation (task : TableAggregationTask D)
  | systemColumnComputation (task : SystemColumnComputationTask D R)
  | columnAggregation (task : ColumnAggregationTask D R)
  | filteredColumnAggregation (task : FilteredColumnAggregationTask D R)

structure TaskVariant where
  taskId : Option ℕ := none
  value : TaskValue D R

inductive TaskStatus
  | running
  | succeeded
  | failed
  deriving DecidableEq

/-- `Partial<TaskProgress>`; a nullable field may be absent or null. -/
structure TaskProgress where
  status : Option TaskStatus := none
  startedAt : Option ℕ := none
  completedAt : Option (Option ℕ) := none
  failedAt : Option (Option ℕ) := none
  failedWithError : Option (Option Text) := none
  deriving DecidableEq

structure WithProgress (T : Type) where
  task : T
  progress : TaskProgress

structure TableComputationTasks where
  tableAggregationTask : Option (WithProgress (TableAggregationTask D)) := none
  systemColumnTask : Option (WithProgress (SystemColumnComputationTask D R)) := none
  filteringTask : Option (WithProgress (TableFilteringTask D R)) := none
  orderingTask : Option (WithProgress (TableOrderingTask D R)) := none
  columnAggregationTasks : List (Option (WithProgress (ColumnAggregationTask D R)))
  filteredColumnAggregationTasks :
    List (Option (WithProgress (FilteredColumnAggregationTask D R)))

/-! ## The state -/

structure TableComputationState where
  tableId : ℕ
  tasks : TableComputationTasks D R
  version : ComputationStateVersion := {}
  dataTable : ArrowTable R
  dataTableFieldsByName : InsertionMap Text ℕ
  dataFrame : Option D := none
  columnGroups : List ColumnGroup
  dataTableOrdering : List OrderByConstraint := []
  crossFilters : CrossFilters := {}
  filterTable : Option (FilterTable D R) := none
  orderingTable : Option (OrderingTable D R) := none
  rowNumberColumnGroup : Option ℕ := none
  rowNumberColumnName : Option Text := none
  tableAggregation : Option (TableAggregation D R) := none
  columnAggregates : List (Option (ColumnAggregationVariant D))
  filteredColumnAggregates : List (Option (FilteredColumnAggregation D))
  filteredColumnAggregatesOutdated : List Bool

structure ComputationState where
  tableComputations : InsertionMap ℕ (TableComputationState D R) := .empty
  schedulerTasks : InsertionMap ℕ (TaskVariant D R) := .empty
  nextSchedulerTaskId : ℕ := 1

variable {D R}

def createComputationState : ComputationState D R := {}

def createTableComputationState (computationId : ℕ) (table : ArrowTable R)
    (tableColumns : List ColumnGroup) : TableComputationState D R where
  tableId := computationId
  tasks :=
    { columnAggregationTasks := List.replicate (tableColumns.length + 1) none
      filteredColumnAggregationTasks := List.replicate (tableColumns.length + 1) none }
  dataTable := table
  dataTableFieldsByName := createArrowFieldIndex table
  columnGroups := tableColumns
  columnAggregates := List.replicate tableColumns.length none
  filteredColumnAggregates := List.replicate tableColumns.length none
  filteredColumnAggregatesOutdated := List.replicate tableColumns.length false

def TaskValue.tableId : TaskValue D R → ℕ
  | .tableFiltering task => task.tableId
  | .tableOrdering task => task.tableId
  | .tableAggregation task => task.tableId
  | .systemColumnComputation task => task.tableId
  | .columnAggregation task => task.tableId
  | .filteredColumnAggregation task => task.tableId

def TaskProgress.update (prev progress : TaskProgress) : TaskProgress where
  status := progress.status.or prev.status
  startedAt := progress.startedAt.or prev.startedAt
  completedAt := progress.completedAt.or prev.completedAt
  failedAt := progress.failedAt.or prev.failedAt
  failedWithError := progress.failedWithError.or prev.failedWithError

def TaskProgress.succeeded (now : ℕ) (progress : TaskProgress) : TaskProgress :=
  { progress with status := some .succeeded, completedAt := some (some now) }

def WithProgress.succeeded {T : Type} (now : ℕ) (task : WithProgress T) : WithProgress T :=
  { task with progress := task.progress.succeeded now }

end DashQL.Compute
