import DashQL.Compute.Derived

/-!
# References to data frames

The state refers to data frames from its tables, from the latest tasks of the tables and from the
task map of the scheduler.  A task that is scheduled is acquired for both of its places; what a
table holds is acquired and released action by action.

`exact_step_iff` says exactly which actions change the counts of the registry with the references,
and `frames_counted_of_run` what follows for runs of such actions.
-/

namespace DashQL.Compute

open List Option
open InsertionMap (total_delete total_set)

open SparseArray (assign slot sum_assign)

open CountRegistry (Acquired Released BalancedIf balancedIf_of_eq Exact destroyedSince)

variable {D R : Type}

/-! ## The references -/

def optional (dataFrame : Option D) : Multiset D := dataFrame.elim 0 fun dataFrame => {dataFrame}

@[simp] theorem optional_none : optional (none : Option D) = 0 := rfl

def aggregateFrames (aggregate : Option (ColumnAggregationVariant D)) : Multiset D :=
  optional (aggregate.bind (·.dataFrame))

def TaskValue.frames : TaskValue D R → Multiset D
  | .tableFiltering task => {task.inputDataFrame}
  | .tableOrdering task => {task.inputDataFrame} + optional (task.filterTable.map (·.dataFrame))
  | .tableAggregation task => {task.inputDataFrame}
  | .systemColumnComputation task => {task.inputDataFrame} + {task.tableAggregate.dataFrame}
  | .columnAggregation task => {task.inputDataFrame} + {task.tableAggregate.dataFrame}
  | .filteredColumnAggregation task =>
    {task.inputDataFrame} + {task.filterTable.dataFrame} + {task.tableAggregate.dataFrame} +
      aggregateFrames (some task.unfilteredAggregate)

def latestFrames {T : Type} (kind : T → TaskValue D R) (task : Option (WithProgress T)) :
    Multiset D :=
  task.elim 0 fun task => (kind task.task).frames

def TableComputationTasks.frames (tasks : TableComputationTasks D R) : Multiset D :=
  latestFrames .tableFiltering tasks.filteringTask + latestFrames .tableOrdering tasks.orderingTask +
    latestFrames (R := R) .tableAggregation tasks.tableAggregationTask +
    latestFrames .systemColumnComputation tasks.systemColumnTask +
    (tasks.columnAggregationTasks.map (latestFrames .columnAggregation)).sum +
    (tasks.filteredColumnAggregationTasks.map (latestFrames .filteredColumnAggregation)).sum

def TableComputationState.shownFrames (tableState : TableComputationState D R) : Multiset D :=
  optional tableState.dataFrame + optional (tableState.filterTable.map (·.dataFrame)) +
    optional (tableState.orderingTable.map (·.dataFrame)) +
    optional (tableState.tableAggregation.map (·.dataFrame)) +
    (tableState.columnAggregates.map aggregateFrames).sum +
    ((plainAggregates tableState.filteredColumnAggregates).map aggregateFrames).sum

def TableComputationState.frames (tableState : TableComputationState D R) : Multiset D :=
  tableState.shownFrames + tableState.tasks.frames

/-- The data frames that the state refers to, each as often as it does. -/
def ComputationState.frames (state : ComputationState D R) : Multiset D :=
  state.tableComputations.total (·.frames) + state.schedulerTasks.total (·.value.frames)

/-! ## What an action has to meet -/

/-- The data frames of the latest task in the place of a task. -/
def TableComputationTasks.currentFrames (tasks : TableComputationTasks D R) :
    TaskValue D R → Multiset D
  | .tableFiltering _ => latestFrames .tableFiltering tasks.filteringTask
  | .tableOrdering _ => latestFrames .tableOrdering tasks.orderingTask
  | .tableAggregation _ => latestFrames (R := R) .tableAggregation tasks.tableAggregationTask
  | .systemColumnComputation _ => latestFrames .systemColumnComputation tasks.systemColumnTask
  | .columnAggregation task =>
    latestFrames .columnAggregation (slot tasks.columnAggregationTasks task.columnId)
  | .filteredColumnAggregation task =>
    latestFrames .filteredColumnAggregation
      (slot tasks.filteredColumnAggregationTasks task.columnId)

/-- An update of a task is put in its place, unless it is of an ordering task with other constraints
than the latest one. -/
def TableComputationTasks.takes (tasks : TableComputationTasks D R) : TaskValue D R → Bool
  | .tableOrdering task =>
    match tasks.orderingTask with
    | some current =>
      areOrderingConstraintsEqual current.task.orderingConstraints task.orderingConstraints
    | none => true
  | _ => true

def ComputationState.registeredFrames (state : ComputationState D R) (taskId : ℕ) : Multiset D :=
  (state.schedulerTasks.get? taskId).elim 0 (·.value.frames)

/-- The latest tasks whose data frames are not all released with their table. -/
structure TableComputationTasks.Released (tasks : TableComputationTasks D R) : Prop where
  systemColumnTask : tasks.systemColumnTask = none
  columnAggregationTasks : ∀ task ∈ tasks.columnAggregationTasks, task = none
  filteredColumnAggregationTasks : ∀ task ∈ tasks.filteredColumnAggregationTasks, task = none

/-- An action that acquires and releases what it changes.  A task is scheduled in free places; an
update replaces tasks with the same data frames; no registered task is unregistered; a table is
destroyed without tasks that it does not release; and a data frame is created for a table. -/
def KeepsCounts (action : ComputationAction D R) (state : ComputationState D R) : Prop :=
  match action with
  | .scheduleTask task =>
    ∀ tableState, state.tableComputations.get? task.value.tableId = some tableState →
      tableState.tasks.currentFrames task.value = 0 ∧
        state.registeredFrames (task.taskId.getD state.nextSchedulerTaskId) = 0
  | .updateSchedulerTask task _ =>
    ∀ tableState, state.tableComputations.get? task.value.tableId = some tableState →
      let registered := state.registeredFrames (task.taskId.getD state.nextSchedulerTaskId)
      if tableState.tasks.takes task.value then
        tableState.tasks.currentFrames task.value + registered = 2 • task.value.frames
      else registered = task.value.frames
  | .unregisterSchedulerTask task => ∀ taskId, task.taskId = some taskId →
      state.registeredFrames taskId = 0
  | .computationFromQueryResult tableId _ _ | .deleteComputation tableId =>
    ∀ tableState, state.tableComputations.get? tableId = some tableState → tableState.tasks.Released
  | .createdDataFrame tableId _ => (state.tableComputations.get? tableId).isSome
  | _ => True

/-! ## What a table that is destroyed releases -/

def TableComputationTasks.releasedFrames (tasks : TableComputationTasks D R) : Multiset D :=
  latestFrames .tableFiltering tasks.filteringTask + latestFrames .tableOrdering tasks.orderingTask +
    latestFrames (R := R) .tableAggregation tasks.tableAggregationTask +
    optional (tasks.systemColumnTask.map (·.task.inputDataFrame)) +
    (tasks.columnAggregationTasks.map fun task => optional (task.map (·.task.inputDataFrame))).sum +
    (tasks.filteredColumnAggregationTasks.map fun task =>
      optional (task.map (·.task.filterTable.dataFrame)) +
        aggregateFrames (task.map (·.task.unfilteredAggregate))).sum

/-- The data frames of the latest tasks that are not. -/
def TableComputationTasks.leakedFrames (tasks : TableComputationTasks D R) : Multiset D :=
  optional (tasks.systemColumnTask.map (·.task.tableAggregate.dataFrame)) +
    (tasks.columnAggregationTasks.map fun task =>
      optional (task.map (·.task.tableAggregate.dataFrame))).sum +
    (tasks.filteredColumnAggregationTasks.map fun task =>
      optional (task.map (·.task.inputDataFrame)) +
        optional (task.map (·.task.tableAggregate.dataFrame))).sum

theorem frames_eq_released_add_leaked (tasks : TableComputationTasks D R) :
    tasks.frames = tasks.releasedFrames + tasks.leakedFrames := by
  have hsystem : latestFrames .systemColumnComputation tasks.systemColumnTask =
      optional (tasks.systemColumnTask.map (·.task.inputDataFrame)) +
        optional (tasks.systemColumnTask.map (·.task.tableAggregate.dataFrame)) := by
    cases tasks.systemColumnTask <;> rfl
  have hcolumns : (tasks.columnAggregationTasks.map (latestFrames .columnAggregation)).sum =
      (tasks.columnAggregationTasks.map fun task => optional (task.map (·.task.inputDataFrame))).sum +
        (tasks.columnAggregationTasks.map fun task =>
          optional (task.map (·.task.tableAggregate.dataFrame))).sum := by
    rw [← sum_map_add]
    congr 1
    apply map_congr_left
    intro task _
    cases task <;> rfl
  have hfiltered : (tasks.filteredColumnAggregationTasks.map
      (latestFrames .filteredColumnAggregation)).sum =
      (tasks.filteredColumnAggregationTasks.map fun task =>
        optional (task.map (·.task.filterTable.dataFrame)) +
          aggregateFrames (task.map (·.task.unfilteredAggregate))).sum +
      (tasks.filteredColumnAggregationTasks.map fun task =>
        optional (task.map (·.task.inputDataFrame)) +
          optional (task.map (·.task.tableAggregate.dataFrame))).sum := by
    rw [← sum_map_add]
    congr 1
    apply map_congr_left
    intro task _
    cases task with
    | none => rfl
    | some task =>
      change {task.task.inputDataFrame} + {task.task.filterTable.dataFrame} +
        {task.task.tableAggregate.dataFrame} + aggregateFrames (some task.task.unfilteredAggregate) =
        ({task.task.filterTable.dataFrame} + aggregateFrames (some task.task.unfilteredAggregate)) +
          ({task.task.inputDataFrame} + {task.task.tableAggregate.dataFrame})
      abel
  rw [TableComputationTasks.frames, TableComputationTasks.releasedFrames,
    TableComputationTasks.leakedFrames, hsystem, hcolumns, hfiltered]
  abel

/-- A total of data frames is empty where every part is. -/
theorem sum_map_eq_zero_iff {α : Type} {frames : α → Multiset D} {values : List α} :
    (values.map frames).sum = 0 ↔ ∀ value ∈ values, frames value = 0 := by
  induction values with
  | nil => exact iff_of_true rfl fun _ hvalue => absurd hvalue not_mem_nil
  | cons value values ih =>
    rw [map_cons, sum_cons, add_eq_zero, ih, forall_mem_cons]

theorem optional_eq_zero_iff {dataFrame : Option D} : optional dataFrame = 0 ↔ dataFrame = none := by
  cases dataFrame with
  | none => exact iff_of_true rfl rfl
  | some dataFrame =>
    exact iff_of_false (Multiset.singleton_ne_zero dataFrame) (some_ne_none _)

theorem leakedFrames_eq_zero_iff {tasks : TableComputationTasks D R} :
    tasks.leakedFrames = 0 ↔ tasks.Released := by
  unfold TableComputationTasks.leakedFrames
  rw [add_eq_zero, add_eq_zero, sum_map_eq_zero_iff, sum_map_eq_zero_iff]
  simp only [add_eq_zero, optional_eq_zero_iff, map_eq_none_iff, and_self]
  constructor
  · rintro ⟨⟨hsystem, hcolumns⟩, hfiltered⟩
    exact ⟨hsystem, hcolumns, hfiltered⟩
  · intro h
    exact ⟨⟨h.systemColumnTask, h.columnAggregationTasks⟩, h.filteredColumnAggregationTasks⟩

/-! ## Acquiring and releasing -/

section Memory

variable [DecidableEq D] (memory : DataFrameRegistry D)

theorem acquired_acquire (dataFrame : Option D) (times : ℕ+) :
    Acquired memory (memory.acquire dataFrame times) ((times : ℕ) • optional dataFrame) := by
  cases dataFrame with
  | none =>
    rw [optional, elim_none, smul_zero]
    exact .refl memory
  | some dataFrame =>
    rw [optional, elim_some, Multiset.nsmul_singleton]
    exact CountRegistry.acquired_acquire memory dataFrame times

theorem acquired_acquire_once (dataFrame : Option D) :
    Acquired memory (memory.acquire dataFrame) (optional dataFrame) := by
  have h := acquired_acquire memory dataFrame 1
  rwa [PNat.one_coe, one_smul] at h

theorem released_release (dataFrame : Option D) :
    Released memory (memory.release dataFrame) (optional dataFrame) := by
  cases dataFrame with
  | none => exact .refl memory
  | some dataFrame => exact CountRegistry.released_release memory dataFrame

theorem released_foldl {α : Type} {release : DataFrameRegistry D → α → DataFrameRegistry D}
    {frames : α → Multiset D} (h : ∀ memory value, Released memory (release memory value) (frames value))
    (values : List α) (memory : DataFrameRegistry D) :
    Released memory (values.foldl release memory) (values.map frames).sum := by
  induction values generalizing memory with
  | nil => exact .refl memory
  | cons value values ih =>
    rw [foldl_cons, map_cons, sum_cons]
    exact (h memory value).trans (ih _)

theorem released_releaseColumnAggregates (aggregates : List (Option (ColumnAggregationVariant D))) :
    Released memory (releaseColumnAggregates aggregates memory)
      (aggregates.map aggregateFrames).sum := by
  have hstep : ∀ (memory : DataFrameRegistry D) (aggregate : Option (ColumnAggregationVariant D)),
      Released memory (releaseColumnAggregate aggregate memory) (aggregateFrames aggregate) :=
    fun memory aggregate => released_release memory _
  exact released_foldl hstep aggregates memory

theorem acquired_acquireTask (value : TaskValue D R) :
    Acquired memory (acquireTask value memory) (2 • value.frames) := by
  have honce : ∀ (memory : DataFrameRegistry D) (dataFrame : D),
      Acquired memory (memory.acquire (some dataFrame) 2) (2 • {dataFrame}) :=
    fun memory dataFrame => acquired_acquire memory (some dataFrame) 2
  unfold acquireTask TaskValue.frames
  cases value with
  | tableFiltering task => exact honce memory _
  | tableOrdering task =>
    rw [smul_add]
    exact (honce memory _).trans (acquired_acquire _ _ 2)
  | tableAggregation task => exact honce memory _
  | systemColumnComputation task =>
    rw [smul_add]
    exact (honce memory _).trans (honce _ _)
  | columnAggregation task =>
    rw [smul_add]
    exact (honce memory _).trans (honce _ _)
  | filteredColumnAggregation task =>
    rw [smul_add, smul_add, smul_add]
    exact (((honce memory _).trans (honce _ _)).trans (honce _ _)).trans (acquired_acquire _ _ 2)

theorem released_destroy (tableState : TableComputationState D R) :
    Released memory (destroyTableComputationState tableState memory)
      (tableState.shownFrames + tableState.tasks.releasedFrames) := by
  have hfiltering : latestFrames .tableFiltering tableState.tasks.filteringTask =
      optional (tableState.tasks.filteringTask.map (·.task.inputDataFrame)) := by
    cases tableState.tasks.filteringTask <;> rfl
  have hordering : latestFrames .tableOrdering tableState.tasks.orderingTask =
      optional (tableState.tasks.orderingTask.map (·.task.inputDataFrame)) +
        optional (tableState.tasks.orderingTask.bind fun task =>
          task.task.filterTable.map (·.dataFrame)) := by
    cases tableState.tasks.orderingTask <;> rfl
  have haggregation : latestFrames (R := R) .tableAggregation
      tableState.tasks.tableAggregationTask =
      optional (tableState.tasks.tableAggregationTask.map (·.task.inputDataFrame)) := by
    cases tableState.tasks.tableAggregationTask <;> rfl
  have hmany : ∀ (memory : DataFrameRegistry D) (dataFrames : List (Option D)),
      Released memory (memory.releaseMany dataFrames) (dataFrames.map optional).sum :=
    fun memory dataFrames => released_foldl released_release dataFrames memory
  have hpairs : ∀ (memory : DataFrameRegistry D)
      (task : Option (WithProgress (FilteredColumnAggregationTask D R))),
      Released memory
        (releaseColumnAggregate (task.map (·.task.unfilteredAggregate))
          (memory.release (task.map (·.task.filterTable.dataFrame))))
        (optional (task.map (·.task.filterTable.dataFrame)) +
          aggregateFrames (task.map (·.task.unfilteredAggregate))) :=
    fun memory task => (released_release memory _).trans (released_release _ _)
  -- the releases in the order of the source
  have hshown := (((((released_release memory tableState.dataFrame).trans
    (released_release _ (tableState.filterTable.map (·.dataFrame)))).trans
    (released_release _ (tableState.orderingTable.map (·.dataFrame)))).trans
    (released_release _ (tableState.tableAggregation.map (·.dataFrame)))).trans
    (released_releaseColumnAggregates _ tableState.columnAggregates)).trans
    (released_releaseColumnAggregates _ (plainAggregates tableState.filteredColumnAggregates))
  have htasks := ((((((hshown.trans
    (released_release _ (tableState.tasks.filteringTask.map (·.task.inputDataFrame)))).trans
    (released_release _ (tableState.tasks.orderingTask.map (·.task.inputDataFrame)))).trans
    (released_release _ (tableState.tasks.orderingTask.bind fun task =>
      task.task.filterTable.map (·.dataFrame)))).trans
    (released_release _ (tableState.tasks.tableAggregationTask.map (·.task.inputDataFrame)))).trans
    (released_release _ (tableState.tasks.systemColumnTask.map (·.task.inputDataFrame)))).trans
    (hmany _ (tableState.tasks.columnAggregationTasks.map fun task =>
      task.map (·.task.inputDataFrame)))).trans
    (released_foldl hpairs tableState.tasks.filteredColumnAggregationTasks _)
  rw [List.map_map] at htasks
  rw [TableComputationState.shownFrames, TableComputationTasks.releasedFrames, hfiltering,
    hordering, haggregation]
  refine Eq.mp (congrArg (Released memory _) ?_) htasks
  simp only [add_assoc]
  rfl

end Memory

/-! ## What a change of the state refers to -/

section Changes

variable {state state' : ComputationState D R} {tableId : ℕ}
  {tableState tableState' : TableComputationState D R}

theorem frames_setTable (hget : state.tableComputations.get? tableId = some tableState) :
    (state.setTable tableId tableState').frames + tableState.frames =
      state.frames + tableState'.frames := by
  have htotal := @total_set ℕ (TableComputationState D R) _ state.tableComputations
    tableId tableState' _ _ (·.frames)
  rw [hget, elim_some] at htotal
  unfold ComputationState.frames
  change (state.tableComputations.set tableId tableState').total (·.frames) +
    state.schedulerTasks.total (·.value.frames) + _ = _
  rw [add_right_comm, htotal, add_right_comm]

theorem frames_setTable_of_none (hget : state.tableComputations.get? tableId = none) :
    (state.setTable tableId tableState').frames = state.frames + tableState'.frames := by
  have htotal := @total_set ℕ (TableComputationState D R) _ state.tableComputations
    tableId tableState' _ _ (·.frames)
  rw [hget, elim_none, add_zero] at htotal
  unfold ComputationState.frames
  change (state.tableComputations.set tableId tableState').total (·.frames) +
    state.schedulerTasks.total (·.value.frames) = _
  rw [htotal, add_right_comm]

theorem frames_create (tableId : ℕ) (table : ArrowTable R) (tableColumns : List ColumnGroup) :
    (createTableComputationState tableId table tableColumns : TableComputationState D R).frames =
      0 := by
  unfold TableComputationState.frames TableComputationState.shownFrames
    TableComputationTasks.frames plainAggregates createTableComputationState
  simp only [map_replicate, map_none]
  simp only [optional, latestFrames, aggregateFrames, bind_none, elim_none,
    sum_replicate, smul_zero, add_zero]

variable (create : Bool) (version : ComputationStateVersion) (progress : TaskProgress)
  (value : TaskValue D R) (tasks : TableComputationTasks D R)

theorem frames_stampTask : (stampTask create version value).frames = value.frames := by
  cases value with
  | tableFiltering task => cases create <;> rfl
  | _ => rfl

theorem currentFrames_stampTask :
    tasks.currentFrames (stampTask create version value) = tasks.currentFrames value := by
  cases value with
  | tableFiltering task => cases create <;> rfl
  | _ => rfl

theorem takes_stampTask : tasks.takes (stampTask create version value) = tasks.takes value := by
  cases value with
  | tableFiltering task => cases create <;> rfl
  | _ => rfl

theorem latestFrames_some {T : Type} (kind : T → TaskValue D R) (task : WithProgress T) :
    latestFrames kind (some task) = (kind task.task).frames := rfl

theorem sum_assign_latest {T : Type} (kind : T → TaskValue D R)
    (tasks : List (Option (WithProgress T))) (index : ℕ) (task : Option (WithProgress T)) :
    ((assign none tasks index task).map (latestFrames kind)).sum +
      latestFrames kind (slot tasks index) =
      (tasks.map (latestFrames kind)).sum + latestFrames kind task := sum_assign rfl

/-- A task that is put in its place replaces the data frames of the latest one. -/
theorem frames_registerTask (htakes : create = true ∨ tasks.takes value = true) :
    (registerTask create version progress value tasks).frames + tasks.currentFrames value =
      tasks.frames + value.frames := by
  unfold registerTask TableComputationTasks.currentFrames TableComputationTasks.frames
  cases value with
  | tableFiltering task =>
    change {task.inputDataFrame} + _ + _ + _ + _ + _ + _ = _ + {task.inputDataFrame}
    abel
  | tableOrdering task =>
    have hregistered : ∀ progress' : TaskProgress, latestFrames .tableOrdering
        (some { task := { task with tableVersion := version }, progress := progress' }) =
        (TaskValue.tableOrdering task).frames := fun _ => rfl
    cases hcurrent : tasks.orderingTask with
    | none =>
      dsimp only
      rw [hregistered]
      abel
    | some current =>
      have haccepted : ¬ (!create && !areOrderingConstraintsEqual
          current.task.orderingConstraints task.orderingConstraints) = true := by
        rcases htakes with rfl | htakes
        · exact Bool.false_ne_true
        · unfold TableComputationTasks.takes at htakes
          rw [hcurrent] at htakes
          dsimp only at htakes
          rw [htakes, Bool.not_true, Bool.and_false]
          exact Bool.false_ne_true
      dsimp only
      rw [if_neg haccepted]
      dsimp only
      rw [hregistered]
      abel
  | tableAggregation task =>
    change _ + _ + {task.inputDataFrame} + _ + _ + _ + _ = _ + {task.inputDataFrame}
    abel
  | systemColumnComputation task =>
    dsimp only
    rw [latestFrames_some]
    abel
  | columnAggregation task =>
    dsimp only
    rw [add_right_comm, add_assoc _ (((assign _ _ _ _).map _).sum), sum_assign_latest,
      latestFrames_some]
    abel
  | filteredColumnAggregation task =>
    dsimp only
    rw [add_assoc _ (((assign _ _ _ _).map _).sum), sum_assign_latest, latestFrames_some]
    abel

/-- An update of an ordering task with other constraints is ignored. -/
theorem registerTask_of_not_takes (hnot : tasks.takes value = false) :
    registerTask false version progress value tasks = tasks := by
  unfold TableComputationTasks.takes at hnot
  cases value with
  | tableOrdering task =>
    dsimp only at hnot
    cases hcurrent : tasks.orderingTask with
    | none =>
      rw [hcurrent] at hnot
      cases hnot
    | some current =>
      rw [hcurrent] at hnot
      unfold registerTask
      dsimp only at hnot ⊢
      rw [hcurrent]
      dsimp only
      rw [hnot]
      rfl
  | _ => cases hnot

theorem latestFrames_succeeded {T : Type} (kind : T → TaskValue D R) (now : ℕ)
    (task : Option (WithProgress T)) :
    latestFrames kind (task.map (·.succeeded now)) = latestFrames kind task := by
  cases task <;> rfl

theorem sum_assign_succeeded {T : Type} (kind : T → TaskValue D R) (now : ℕ)
    {tasks : List (Option (WithProgress T))} {index : ℕ} {task : WithProgress T}
    (hslot : slot tasks index = some task) :
    ((assign none tasks index (some (task.succeeded now))).map (latestFrames kind)).sum =
      (tasks.map (latestFrames kind)).sum := by
  have hsum := sum_assign_latest kind tasks index (some (task.succeeded now))
  rw [hslot] at hsum
  exact add_right_cancel hsum

/-- One part of a total is exchanged for another. -/
theorem exchange {rest rest' old new acquired released : Multiset D}
    (h : new + released = old + acquired) :
    rest + old + rest' + acquired = rest + new + rest' + released :=
  calc rest + old + rest' + acquired
      = rest + rest' + (old + acquired) := by abel
    _ = rest + rest' + (new + released) := by rw [h]
    _ = rest + new + rest' + released := by abel

theorem sum_plainAggregates (aggregates : List (Option (FilteredColumnAggregation D))) :
    ((plainAggregates aggregates).map aggregateFrames).sum =
      (aggregates.map fun aggregate => aggregateFrames (aggregate.map (·.aggregate))).sum := by
  rw [plainAggregates, List.map_map]
  rfl

theorem balance_destroyed_iff :
    tableState.frames = tableState.shownFrames + tableState.tasks.releasedFrames ↔
      tableState.tasks.Released := by
  rw [← leakedFrames_eq_zero_iff, TableComputationState.frames, frames_eq_released_add_leaked,
    ← add_assoc, add_eq_left]

theorem destroyed_le (tableState : TableComputationState D R) :
    tableState.shownFrames + tableState.tasks.releasedFrames ≤ tableState.frames := by
  rw [TableComputationState.frames, frames_eq_released_add_leaked, ← add_assoc]
  exact Multiset.le_add_right _ _

end Changes

/-! ## Steps -/

section Steps

variable [DecidableEq D] {state : ComputationState D R} {tableId : ℕ}
  {tableState tableState' : TableComputationState D R}
  {memory middle memory' : DataFrameRegistry D} {acquired released : Multiset D}

/-- The references and the counts after an action. -/
def BalancesIf (condition : Prop) (state : ComputationState D R) (memory : DataFrameRegistry D)
    (after : ComputationState D R × DataFrameRegistry D) : Prop :=
  BalancedIf condition state.frames after.1.frames memory after.2

theorem balanced_setTable (hget : state.tableComputations.get? tableId = some tableState)
    (hacquired : Acquired memory middle acquired) (hreleased : Released middle memory' released)
    (hframes : tableState.frames + acquired = tableState'.frames + released) :
    BalancesIf True state memory (state.setTable tableId tableState', memory') := by
  apply balancedIf_of_eq hacquired hreleased
  apply add_right_cancel (b := tableState.frames)
  calc state.frames + acquired + tableState.frames
      = state.frames + (tableState.frames + acquired) := by abel
    _ = state.frames + tableState'.frames + released := by rw [hframes, add_assoc]
    _ = (state.setTable tableId tableState').frames + tableState.frames + released := by
        rw [frames_setTable hget]
    _ = (state.setTable tableId tableState').frames + released + tableState.frames := by abel

/-- A result that is rejected is released again. -/
theorem balanced_rejected {dataFrame : Option D} :
    BalancesIf True state memory (state, (memory.acquire dataFrame).release dataFrame) :=
  balancedIf_of_eq (acquired_acquire_once memory dataFrame) (released_release _ dataFrame) rfl

theorem balanced_tableOrderingSucceded (now tableId : ℕ) (orderingTable : OrderingTable D R) :
    BalancesIf True state memory
      (tableOrderingSucceded now tableId orderingTable state memory) := by
  unfold tableOrderingSucceded
  dsimp only
  split
  next => exact balanced_rejected
  next tableState hget =>
    split
    next => exact balanced_rejected
    next =>
      split
      next => exact balanced_rejected
      next orderingTask htask =>
        split
        next => exact balanced_rejected
        next =>
          refine balanced_setTable hget (acquired_acquire_once memory _)
            (released_release _ _) ?_
          have hsame : latestFrames .tableOrdering (some (orderingTask.succeeded now)) =
              latestFrames .tableOrdering tableState.tasks.orderingTask := by
            rw [htask]
            rfl
          unfold TableComputationState.frames TableComputationState.shownFrames
            TableComputationTasks.frames
          dsimp only
          rw [hsame, map_some]
          abel

theorem balanced_clearTableOrdering (tableId : ℕ) :
    BalancesIf True state memory (clearTableOrdering tableId state memory) := by
  unfold clearTableOrdering
  split
  next => exact .refl _ _
  next tableState hget =>
    refine balanced_setTable hget (.refl memory) (released_release _ _) ?_
    have hsame : latestFrames .tableOrdering (tableState.tasks.orderingTask.map
        fun orderingTask => { orderingTask with
          task := { orderingTask.task with orderingConstraints := [] } }) =
        latestFrames .tableOrdering tableState.tasks.orderingTask := by
      cases tableState.tasks.orderingTask <;> rfl
    unfold TableComputationState.frames TableComputationState.shownFrames
      TableComputationTasks.frames
    dsimp only
    rw [hsame, map_none, optional_none]
    abel

theorem balanced_tableAggregationSucceeded (now tableId : ℕ)
    (tableAggregation : TableAggregation D R) :
    BalancesIf True state memory
      (tableAggregationSucceeded now tableId tableAggregation state memory) := by
  unfold tableAggregationSucceeded
  dsimp only
  split
  next => exact balanced_rejected
  next tableState hget =>
    refine balanced_setTable hget (acquired_acquire_once memory _) (released_release _ _) ?_
    unfold TableComputationState.frames TableComputationState.shownFrames
      TableComputationTasks.frames
    dsimp only
    rw [latestFrames_succeeded, map_some]
    abel

theorem balanced_systemColumnComputationSucceeded (now tableId : ℕ) (dataTable : ArrowTable R)
    (dataFrame : D) (columnGroups : List ColumnGroup) :
    BalancesIf True state memory
      (systemColumnComputationSucceeded now tableId dataTable dataFrame columnGroups state
        memory) := by
  unfold systemColumnComputationSucceeded
  dsimp only
  split
  next => exact balanced_rejected
  next tableState hget =>
    refine balanced_setTable hget (acquired_acquire_once memory _) (released_release _ _) ?_
    unfold TableComputationState.frames TableComputationState.shownFrames
      TableComputationTasks.frames
    dsimp only
    rw [latestFrames_succeeded]
    abel

theorem balanced_umapComputationSucceeded (tableId : ℕ) (dataTable : ArrowTable R)
    (dataFrame : D) (columnGroups : List ColumnGroup) :
    BalancesIf True state memory
      (umapComputationSucceeded tableId dataTable dataFrame columnGroups state memory) := by
  unfold umapComputationSucceeded
  dsimp only
  split
  next => exact balanced_rejected
  next tableState hget =>
    refine balanced_setTable hget (acquired_acquire_once memory _) (released_release _ _) ?_
    unfold TableComputationState.frames TableComputationState.shownFrames
    dsimp only
    abel

theorem balanced_columnAggregationSucceeded (now tableId columnId : ℕ)
    (columnAggregate : ColumnAggregationVariant D) :
    BalancesIf True state memory
      (columnAggregationSucceeded now tableId columnId columnAggregate state memory) := by
  unfold columnAggregationSucceeded
  dsimp only
  split
  next => exact balanced_rejected
  next tableState hget =>
    split
    next => exact balanced_rejected
    next currentTask htask =>
      refine balanced_setTable hget (acquired_acquire_once memory _)
        (released_release _ ((slot tableState.columnAggregates columnId).bind (·.dataFrame))) ?_
      have haggregates : ((assign none tableState.columnAggregates columnId
          (some columnAggregate)).map aggregateFrames).sum +
          aggregateFrames (slot tableState.columnAggregates columnId) =
          (tableState.columnAggregates.map aggregateFrames).sum +
            aggregateFrames (some columnAggregate) := sum_assign rfl
      have htasks := sum_assign_succeeded .columnAggregation now htask
      change _ + aggregateFrames (some columnAggregate) =
        _ + aggregateFrames (slot tableState.columnAggregates columnId)
      unfold TableComputationState.frames TableComputationState.shownFrames
        TableComputationTasks.frames
      dsimp only
      rw [htasks, add_assoc (_ + (tableState.columnAggregates.map aggregateFrames).sum),
        add_assoc (_ + ((assign none _ _ _).map aggregateFrames).sum)]
      exact exchange haggregates

theorem balanced_filteredColumnAggregationSucceeded (now tableId columnId : ℕ)
    (completedFilterVersion : ComputationStateVersion)
    (newColumnAggregate : Option (FilteredColumnAggregation D)) :
    BalancesIf True state memory
      (filteredColumnAggregationSucceeded now tableId columnId completedFilterVersion
        newColumnAggregate state memory) := by
  unfold filteredColumnAggregationSucceeded
  dsimp only
  split
  next => exact balanced_rejected
  next tableState hget =>
    split
    next currentTask filterTable htask hfilter =>
      split
      next => exact balanced_rejected
      next =>
        let prev := (slot tableState.filteredColumnAggregates columnId).map (·.aggregate)
        refine balanced_setTable hget (acquired_acquire_once memory _)
          (released_release _ (prev.bind (·.dataFrame))) ?_
        have haggregates : ((assign none tableState.filteredColumnAggregates columnId
            newColumnAggregate).map fun aggregate =>
              aggregateFrames (aggregate.map (·.aggregate))).sum + aggregateFrames prev =
            (tableState.filteredColumnAggregates.map fun aggregate =>
              aggregateFrames (aggregate.map (·.aggregate))).sum +
              aggregateFrames (newColumnAggregate.map (·.aggregate)) := sum_assign rfl
        have htasks := sum_assign_succeeded .filteredColumnAggregation now htask
        change _ + aggregateFrames (newColumnAggregate.map (·.aggregate)) =
          _ + aggregateFrames prev
        unfold TableComputationState.frames TableComputationState.shownFrames
          TableComputationTasks.frames
        dsimp only
        rw [htasks, sum_plainAggregates, sum_plainAggregates]
        exact exchange haggregates
    next => exact balanced_rejected

theorem balanced_tableFilteringSucceeded (now tableId : ℕ)
    (completedVersion : ComputationStateVersion) (filterTable : Option (FilterTable D R)) :
    BalancesIf True state memory
      (tableFilteringSucceeded now tableId completedVersion filterTable state memory) := by
  unfold tableFilteringSucceeded
  dsimp only
  split
  next => exact balanced_rejected
  next tableState hget =>
    split
    next => exact balanced_rejected
    next =>
      unfold tableFilteringSucceded
      rw [hget]
      cases filterTable with
      | none =>
        refine balanced_setTable hget (acquired_acquire_once memory none)
          (((released_releaseColumnAggregates _
              (plainAggregates tableState.filteredColumnAggregates)).trans
            (released_release _ (tableState.filterTable.map (·.dataFrame)))).trans
            (released_release _ (tableState.orderingTable.map (·.dataFrame)))) ?_
        have hcleared : ∀ count, ((plainAggregates (D := D) (List.replicate count none)).map
            aggregateFrames).sum = 0 := by
          intro count
          rw [sum_plainAggregates, sum_map_eq_zero_iff]
          intro aggregate haggregate
          rw [eq_of_mem_replicate haggregate]
          rfl
        unfold TableComputationState.frames TableComputationState.shownFrames
          TableComputationTasks.frames
        dsimp only
        rw [hcleared, latestFrames_succeeded, map_none, map_none, optional_none]
        abel
      | some filterTable =>
        refine balanced_setTable hget
          (acquired_acquire_once memory (some filterTable.dataFrame))
          ((released_release _ (tableState.filterTable.map (·.dataFrame))).trans
            (released_release _ (tableState.orderingTable.map (·.dataFrame)))) ?_
        unfold TableComputationState.frames TableComputationState.shownFrames
          TableComputationTasks.frames
        dsimp only
        rw [latestFrames_succeeded, map_none, map_some, optional_none]
        abel

theorem balanced_setCrossFilters (tableId : ℕ) (crossFilters : CrossFilters) :
    BalancesIf True state memory (setCrossFilters tableId crossFilters state, memory) := by
  unfold setCrossFilters
  split
  next => exact .refl _ _
  next tableState hget =>
    split
    next => exact .refl _ _
    next => exact balanced_setTable hget (.refl memory) (.refl memory) rfl

/-- Nothing is done where there is nothing. -/
theorem balancesIf_of_none {α : Type} {found : Option α} {p : α → Prop} (hnone : found = none) :
    BalancesIf (∀ value, found = some value → p value) state memory (state, memory) :=
  BalancedIf.congr (iff_of_true trivial fun _ hsome =>
    absurd (hnone.symm.trans hsome) (some_ne_none _).symm) (.refl _ _)

theorem balancedIf_createdDataFrame (tableId : ℕ) (dataFrame : D) :
    BalancesIf (state.tableComputations.get? tableId).isSome state memory
      (createdDataFrame tableId dataFrame state memory) := by
  unfold createdDataFrame
  dsimp only
  cases hget : state.tableComputations.get? tableId with
  | none =>
    -- nothing refers to the data frame that was acquired
    refine ⟨_, _, 0, acquired_acquire_once memory (some dataFrame), .refl _, Multiset.zero_le _, ?_⟩
    refine iff_of_false (fun hbalance => ?_) Bool.false_ne_true
    have hframe : optional (some dataFrame) = 0 := add_left_cancel hbalance
    exact absurd (optional_eq_zero_iff.mp hframe) (some_ne_none _)
  | some tableState =>
    refine BalancedIf.congr (iff_of_true trivial rfl) (balanced_setTable hget
      (acquired_acquire_once memory (some dataFrame)) (released_release _ _) ?_)
    unfold TableComputationState.frames TableComputationState.shownFrames
    dsimp only
    abel

theorem balancesIf_destroyed {after : ComputationState D R}
    (hget : state.tableComputations.get? tableId = some tableState)
    (hframes : after.frames + tableState.frames = state.frames) :
    BalancesIf (∀ tableState, state.tableComputations.get? tableId = some tableState →
      tableState.tasks.Released) state memory
      (after, destroyTableComputationState tableState memory) := by
  have hle : tableState.frames ≤ state.frames := hframes ▸ Multiset.le_add_left _ _
  refine ⟨memory, 0, _, .refl memory, released_destroy memory tableState,
    (destroyed_le tableState).trans (hle.trans_eq (add_zero _).symm), ?_⟩
  rw [add_zero, ← hframes, add_right_inj, balance_destroyed_iff]
  exact ⟨fun h _ hsome => some.inj (hget.symm.trans hsome) ▸ h, fun h => h tableState hget⟩

theorem balancedIf_deleteComputation (tableId : ℕ) :
    BalancesIf (KeepsCounts (.deleteComputation tableId) state) state memory
      (deleteComputation tableId state memory) := by
  unfold deleteComputation
  split
  next hget => exact balancesIf_of_none hget
  next tableState hget =>
    refine balancesIf_destroyed hget ?_
    have htotal : (state.tableComputations.delete tableId).total (·.frames) +
        (state.tableComputations.get? tableId).elim 0 (·.frames) =
        state.tableComputations.total (·.frames) := total_delete
    rw [hget, elim_some] at htotal
    change (state.tableComputations.delete tableId).total (·.frames) +
      state.schedulerTasks.total (·.value.frames) + _ = _
    rw [add_right_comm, htotal]
    rfl

theorem balancedIf_computationFromQueryResult (tableId : ℕ) (table : ArrowTable R)
    (tableColumns : List ColumnGroup) :
    BalancesIf (KeepsCounts (.computationFromQueryResult tableId table tableColumns) state) state
      memory (computationFromQueryResult tableId table tableColumns state memory) := by
  unfold computationFromQueryResult
  cases hget : state.tableComputations.get? tableId with
  | none =>
    refine BalancedIf.congr (iff_of_true trivial fun tableState hsome =>
      absurd (hget.symm.trans hsome) (some_ne_none _).symm) ?_
    dsimp only
    rw [frames_setTable_of_none hget, frames_create, add_zero]
    exact .refl _ _
  | some tableState =>
    refine balancesIf_destroyed hget ?_
    rw [frames_setTable hget, frames_create, add_zero]

theorem balancedIf_unregister (task : TaskVariant D R) (now : ℕ) :
    BalancesIf (KeepsCounts (.unregisterSchedulerTask task) state) state memory
      (reduceComputationState now (.unregisterSchedulerTask task) state memory) := by
  unfold reduceComputationState KeepsCounts
  dsimp only
  cases hid : task.taskId with
  | none => exact balancesIf_of_none rfl
  | some taskId =>
    let unregistered : ComputationState D R :=
      { state with schedulerTasks := state.schedulerTasks.delete taskId }
    have hframes : unregistered.frames + state.registeredFrames taskId = state.frames := by
      have htotal : (state.schedulerTasks.delete taskId).total (·.value.frames) +
          state.registeredFrames taskId = state.schedulerTasks.total (·.value.frames) :=
        total_delete
      change state.tableComputations.total (·.frames) +
        (state.schedulerTasks.delete taskId).total (·.value.frames) + _ = _
      rw [add_assoc]
      exact congrArg _ htotal
    refine ⟨memory, 0, 0, .refl memory, .refl memory, Multiset.zero_le _, ?_⟩
    change state.frames + 0 = unregistered.frames + 0 ↔ _
    rw [add_zero, add_zero, ← hframes, add_eq_left]
    exact ⟨fun h _ hsome => some.inj hsome ▸ h, fun h => h taskId rfl⟩

theorem frames_updateTask (memory : DataFrameRegistry D) (task : TaskVariant D R)
    (progress : TaskProgress) (create : Bool)
    (hget : state.tableComputations.get? task.value.tableId = some tableState) :
    let version := updatedVersion create task.value tableState.version
    let value := stampTask create version task.value
    (updateTask state task progress memory create).1.frames + tableState.tasks.frames +
        state.registeredFrames (task.taskId.getD state.nextSchedulerTaskId) =
      state.frames + (registerTask create version progress value tableState.tasks).frames +
        task.value.frames := by
  intro version value
  let updated : TableComputationState D R := { tableState with
    version
    tasks := registerTask create version progress value tableState.tasks }
  let taskId := task.taskId.getD state.nextSchedulerTaskId
  have htables : (state.tableComputations.set task.value.tableId updated).total (·.frames) +
      tableState.frames = state.tableComputations.total (·.frames) + updated.frames := by
    have htotal : (state.tableComputations.set task.value.tableId updated).total (·.frames) +
        (state.tableComputations.get? task.value.tableId).elim 0 (·.frames) =
        state.tableComputations.total (·.frames) + updated.frames := total_set
    rwa [hget, elim_some] at htotal
  have hscheduler : (state.schedulerTasks.set taskId { taskId := some taskId, value }).total
      (·.value.frames) + state.registeredFrames taskId =
      state.schedulerTasks.total (·.value.frames) + task.value.frames := by
    rw [← frames_stampTask create version task.value]
    exact total_set
  have hresult : (updateTask state task progress memory create).1.frames =
      (state.tableComputations.set task.value.tableId updated).total (·.frames) +
        (state.schedulerTasks.set taskId { taskId := some taskId, value }).total
          (·.value.frames) := by
    unfold updateTask
    rw [hget]
    rfl
  rw [hresult]
  apply add_right_cancel (b := tableState.shownFrames)
  calc _ = ((state.tableComputations.set task.value.tableId updated).total (·.frames) +
          (tableState.shownFrames + tableState.tasks.frames)) +
        ((state.schedulerTasks.set taskId { taskId := some taskId, value }).total
          (·.value.frames) + state.registeredFrames taskId) := by abel
    _ = state.frames + updated.frames + task.value.frames := by
        rw [hscheduler, ← TableComputationState.frames, htables, ComputationState.frames]
        abel
    _ = state.frames + (tableState.shownFrames + updated.tasks.frames) + task.value.frames := rfl
    _ = _ := by abel

section Updates

variable (memory : DataFrameRegistry D) (task : TaskVariant D R) (progress : TaskProgress)
  (hget : state.tableComputations.get? task.value.tableId = some tableState)

include hget

theorem frames_updateTask_of_takes (create : Bool)
    (htakes : create = true ∨ tableState.tasks.takes task.value = true) :
    (updateTask state task progress memory create).1.frames +
        (tableState.tasks.currentFrames task.value +
          state.registeredFrames (task.taskId.getD state.nextSchedulerTaskId)) =
      state.frames + 2 • task.value.frames := by
  have hupdate := frames_updateTask memory task progress create hget
  have htasks := frames_registerTask create (updatedVersion create task.value tableState.version)
    progress (stampTask create (updatedVersion create task.value tableState.version) task.value)
    tableState.tasks (htakes.imp_right fun htakes => (takes_stampTask create _ _ _).trans htakes)
  rw [currentFrames_stampTask, frames_stampTask] at htasks
  apply add_right_cancel (b := tableState.tasks.frames)
  rw [add_comm (tableState.tasks.currentFrames _), ← add_assoc, add_right_comm,
    add_right_comm _ _ tableState.tasks.frames, hupdate, add_right_comm, add_assoc state.frames,
    htasks, two_smul]
  abel

/-- An update that is ignored in its place still replaces the task under its id. -/
theorem frames_updateTask_of_not_takes (hnot : tableState.tasks.takes task.value = false) :
    (updateTask state task progress memory false).1.frames +
        state.registeredFrames (task.taskId.getD state.nextSchedulerTaskId) =
      state.frames + task.value.frames := by
  have hupdate := frames_updateTask memory task progress false hget
  dsimp only at hupdate
  rw [registerTask_of_not_takes _ progress _ _ ((takes_stampTask false _ _ _).trans hnot),
    add_right_comm, add_right_comm state.frames] at hupdate
  exact add_right_cancel hupdate

end Updates

theorem updateTask_of_none (task : TaskVariant D R) (progress : TaskProgress) (create : Bool)
    (hget : state.tableComputations.get? task.value.tableId = none) :
    updateTask state task progress memory create = (state, memory) := by
  unfold updateTask
  rw [hget]

theorem balancedIf_scheduleTask (now : ℕ) (task : TaskVariant D R) :
    BalancesIf (KeepsCounts (.scheduleTask task) state) state memory
      (reduceComputationState now (.scheduleTask task) state memory) := by
  unfold reduceComputationState KeepsCounts
  dsimp only
  cases hget : state.tableComputations.get? task.value.tableId with
  | none =>
    rw [updateTask_of_none task _ true hget]
    exact balancesIf_of_none rfl
  | some tableState =>
    have hmemory : ∀ progress, (updateTask state task progress memory true).2 =
        acquireTask task.value memory := by
      intro progress
      unfold updateTask
      rw [hget]
      rfl
    unfold BalancesIf
    rw [hmemory]
    refine ⟨_, _, 0, acquired_acquireTask memory task.value, .refl _, Multiset.zero_le _, ?_⟩
    rw [add_zero, ← frames_updateTask_of_takes memory task _ hget true (.inl rfl), add_eq_left,
      add_eq_zero]
    exact ⟨fun h _ hsome => some.inj hsome ▸ h, fun h => h tableState rfl⟩

theorem balancedIf_updateSchedulerTask (now : ℕ) (task : TaskVariant D R)
    (progress : TaskProgress) :
    BalancesIf (KeepsCounts (.updateSchedulerTask task progress) state) state memory
      (reduceComputationState now (.updateSchedulerTask task progress) state memory) := by
  unfold reduceComputationState KeepsCounts
  dsimp only
  cases hget : state.tableComputations.get? task.value.tableId with
  | none =>
    rw [updateTask_of_none task _ false hget]
    exact balancesIf_of_none rfl
  | some tableState =>
    have hmemory : (updateTask state task progress memory false).2 = memory := by
      unfold updateTask
      rw [hget]
      rfl
    unfold BalancesIf
    rw [hmemory]
    refine ⟨memory, 0, 0, .refl memory, .refl memory, Multiset.zero_le _, ?_⟩
    simp only [add_zero, some.injEq, forall_eq']
    -- what the update replaces has to be what it puts in
    cases htakes : tableState.tasks.takes task.value with
    | true =>
      have hframes := frames_updateTask_of_takes memory task progress hget false (.inr htakes)
      rw [if_pos rfl]
      constructor
      · intro hsame
        rw [← hsame] at hframes
        exact add_left_cancel hframes
      · intro hreplaced
        rw [hreplaced] at hframes
        exact (add_right_cancel hframes).symm
    | false =>
      have hframes := frames_updateTask_of_not_takes memory task progress hget htakes
      rw [if_neg Bool.false_ne_true]
      constructor
      · intro hsame
        rw [← hsame] at hframes
        exact add_left_cancel hframes
      · intro hreplaced
        rw [hreplaced] at hframes
        exact (add_right_cancel hframes).symm

/-- An action changes the references by what it acquires and releases exactly if it meets the
condition. -/
theorem balancedIf_step (now : ℕ) (action : ComputationAction D R) :
    BalancesIf (KeepsCounts action state) state memory
      (reduceComputationState now action state memory) := by
  cases action with
  | scheduleTask => exact balancedIf_scheduleTask ..
  | updateSchedulerTask => exact balancedIf_updateSchedulerTask ..
  | unregisterSchedulerTask => exact balancedIf_unregister ..
  | computationFromQueryResult => exact balancedIf_computationFromQueryResult ..
  | deleteComputation => exact balancedIf_deleteComputation ..
  | createdDataFrame => exact balancedIf_createdDataFrame ..
  | tableOrderingSucceded => exact balanced_tableOrderingSucceded ..
  | clearTableOrdering => exact balanced_clearTableOrdering ..
  | tableFilteringSucceeded => exact balanced_tableFilteringSucceeded ..
  | tableAggregationSucceeded => exact balanced_tableAggregationSucceeded ..
  | systemColumnComputationSucceeded => exact balanced_systemColumnComputationSucceeded ..
  | umapComputationSucceeded => exact balanced_umapComputationSucceeded ..
  | columnAggregationSucceeded => exact balanced_columnAggregationSucceeded ..
  | filteredColumnAggregationSucceeded => exact balanced_filteredColumnAggregationSucceeded ..
  | setCrossFilters => exact balanced_setCrossFilters ..

theorem exact_step_iff {base : D → ℕ} (now : ℕ) (action : ComputationAction D R)
    (hexact : Exact base state.frames memory) :
    Exact base (reduceComputationState now action state memory).1.frames
        (reduceComputationState now action state memory).2 ↔ KeepsCounts action state :=
  hexact.step_iff (balancedIf_step now action)

end Steps

/-! ## Runs -/

section Runs

variable [DecidableEq D] {actions : List (ℕ × ComputationAction D R)}
  {memory : DataFrameRegistry D}

/-- The counts are exact in every state that a run reaches exactly if every action of the run meets
the condition. -/
theorem exact_run_iff :
    (∀ front back, actions = front ++ back →
      Exact memory.count (replay dispatch front (createComputationState, memory)).1.frames
        (replay dispatch front (createComputationState, memory)).2) ↔
      ReplayMeets dispatch (fun action system => KeepsCounts action.2 system.1) actions
        (createComputationState, memory) := by
  have hstep : ∀ (action : ℕ × ComputationAction D R)
      (system : ComputationState D R × DataFrameRegistry D),
      Exact memory.count system.1.frames system.2 →
      (Exact memory.count (dispatch action system).1.frames (dispatch action system).2 ↔
        KeepsCounts action.2 system.1) :=
    fun action system => exact_step_iff action.1 action.2
  have hfirst : Exact memory.count (createComputationState : ComputationState D R).frames memory :=
    fun _ => (Nat.add_zero _).symm
  exact replay_invariant_iff
    (fun system : ComputationState D R × DataFrameRegistry D =>
      Exact memory.count system.1.frames system.2) hstep hfirst

/-- In a run of such actions no data frame is destroyed that the state refers to afterwards, and
when no table and no scheduled task is left, the counts are those before the run. -/
theorem frames_counted_of_run
    (hmeets : ReplayMeets dispatch (fun action system => KeepsCounts action.2 system.1) actions
      ((createComputationState : ComputationState D R), memory)) :
    (∀ front action back, actions = front ++ action :: back →
      ∀ dataFrame ∈ destroyedSince (replay dispatch front (createComputationState, memory)).2
          (replay dispatch (front ++ [action]) (createComputationState, memory)).2,
        dataFrame ∉ (replay dispatch (front ++ [action]) (createComputationState, memory)).1.frames) ∧
    ∀ front back, actions = front ++ back →
      (replay dispatch front (createComputationState, memory)).1.tableComputations.entries = [] →
      (replay dispatch front (createComputationState, memory)).1.schedulerTasks.entries = [] →
      ∀ dataFrame, (replay dispatch front (createComputationState, memory)).2.count dataFrame =
        memory.count dataFrame := by
  have hexact := exact_run_iff.mpr hmeets
  constructor
  · intro front action back hsplit
    have hafter := hexact (front ++ [action]) back (by rw [hsplit, append_assoc]; rfl)
    rw [replay_append] at hafter ⊢
    exact hafter.not_mem_of_destroyed (balancedIf_step action.1 action.2)
  · intro front back hsplit htables htasks
    have hreached := hexact front back hsplit
    have hnone : (replay dispatch front (createComputationState, memory)).1.frames = 0 := by
      unfold ComputationState.frames InsertionMap.total InsertionMap.values
      rw [htables, htasks]
      rfl
    rw [hnone] at hreached
    exact hreached.count_eq

/-- A table gets a data frame and statistics, and is deleted. -/
theorem frames_counted_deleted :
    let actions : List (ℕ × ComputationAction ℕ Unit) :=
      [(0, .computationFromQueryResult 1 ⟨[['a']], ()⟩ [.ordinal]), (1, .createdDataFrame 1 7),
        (2, .tableAggregationSucceeded 1 ⟨8, ⟨[], ()⟩, ['c']⟩), (3, .deleteComputation 1)]
    (replay dispatch actions (createComputationState, ⟨.empty, []⟩)).2.count 7 = 0 := by
  intro actions
  have hmeets : ReplayMeets dispatch (fun action system => KeepsCounts action.2 system.1) actions
      (createComputationState, ⟨.empty, []⟩) := by
    refine ⟨?_, rfl, trivial, ?_, trivial⟩
    · exact fun _ hget => absurd hget (some_ne_none _).symm
    · intro tableState hget
      obtain rfl := some.inj hget
      exact ⟨rfl, fun _ htask => eq_of_mem_replicate htask,
        fun _ htask => eq_of_mem_replicate htask⟩
  exact (frames_counted_of_run hmeets).2 actions [] (append_nil _).symm rfl rfl 7

/-- A task that was scheduled and unregistered leaves its data frame counted when its table is gone.
And the late updates of a task put it into new tables without acquiring it: with the last of them
the data frame is destroyed, which another table still shows. -/
theorem counts_lost_with_tasks :
    let task : TaskVariant ℕ Unit :=
      { taskId := some 1, value := .tableAggregation ⟨1, {}, [.ordinal], 7⟩ }
    let queried (tableId : ℕ) : ℕ × ComputationAction ℕ Unit :=
      (0, .computationFromQueryResult tableId ⟨[['a']], ()⟩ [.ordinal])
    let leaked := replay dispatch [queried 1, (1, .createdDataFrame 1 7), (2, .scheduleTask task),
      (3, .unregisterSchedulerTask task), (4, .deleteComputation 1)]
      (createComputationState, ⟨.empty, []⟩)
    let shown := replay dispatch [queried 1, (1, .createdDataFrame 1 7), queried 2,
      (1, .createdDataFrame 2 7), (2, .scheduleTask task), (3, .deleteComputation 1), queried 1,
      (4, .updateSchedulerTask task { status := some .running }), (5, .deleteComputation 1),
      queried 1, (6, .updateSchedulerTask task { status := some .failed }),
      (7, .deleteComputation 1)] (createComputationState, ⟨.empty, []⟩)
    (leaked.1.tableComputations.entries.length = 0 ∧ leaked.1.schedulerTasks.entries.length = 0 ∧
      leaked.2.count 7 = 1) ∧
    (shown.1.tableComputations.get? 2).bind (·.dataFrame) = some 7 ∧ shown.2.destroyed = [7] := by
  decide

end Runs

end DashQL.Compute
