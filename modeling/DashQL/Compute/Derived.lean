import DashQL.Compute.Reduce
import DashQL.Library.Replay

/-!
# Derived fields of a table

A table keeps an index of the fields of its data table, and arrays with a slot for every column
group.  The data table and the column groups are replaced by three actions, and not all of them
bring the derived fields up to date.

`derived_of_run_iff` says exactly in which runs all derived fields agree with the data all along.
-/

namespace DashQL.Compute

open List Option


open SparseArray (assign length_le_assign)

variable {D R : Type}

/-! ## What agrees -/

/-- The arrays with a slot for every column group have so many slots. -/
structure TableComputationState.HasSlots (tableState : TableComputationState D R) (count : ℕ) :
    Prop where
  columnAggregates : count ≤ tableState.columnAggregates.length
  filteredColumnAggregates : count ≤ tableState.filteredColumnAggregates.length
  filteredColumnAggregatesOutdated : count ≤ tableState.filteredColumnAggregatesOutdated.length
  columnAggregationTasks : count ≤ tableState.tasks.columnAggregationTasks.length
  filteredColumnAggregationTasks : count ≤ tableState.tasks.filteredColumnAggregationTasks.length

/-- The index of a table is that of a data table: it gives the same index for every name. -/
def TableComputationState.Indexes (tableState : TableComputationState D R)
    (dataTable : ArrowTable R) : Prop :=
  ∀ name, tableState.dataTableFieldsByName.get? name = (createArrowFieldIndex dataTable).get? name

/-- The derived fields of a table agree with the data they describe. -/
structure TableComputationState.Derived (tableState : TableComputationState D R) : Prop where
  index : tableState.Indexes tableState.dataTable
  slots : tableState.HasSlots tableState.columnGroups.length

/-- The derived fields of all tables agree. -/
def ComputationState.Derived (state : ComputationState D R) : Prop :=
  ∀ tableId tableState, state.tableComputations.get? tableId = some tableState → tableState.Derived

/-- An action that does not leave a derived field behind: where system columns are added, the
index is that of the new data table already, and where column groups are replaced, there are slots
for the new ones. -/
def KeepsDerived (action : ComputationAction D R) (state : ComputationState D R) : Prop :=
  match action with
  | .systemColumnComputationSucceeded tableId dataTable _ columnGroups =>
    ∀ tableState, state.tableComputations.get? tableId = some tableState →
      tableState.Indexes dataTable ∧ tableState.HasSlots columnGroups.length
  | .umapComputationSucceeded tableId _ _ columnGroups =>
    ∀ tableState, state.tableComputations.get? tableId = some tableState →
      tableState.HasSlots columnGroups.length
  | _ => True

/-! ## Tables that describe the same data -/

/-- A table with the same data and index, and no fewer slots. -/
structure Extends (tableState tableState' : TableComputationState D R) : Prop where
  dataTable : tableState'.dataTable = tableState.dataTable
  index : tableState'.dataTableFieldsByName = tableState.dataTableFieldsByName
  columnGroups : tableState'.columnGroups = tableState.columnGroups
  slots : ∀ count, tableState.HasSlots count → tableState'.HasSlots count

variable {state state' : ComputationState D R} {tableId : ℕ}
  {tableState tableState' : TableComputationState D R}

theorem Extends.derived (h : Extends tableState tableState') (hderived : tableState.Derived) :
    tableState'.Derived where
  index := by
    intro name
    rw [h.index, h.dataTable]
    exact hderived.index name
  slots := by
    rw [h.columnGroups]
    exact h.slots _ hderived.slots

def ExtendsTables (state state' : ComputationState D R) : Prop :=
  ∀ tableId tableState', state'.tableComputations.get? tableId = some tableState' →
    ∃ tableState, state.tableComputations.get? tableId = some tableState ∧
      Extends tableState tableState'

theorem ExtendsTables.derived (h : ExtendsTables state state') (hderived : state.Derived) :
    state'.Derived := by
  intro tableId tableState' hget'
  obtain ⟨tableState, hget, hextends⟩ := h tableId tableState' hget'
  exact hextends.derived (hderived tableId tableState hget)

theorem ExtendsTables.refl (state : ComputationState D R) : ExtendsTables state state :=
  fun _ tableState hget => ⟨tableState, hget, rfl, rfl, rfl, fun _ hslots => hslots⟩

theorem extendsTables_of_eq (h : state'.tableComputations = state.tableComputations) :
    ExtendsTables state state' := by
  intro tableId tableState' hget
  rw [h] at hget
  exact ExtendsTables.refl state tableId tableState' hget

theorem extendsTables_set (hget : state.tableComputations.get? tableId = some tableState)
    (htables : state'.tableComputations = state.tableComputations.set tableId tableState')
    (hextends : Extends tableState tableState') :
    ExtendsTables state state' := by
  intro other found hfound
  rw [htables, InsertionMap.get?_set] at hfound
  split_ifs at hfound with heq
  · obtain rfl := some.inj hfound
    exact ⟨tableState, heq ▸ hget, hextends⟩
  · exact ExtendsTables.refl state other found hfound

/-- Where one table is replaced, what matters is that table. -/
theorem derived_setTable_iff (hderived : state.Derived) :
    (state.setTable tableId tableState').Derived ↔ tableState'.Derived := by
  constructor
  · intro h
    exact h tableId tableState' InsertionMap.get?_set_self
  · intro h other found hfound
    change (state.tableComputations.set tableId tableState').get? other = some found at hfound
    rw [InsertionMap.get?_set] at hfound
    split_ifs at hfound with heq
    · exact some.inj hfound ▸ h
    · exact hderived other found hfound

theorem derived_create (tableId : ℕ) (table : ArrowTable R) (tableColumns : List ColumnGroup) :
    (createTableComputationState tableId table tableColumns : TableComputationState D R).Derived where
  index _ := rfl
  slots :=
    { columnAggregates := (length_replicate ..).ge
      filteredColumnAggregates := (length_replicate ..).ge
      filteredColumnAggregatesOutdated := (length_replicate ..).ge
      columnAggregationTasks := (Nat.le_succ _).trans (length_replicate ..).ge
      filteredColumnAggregationTasks := (Nat.le_succ _).trans (length_replicate ..).ge }

/-! ## Steps -/

section Steps

variable [DecidableEq D]

/-- A task in its place takes no slots away. -/
theorem extends_registerTask (create : Bool) (version : ComputationStateVersion)
    (progress : TaskProgress) (value : TaskValue D R) (tableState : TableComputationState D R) :
    Extends tableState { tableState with
      version
      tasks := registerTask create version progress value tableState.tasks } := by
  refine ⟨rfl, rfl, rfl, fun count hslots => ?_⟩
  have hcolumn : tableState.tasks.columnAggregationTasks.length ≤
      (registerTask create version progress value
        tableState.tasks).columnAggregationTasks.length := by
    unfold registerTask
    split
    case h_2 => dsimp only; split <;> [split_ifs; skip] <;> exact le_rfl
    case h_5 => exact length_le_assign
    all_goals exact le_rfl
  have hfiltered : tableState.tasks.filteredColumnAggregationTasks.length ≤
      (registerTask create version progress value
        tableState.tasks).filteredColumnAggregationTasks.length := by
    unfold registerTask
    split
    case h_2 => dsimp only; split <;> [split_ifs; skip] <;> exact le_rfl
    case h_6 => exact length_le_assign
    all_goals exact le_rfl
  exact
    { hslots with
      columnAggregationTasks := hslots.columnAggregationTasks.trans hcolumn
      filteredColumnAggregationTasks := hslots.filteredColumnAggregationTasks.trans hfiltered }

theorem extendsTables_updateTask (task : TaskVariant D R) (progress : TaskProgress)
    (memory : DataFrameRegistry D) (create : Bool) :
    ExtendsTables state (updateTask state task progress memory create).1 := by
  unfold updateTask
  dsimp only
  split
  next => exact .refl state
  next tableState hget =>
    exact extendsTables_set hget rfl (extends_registerTask create _ progress _ tableState)

theorem extendsTables_deleteComputation (tableId : ℕ) (memory : DataFrameRegistry D) :
    ExtendsTables state (deleteComputation tableId state memory).1 := by
  unfold deleteComputation
  split
  next => exact .refl state
  next =>
    intro other found hfound
    rw [InsertionMap.get?_delete] at hfound
    split_ifs at hfound
    exact ExtendsTables.refl state other found hfound

theorem extendsTables_createdDataFrame (tableId : ℕ) (dataFrame : D)
    (memory : DataFrameRegistry D) :
    ExtendsTables state (createdDataFrame tableId dataFrame state memory).1 := by
  unfold createdDataFrame
  dsimp only
  split
  next => exact .refl state
  next tableState hget => exact extendsTables_set hget rfl ⟨rfl, rfl, rfl, fun _ h => { h with }⟩

theorem extendsTables_tableOrderingSucceded (now tableId : ℕ) (orderingTable : OrderingTable D R)
    (memory : DataFrameRegistry D) :
    ExtendsTables state (tableOrderingSucceded now tableId orderingTable state memory).1 := by
  unfold tableOrderingSucceded
  dsimp only
  split
  next => exact .refl state
  next tableState hget =>
    split
    next => exact .refl state
    next =>
      split
      next => exact .refl state
      next =>
        split
        next => exact .refl state
        next => exact extendsTables_set hget rfl ⟨rfl, rfl, rfl, fun _ h => { h with }⟩

theorem extendsTables_clearTableOrdering (tableId : ℕ) (memory : DataFrameRegistry D) :
    ExtendsTables state (clearTableOrdering tableId state memory).1 := by
  unfold clearTableOrdering
  split
  next => exact .refl state
  next tableState hget => exact extendsTables_set hget rfl ⟨rfl, rfl, rfl, fun _ h => { h with }⟩

/-- The loop over the columns takes no flags away. -/
theorem length_le_outdatedAggregates (tableState : TableComputationState D R)
    (filterTable : FilterTable D R) :
    tableState.filteredColumnAggregatesOutdated.length ≤
      (outdatedAggregates tableState filterTable).length := by
  have hloop : ∀ (flag : ColumnGroup × ℕ → Bool) (columns : List (ColumnGroup × ℕ))
      (outdated : List Bool), outdated.length ≤
        (columns.foldl (fun outdated column => assign false outdated column.2 (flag column))
          outdated).length := by
    intro flag columns
    induction columns with
    | nil => exact fun _ => le_rfl
    | cons column columns ih => exact fun outdated => length_le_assign.trans (ih _)
  exact hloop _ _ _

theorem extendsTables_tableFilteringSucceeded (now tableId : ℕ)
    (completedVersion : ComputationStateVersion) (filterTable : Option (FilterTable D R))
    (memory : DataFrameRegistry D) :
    ExtendsTables state
      (tableFilteringSucceeded now tableId completedVersion filterTable state memory).1 := by
  unfold tableFilteringSucceeded
  dsimp only
  split
  next => exact .refl state
  next tableState hget =>
    split
    next => exact .refl state
    next =>
      unfold tableFilteringSucceded
      rw [hget]
      refine extendsTables_set hget rfl ⟨rfl, rfl, rfl, fun count h => ?_⟩
      cases filterTable with
      | none =>
        exact
          { h with
            filteredColumnAggregates :=
              h.filteredColumnAggregates.trans (length_replicate ..).ge
            filteredColumnAggregatesOutdated :=
              h.filteredColumnAggregatesOutdated.trans (length_replicate ..).ge }
      | some filterTable =>
        exact
          { h with
            filteredColumnAggregatesOutdated := h.filteredColumnAggregatesOutdated.trans
              (length_le_outdatedAggregates tableState filterTable) }

theorem extendsTables_tableAggregationSucceeded (now tableId : ℕ)
    (tableAggregation : TableAggregation D R) (memory : DataFrameRegistry D) :
    ExtendsTables state (tableAggregationSucceeded now tableId tableAggregation state memory).1 := by
  unfold tableAggregationSucceeded
  dsimp only
  split
  next => exact .refl state
  next tableState hget => exact extendsTables_set hget rfl ⟨rfl, rfl, rfl, fun _ h => { h with }⟩

theorem extendsTables_columnAggregationSucceeded (now tableId columnId : ℕ)
    (columnAggregate : ColumnAggregationVariant D) (memory : DataFrameRegistry D) :
    ExtendsTables state
      (columnAggregationSucceeded now tableId columnId columnAggregate state memory).1 := by
  unfold columnAggregationSucceeded
  dsimp only
  split
  next => exact .refl state
  next tableState hget =>
    split
    next => exact .refl state
    next =>
      refine extendsTables_set hget rfl ⟨rfl, rfl, rfl, fun count h => ?_⟩
      exact
        { h with
          columnAggregates := h.columnAggregates.trans length_le_assign
          columnAggregationTasks := h.columnAggregationTasks.trans length_le_assign }

theorem extendsTables_filteredColumnAggregationSucceeded (now tableId columnId : ℕ)
    (completedFilterVersion : ComputationStateVersion)
    (newColumnAggregate : Option (FilteredColumnAggregation D)) (memory : DataFrameRegistry D) :
    ExtendsTables state (filteredColumnAggregationSucceeded now tableId columnId
      completedFilterVersion newColumnAggregate state memory).1 := by
  unfold filteredColumnAggregationSucceeded
  dsimp only
  split
  next => exact .refl state
  next tableState hget =>
    split
    next =>
      split
      next => exact .refl state
      next =>
        refine extendsTables_set hget rfl ⟨rfl, rfl, rfl, fun count h => ?_⟩
        exact
          { h with
            filteredColumnAggregates := h.filteredColumnAggregates.trans length_le_assign
            filteredColumnAggregatesOutdated :=
              h.filteredColumnAggregatesOutdated.trans length_le_assign
            filteredColumnAggregationTasks :=
              h.filteredColumnAggregationTasks.trans length_le_assign }
    next => exact .refl state

theorem extendsTables_setCrossFilters (tableId : ℕ) (crossFilters : CrossFilters) :
    ExtendsTables state (setCrossFilters tableId crossFilters state) := by
  unfold setCrossFilters
  split
  next => exact .refl state
  next tableState hget =>
    split
    next => exact .refl state
    next => exact extendsTables_set hget rfl ⟨rfl, rfl, rfl, fun _ h => { h with }⟩

/-- An action keeps the derived fields of all tables exactly if it leaves none behind. -/
theorem derived_step_iff (now : ℕ) (action : ComputationAction D R) (memory : DataFrameRegistry D)
    (hderived : state.Derived) :
    (reduceComputationState now action state memory).1.Derived ↔ KeepsDerived action state := by
  have hkept : ∀ {state' : ComputationState D R}, ExtendsTables state state' →
      (state'.Derived ↔ True) :=
    fun hextends => iff_true_intro (hextends.derived hderived)
  cases action with
  | scheduleTask => exact hkept (extendsTables_updateTask _ _ _ _)
  | updateSchedulerTask => exact hkept (extendsTables_updateTask _ _ _ _)
  | unregisterSchedulerTask task =>
    apply hkept
    unfold reduceComputationState
    dsimp only
    split
    · exact .refl state
    · exact extendsTables_of_eq rfl
  | computationFromQueryResult =>
    exact iff_true_intro ((derived_setTable_iff hderived).mpr (derived_create ..))
  | deleteComputation => exact hkept (extendsTables_deleteComputation _ _)
  | createdDataFrame => exact hkept (extendsTables_createdDataFrame _ _ _)
  | tableOrderingSucceded => exact hkept (extendsTables_tableOrderingSucceded _ _ _ _)
  | clearTableOrdering => exact hkept (extendsTables_clearTableOrdering _ _)
  | tableFilteringSucceeded => exact hkept (extendsTables_tableFilteringSucceeded _ _ _ _ _)
  | tableAggregationSucceeded => exact hkept (extendsTables_tableAggregationSucceeded _ _ _ _)
  | systemColumnComputationSucceeded tableId dataTable dataFrame columnGroups =>
    unfold reduceComputationState systemColumnComputationSucceeded KeepsDerived
    dsimp only
    cases hget : state.tableComputations.get? tableId with
    | none => exact iff_of_true hderived fun _ hsome => absurd hsome (some_ne_none _).symm
    | some tableState =>
      dsimp only
      rw [derived_setTable_iff hderived]
      -- only the data table and the column groups are replaced
      constructor
      · intro h tableState' hsome
        obtain rfl := some.inj hsome
        exact ⟨h.index, { h.slots with }⟩
      · intro h
        obtain ⟨hindex, hslots⟩ := h tableState rfl
        exact ⟨hindex, { hslots with }⟩
  | umapComputationSucceeded tableId dataTable dataFrame columnGroups =>
    unfold reduceComputationState umapComputationSucceeded KeepsDerived
    dsimp only
    cases hget : state.tableComputations.get? tableId with
    | none => exact iff_of_true hderived fun _ hsome => absurd hsome (some_ne_none _).symm
    | some tableState =>
      dsimp only
      rw [derived_setTable_iff hderived]
      constructor
      · intro h tableState' hsome
        obtain rfl := some.inj hsome
        exact { h.slots with }
      · intro h
        exact ⟨fun _ => rfl, { h tableState rfl with }⟩
  | columnAggregationSucceeded => exact hkept (extendsTables_columnAggregationSucceeded _ _ _ _ _)
  | filteredColumnAggregationSucceeded =>
    exact hkept (extendsTables_filteredColumnAggregationSucceeded _ _ _ _ _ _)
  | setCrossFilters => exact hkept (extendsTables_setCrossFilters _ _)

/-! ## Runs -/

/-- An action that is dispatched at a time of the clock. -/
def dispatch (action : ℕ × ComputationAction D R)
    (system : ComputationState D R × DataFrameRegistry D) :
    ComputationState D R × DataFrameRegistry D :=
  reduceComputationState action.1 action.2 system.1 system.2

/-- The derived fields of all tables agree in every state that a run reaches exactly if no action
of the run leaves one behind. -/
theorem derived_of_run_iff (actions : List (ℕ × ComputationAction D R))
    (memory : DataFrameRegistry D) :
    (∀ front back, actions = front ++ back →
      (replay dispatch front (createComputationState, memory)).1.Derived) ↔
      ReplayMeets dispatch (fun action system => KeepsDerived action.2 system.1) actions
        (createComputationState, memory) := by
  have hstep : ∀ (action : ℕ × ComputationAction D R)
      (system : ComputationState D R × DataFrameRegistry D), system.1.Derived →
      ((dispatch action system).1.Derived ↔ KeepsDerived action.2 system.1) :=
    fun action system => derived_step_iff action.1 action.2 system.2
  have hfirst : (createComputationState : ComputationState D R).Derived :=
    fun _ _ hget => absurd hget (some_ne_none _).symm
  exact replay_invariant_iff
    (fun system : ComputationState D R × DataFrameRegistry D => system.1.Derived) hstep hfirst

/-- A row number column is added to a table with one column: its field is not in the index, and
there is no slot for the second group. -/
theorem derived_lost_with_system_columns :
    let created : ℕ × ComputationAction ℕ Unit :=
      (0, .computationFromQueryResult 1 ⟨[['a']], ()⟩ [.ordinal])
    let added : ℕ × ComputationAction ℕ Unit :=
      (1, .systemColumnComputationSucceeded 1 ⟨[['a'], ['n']], ()⟩ 7 [.ordinal, .rowNumber ['n']])
    let reached := (replay dispatch [created, added] (createComputationState, ⟨.empty, []⟩)).1
    ¬ reached.Derived ∧ ∃ tableState, reached.tableComputations.get? 1 = some tableState ∧
      tableState.dataTableFieldsByName.get? ['n'] = none ∧
      (createArrowFieldIndex tableState.dataTable).get? ['n'] = some 1 ∧
      tableState.columnGroups.length = 2 ∧ tableState.columnAggregates.length = 1 := by
  intro created added reached
  refine ⟨?_, _, rfl, by decide, by decide, by decide, by decide⟩
  intro hderived
  exact absurd ((hderived 1 _ rfl).index ['n']) (by decide)

end Steps

end DashQL.Compute
