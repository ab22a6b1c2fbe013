import DashQL.Library.InsertionMap

/-!
# Catalog updates of a connection

The reducer of the catalog actions, with the fields of the connection state that it reads or writes.
When an update succeeds, the scripts of an active connection are written.
-/

namespace DashQL.Connection

/-! ## State -/

inductive CatalogUpdateVariant where
  | fullCatalogRefresh
  deriving DecidableEq

inductive CatalogUpdateTaskStatus where
  | started
  | succeeded
  | failed
  | cancelled
  deriving DecidableEq

/-- A task; points in time are in milliseconds. -/
structure CatalogUpdateTaskState where
  taskId : ℕ
  taskVariant : CatalogUpdateVariant
  status : CatalogUpdateTaskStatus
  queries : List ℕ
  error : Option String
  startedAt : Option ℤ
  finishedAt : Option ℤ
  lastUpdateAt : Option ℤ

structure CatalogUpdates where
  tasksRunning : InsertionMap ℕ CatalogUpdateTaskState
  tasksFinished : InsertionMap ℕ CatalogUpdateTaskState
  restoredAt : Option ℤ
  /-- The id of the running or most recently completed full refresh. -/
  currentFullRefresh : Option ℕ
  /-- The id of the most recently completed full refresh. -/
  lastFullRefresh : Option ℕ

/-- The fields of a connection that catalog actions are about; scripts are given by their texts. -/
structure CatalogState where
  notebookId : String
  active : Bool
  catalogUpdates : CatalogUpdates
  catalogRelationScript : String
  catalogFunctionScript : String

def createCatalogUpdates : CatalogUpdates where
  tasksRunning := .empty
  tasksFinished := .empty
  restoredAt := none
  currentFullRefresh := none
  lastFullRefresh := none

def isCatalogRefreshRunning (connection : Option CatalogState) : Bool :=
  match connection with
  | none => false
  | some connection =>
    match connection.catalogUpdates.currentFullRefresh with
    | none => false
    | some refreshId => decide (refreshId ∈ connection.catalogUpdates.tasksRunning.keys)

/-! ## Actions -/

inductive CatalogAction where
  | setCatalogScript (script : String)
  | updateCatalog (updateId : ℕ) (update : CatalogUpdateTaskState)
  | catalogUpdateRegisterQuery (updateId queryId : ℕ)
  | catalogUpdateSchemaScript (updateId : ℕ)
  | catalogUpdateCancelled (updateId : ℕ) (error : String)
  | catalogUpdateFailed (updateId : ℕ) (error : String)
  | catalogUpdateSucceeded (updateId : ℕ)

/-- The writes that are scheduled for the scripts of a catalog, by key and content. -/
inductive CatalogWrite where
  | writeNotebookCatalogScript (key notebookId script : String)
  | writeNotebookFunctionScript (key notebookId script : String)
  deriving DecidableEq

/-! ## The reducer -/

namespace CatalogState

def updateTask (updateId : ℕ) (update : CatalogUpdateTaskState) (state : CatalogState) :
    CatalogState :=
  { state with
    catalogUpdates := { state.catalogUpdates with
      tasksRunning := state.catalogUpdates.tasksRunning.set updateId update } }

/-- A running task is moved to the finished ones, and is the current and the last refresh. -/
def finishTask (updateId : ℕ) (update : CatalogUpdateTaskState) (state : CatalogState) :
    CatalogState :=
  { state with
    catalogUpdates := {
      tasksRunning := state.catalogUpdates.tasksRunning.delete updateId
      tasksFinished := state.catalogUpdates.tasksFinished.set updateId update
      restoredAt := state.catalogUpdates.restoredAt
      currentFullRefresh := some updateId
      lastFullRefresh := some updateId } }

/-- The scripts of an active connection are written. -/
def scriptWrites (state : CatalogState) : List CatalogWrite :=
  if state.active then
    [.writeNotebookCatalogScript (state.notebookId ++ "/dashql-relations.sql") state.notebookId
        state.catalogRelationScript,
      .writeNotebookFunctionScript (state.notebookId ++ "/dashql-functions.sql") state.notebookId
        state.catalogFunctionScript]
  else []

end CatalogState

/-- The reducer of the catalog actions; `now` is the time at which the action is reduced. -/
def reduceCatalogAction (now : ℤ) (action : CatalogAction) (state : CatalogState) :
    CatalogState × List CatalogWrite :=
  match action with
  | .setCatalogScript script => ({ state with catalogRelationScript := script }, [])
  | .updateCatalog updateId update =>
    ({ state with
      catalogUpdates := { state.catalogUpdates with
        tasksRunning := state.catalogUpdates.tasksRunning.set updateId update
        currentFullRefresh :=
          if update.taskVariant = .fullCatalogRefresh then some updateId
          else state.catalogUpdates.currentFullRefresh } }, [])
  | .catalogUpdateRegisterQuery updateId queryId =>
    match state.catalogUpdates.tasksRunning.get? updateId with
    | none => (state, [])
    | some update =>
      (state.updateTask updateId
        { update with queries := update.queries ++ [queryId], lastUpdateAt := some now }, [])
  | .catalogUpdateSchemaScript updateId =>
    match state.catalogUpdates.tasksRunning.get? updateId with
    | none => (state, [])
    | some update => (state.updateTask updateId { update with lastUpdateAt := some now }, [])
  | .catalogUpdateCancelled updateId error =>
    match state.catalogUpdates.tasksRunning.get? updateId with
    | none => (state, [])
    | some update =>
      (state.finishTask updateId { update with
        status := .cancelled
        error := some error
        finishedAt := some now
        lastUpdateAt := some now }, [])
  | .catalogUpdateFailed updateId error =>
    match state.catalogUpdates.tasksRunning.get? updateId with
    | none => (state, [])
    | some update =>
      (state.finishTask updateId { update with
        status := .failed
        error := some error
        finishedAt := some now
        lastUpdateAt := some now }, [])
  | .catalogUpdateSucceeded updateId =>
    match state.catalogUpdates.tasksRunning.get? updateId with
    | none => (state, [])
    | some update =>
      let newState := state.finishTask updateId { update with
        status := .succeeded
        finishedAt := some now
        lastUpdateAt := some now }
      (newState, newState.scriptWrites)

end DashQL.Connection
