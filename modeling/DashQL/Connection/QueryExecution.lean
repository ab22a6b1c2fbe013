import DashQL.Library.InsertionMap

/-!
# Query executions of a connection

The reducer of the query actions, with the fields of the connection state that it reads or writes,
and what a reset of the connection does to these fields.
-/

namespace DashQL.Connection

/-- The values of other packages that a query state refers to. -/
structure QueryValues where
  Schema : Type
  Batch : Type
  Table : Type
  ResponseStream : Type
  LoggableException : Type
  schema : Batch → Schema

/-! ## The state of a query -/

inductive QueryExecutionStatus where
  | requested
  | preparing
  | sending
  | queued
  | running
  | receivedFirstBatch
  | receivedAllBatches
  | processingResults
  | processedResults
  | succeeded
  | failed
  | cancelled
  deriving DecidableEq

def queryIsDone : QueryExecutionStatus → Bool
  | .succeeded => true
  | .failed => true
  | .cancelled => true
  | _ => false

structure QueryExecutionMetrics where
  totalDataBytesReceived : ℤ
  totalBatchesReceived : ℤ
  totalRowsReceived : ℤ
  totalQueryRequestsStarted : ℤ
  totalQueryRequestsSucceeded : ℤ
  totalQueryRequestsFailed : ℤ
  totalQueryRequestDurationMs : ℤ
  durationUntilFirstBatchMs : Option ℤ
  deriving DecidableEq

structure QueryExecutionProgress where
  isQueued : Option Bool
  metrics : QueryExecutionMetrics
  deriving DecidableEq

/-- The metrics of a query; points in time are in milliseconds. -/
structure QueryMetrics where
  queryPreparingStartedAt : Option ℤ
  querySendingStartedAt : Option ℤ
  queryQueuedStartedAt : Option ℤ
  queryRunningStartedAt : Option ℤ
  receivedFirstBatchAt : Option ℤ
  receivedLastBatchAt : Option ℤ
  receivedAllBatchesAt : Option ℤ
  processingResultsStartedAt : Option ℤ
  processedResultsAt : Option ℤ
  querySucceededAt : Option ℤ
  queryFailedAt : Option ℤ
  queryCancelledAt : Option ℤ
  lastUpdatedAt : Option ℤ
  progressUpdatesReceived : ℤ
  queryDurationMs : Option ℤ
  streamMetrics : QueryExecutionMetrics
  deriving DecidableEq

structure QueryExecutionState (V : QueryValues) where
  queryId : ℕ
  status : QueryExecutionStatus
  metrics : QueryMetrics
  resultStream : Option V.ResponseStream
  error : Option V.LoggableException
  latestProgressUpdate : Option QueryExecutionProgress
  resultSchema : Option V.Schema
  resultBatches : List V.Batch
  resultMetadata : Option (List (String × String))
  resultTable : Option V.Table
  cacheKey : Option String
  servedFromCache : Bool
  cacheDeleted : Bool
  cachedAt : Option ℤ

def createQueryResponseStreamMetrics : QueryExecutionMetrics where
  totalDataBytesReceived := 0
  totalBatchesReceived := 0
  totalRowsReceived := 0
  totalQueryRequestsStarted := 0
  totalQueryRequestsSucceeded := 0
  totalQueryRequestsFailed := 0
  totalQueryRequestDurationMs := 0
  durationUntilFirstBatchMs := none

/-! ## The state of a connection -/

structure ConnectionQueryMetrics where
  totalQueries : ℤ
  totalBatchesReceived : ℤ
  totalRowsReceived : ℤ
  accumulatedTimeUntilFirstBatch : ℤ
  accumulatedQueryDuration : ℤ
  deriving DecidableEq

structure ConnectionMetrics where
  successfulQueries : ConnectionQueryMetrics
  canceledQueries : ConnectionQueryMetrics
  failedQueries : ConnectionQueryMetrics
  deriving DecidableEq

def createConnectionMetrics : ConnectionMetrics where
  successfulQueries := ⟨0, 0, 0, 0, 0⟩
  canceledQueries := ⟨0, 0, 0, 0, 0⟩
  failedQueries := ⟨0, 0, 0, 0, 0⟩

structure ConnectionState (V : QueryValues) where
  metrics : ConnectionMetrics
  queriesActive : InsertionMap ℕ (QueryExecutionState V)
  queriesActiveOrdered : List ℕ
  queriesFinished : InsertionMap ℕ (QueryExecutionState V)
  queriesFinishedOrdered : List ℕ
  snapshotQueriesActiveFinished : ℕ

variable {V : QueryValues}

def createConnectionState : ConnectionState V where
  metrics := createConnectionMetrics
  queriesActive := .empty
  queriesActiveOrdered := []
  queriesFinished := .empty
  queriesFinishedOrdered := []
  snapshotQueriesActiveFinished := 1

/-! ## Actions -/

inductive QueryExecutionAction (V : QueryValues) where
  | executeQuery (queryId : ℕ) (query : QueryExecutionState V)
  | queryPreparing (queryId : ℕ)
  | querySending (queryId : ℕ)
  | queryRunning (queryId : ℕ) (stream : V.ResponseStream)
  | queryProgressUpdated (queryId : ℕ) (progress : QueryExecutionProgress)
  | queryReceivedBatch (queryId : ℕ) (batch : V.Batch) (metrics : QueryExecutionMetrics)
  | queryReceivedAllBatches (queryId : ℕ) (table : V.Table) (metadata : List (String × String))
      (metrics : QueryExecutionMetrics)
  | queryProcessingResults (queryId : ℕ)
  | queryProcessedResults (queryId : ℕ)
  | querySucceeded (queryId : ℕ)
  | queryFailed (queryId : ℕ) (error : V.LoggableException)
      (metrics : Option QueryExecutionMetrics)
  | queryCancelled (queryId : ℕ) (error : V.LoggableException)
      (metrics : Option QueryExecutionMetrics)
  | queryCacheRecorded (queryId : ℕ) (cacheKey : String) (servedFromCache : Bool)
      (cachedAtMs : Option ℤ)
  | queryCacheDeleted (queryId : ℕ)

namespace QueryExecutionAction

def queryId : QueryExecutionAction V → ℕ
  | executeQuery queryId _ => queryId
  | queryPreparing queryId => queryId
  | querySending queryId => queryId
  | queryRunning queryId _ => queryId
  | queryProgressUpdated queryId _ => queryId
  | queryReceivedBatch queryId _ _ => queryId
  | queryReceivedAllBatches queryId _ _ _ => queryId
  | queryProcessingResults queryId => queryId
  | queryProcessedResults queryId => queryId
  | querySucceeded queryId => queryId
  | queryFailed queryId _ _ => queryId
  | queryCancelled queryId _ _ => queryId
  | queryCacheRecorded queryId _ _ _ => queryId
  | queryCacheDeleted queryId => queryId

/-- The status that an action ends a query with. -/
def finishes : QueryExecutionAction V → Option QueryExecutionStatus
  | querySucceeded _ => some .succeeded
  | queryFailed _ _ _ => some .failed
  | queryCancelled _ _ _ => some .cancelled
  | _ => none

end QueryExecutionAction

/-! ## The reducer -/

def mergeQueryMetrics (metrics : ConnectionQueryMetrics) (query : QueryMetrics) :
    ConnectionQueryMetrics where
  totalQueries := metrics.totalQueries + 1
  totalBatchesReceived := metrics.totalBatchesReceived + query.streamMetrics.totalBatchesReceived
  totalRowsReceived := metrics.totalRowsReceived + query.streamMetrics.totalRowsReceived
  accumulatedTimeUntilFirstBatch :=
    metrics.accumulatedTimeUntilFirstBatch + query.streamMetrics.durationUntilFirstBatchMs.getD 0
  accumulatedQueryDuration := metrics.accumulatedQueryDuration + query.queryDurationMs.getD 0

namespace ConnectionState

/-- The cache actions: the query is changed in the map that has it. -/
def updateCached (queryId : ℕ) (next : QueryExecutionState V → QueryExecutionState V)
    (state : ConnectionState V) : ConnectionState V :=
  if queryId ∈ state.queriesActive.keys then
    { state with queriesActive := state.queriesActive.modify queryId next }
  else
    { state with queriesFinished := state.queriesFinished.modify queryId next }

/-- The actions of a running query: the query is changed if it is active. -/
def updateActive (queryId : ℕ) (next : QueryExecutionState V → QueryExecutionState V)
    (state : ConnectionState V) : ConnectionState V :=
  match state.queriesActive.get? queryId with
  | none => state
  | some query =>
    { state with queriesActive := state.queriesActive.set query.queryId (next query) }

/-- The actions that end a query: an active query is moved to the finished ones. -/
def finishActive (queryId : ℕ) (next : QueryExecutionState V → QueryExecutionState V)
    (merge : QueryMetrics → ConnectionMetrics → ConnectionMetrics) (state : ConnectionState V) :
    ConnectionState V :=
  match state.queriesActive.get? queryId with
  | none => state
  | some query =>
    { state with
      queriesActive := state.queriesActive.delete query.queryId
      queriesActiveOrdered := state.queriesActiveOrdered.erase query.queryId
      queriesFinished := state.queriesFinished.set query.queryId (next query)
      queriesFinishedOrdered := state.queriesFinishedOrdered ++ [query.queryId]
      snapshotQueriesActiveFinished := state.snapshotQueriesActiveFinished + 1
      metrics := merge (next query).metrics state.metrics }

end ConnectionState

/-- A progress update; a query that was sent is queued when the update says so first. -/
def progressUpdated (now : ℤ) (progress : QueryExecutionProgress) (query : QueryExecutionState V) :
    QueryExecutionState V :=
  let next := { query with
    latestProgressUpdate := some progress
    metrics := { query.metrics with
      lastUpdatedAt := some now
      progressUpdatesReceived := query.metrics.progressUpdatesReceived + 1 } }
  if progress.isQueued = some true ∧ next.status = .sending then
    { next with
      status := .queued
      metrics := { next.metrics with queryQueuedStartedAt := some now } }
  else next

/-- A batch is received; its schema is the schema of the result if there is none yet. -/
def receivedBatch (now : ℤ) (batch : V.Batch) (streamMetrics : QueryExecutionMetrics)
    (query : QueryExecutionState V) : QueryExecutionState V :=
  { query with
    resultBatches := query.resultBatches ++ [batch]
    status := .receivedFirstBatch
    resultSchema := query.resultSchema.or (some (V.schema batch))
    metrics := { query.metrics with
      receivedFirstBatchAt := query.metrics.receivedFirstBatchAt.or (some now)
      receivedLastBatchAt := some now
      lastUpdatedAt := some now
      streamMetrics } }

def succeeded (now : ℤ) (query : QueryExecutionState V) : QueryExecutionState V :=
  { query with
    status := .succeeded
    metrics := { query.metrics with
      lastUpdatedAt := some now
      querySucceededAt := some now
      queryDurationMs := some (now - query.metrics.queryRunningStartedAt.getD now) } }

/-- The duration is the point in time at which the query started to run. -/
def cancelled (now : ℤ) (error : V.LoggableException)
    (streamMetrics : Option QueryExecutionMetrics) (query : QueryExecutionState V) :
    QueryExecutionState V :=
  { query with
    status := .cancelled
    error := some error
    metrics := { query.metrics with
      lastUpdatedAt := some now
      queryCancelledAt := some now
      queryDurationMs := some (query.metrics.queryRunningStartedAt.getD now)
      streamMetrics := streamMetrics.getD query.metrics.streamMetrics } }

/-- The duration is computed as for a cancelled query. -/
def failed (now : ℤ) (error : V.LoggableException)
    (streamMetrics : Option QueryExecutionMetrics) (query : QueryExecutionState V) :
    QueryExecutionState V :=
  { query with
    status := .failed
    error := some error
    metrics := { query.metrics with
      lastUpdatedAt := some now
      queryFailedAt := some now
      queryDurationMs := some (query.metrics.queryRunningStartedAt.getD now)
      streamMetrics := streamMetrics.getD query.metrics.streamMetrics } }

def mergeSuccessful (query : QueryMetrics) (metrics : ConnectionMetrics) : ConnectionMetrics :=
  { metrics with successfulQueries := mergeQueryMetrics metrics.successfulQueries query }

def mergeCanceled (query : QueryMetrics) (metrics : ConnectionMetrics) : ConnectionMetrics :=
  { metrics with canceledQueries := mergeQueryMetrics metrics.canceledQueries query }

def mergeFailed (query : QueryMetrics) (metrics : ConnectionMetrics) : ConnectionMetrics :=
  { metrics with failedQueries := mergeQueryMetrics metrics.failedQueries query }

/-- The reducer; `now` is the time at which the action is reduced. -/
def reduceQueryAction (now : ℤ) (action : QueryExecutionAction V) (state : ConnectionState V) :
    ConnectionState V :=
  match action with
  | .executeQuery queryId query =>
    { state with
      queriesActive := state.queriesActive.set queryId query
      queriesActiveOrdered := state.queriesActiveOrdered ++ [queryId]
      snapshotQueriesActiveFinished := state.snapshotQueriesActiveFinished + 1 }
  | .queryCacheRecorded queryId cacheKey servedFromCache cachedAtMs =>
    state.updateCached queryId fun query =>
      { query with
        cacheKey := some cacheKey
        servedFromCache
        cachedAt := cachedAtMs.or query.cachedAt }
  | .queryCacheDeleted queryId =>
    state.updateCached queryId fun query => { query with cacheDeleted := true }
  | .queryPreparing queryId =>
    state.updateActive queryId fun query =>
      { query with
        status := .preparing
        metrics := { query.metrics with
          lastUpdatedAt := some now, queryPreparingStartedAt := some now } }
  | .querySending queryId =>
    state.updateActive queryId fun query =>
      { query with
        status := .sending
        metrics := { query.metrics with
          lastUpdatedAt := some now, querySendingStartedAt := some now } }
  | .queryRunning queryId stream =>
    state.updateActive queryId fun query =>
      { query with
        status := .running
        resultStream := some stream
        metrics := { query.metrics with
          lastUpdatedAt := some now, queryRunningStartedAt := some now } }
  | .queryProgressUpdated queryId progress =>
    state.updateActive queryId (progressUpdated now progress)
  | .queryReceivedBatch queryId batch metrics =>
    state.updateActive queryId (receivedBatch now batch metrics)
  | .queryReceivedAllBatches queryId table metadata _ =>
    state.updateActive queryId fun query =>
      { query with
        resultMetadata := some metadata
        resultTable := some table
        status := .receivedAllBatches
        metrics := { query.metrics with
          lastUpdatedAt := some now, receivedAllBatchesAt := some now } }
  | .queryProcessingResults queryId =>
    state.updateActive queryId fun query =>
      { query with
        status := .processingResults
        metrics := { query.metrics with
          lastUpdatedAt := some now, processingResultsStartedAt := some now } }
  | .queryProcessedResults queryId =>
    state.updateActive queryId fun query =>
      { query with
        status := .processedResults
        metrics := { query.metrics with
          lastUpdatedAt := some now, processedResultsAt := some now } }
  | .querySucceeded queryId => state.finishActive queryId (succeeded now) mergeSuccessful
  | .queryCancelled queryId error streamMetrics =>
    state.finishActive queryId (cancelled now error streamMetrics) mergeCanceled
  | .queryFailed queryId error streamMetrics =>
    state.finishActive queryId (failed now error streamMetrics) mergeFailed

/-- The reset: the maps and the metrics are replaced by new ones. -/
def resetConnection (state : ConnectionState V) : ConnectionState V :=
  { state with
    metrics := createConnectionMetrics
    queriesActive := .empty
    queriesFinished := .empty }

end DashQL.Connection
