import DashQL.Connection.QueryExecution
import DashQL.Library.TracedRuns

/-!
# The query executor

`executeImpl` (`query_executor.tsx`) runs one query: it may serve the result from the
cache, else contacts the backend, processes the result and saves it in the cache.  What
the backend, the cache and the user do in one execution is an arbitrary record of
outcomes, one for every `await`; the actions that are dispatched are the trace of the
run.
-/

namespace DashQL.Connection

/-! ## What the executor talks to -/

/-- The functions of other packages.  A `LoggableException` stands for any thrown value. -/
structure QueryLibrary (V : QueryValues) where
  Bytes : Type
  tableFromIPC : Bytes → Except V.LoggableException V.Table
  tableToIPC : V.Table → Except V.LoggableException Bytes
  newTable : V.Schema → List V.Batch → V.Table
  newSchema : V.Schema
  /-- `e?.name === 'AbortError'`. -/
  namesAbort : V.LoggableException → Bool
  /-- `e?.message === 'AbortError'`. -/
  saysAbort : V.LoggableException → Bool
  /-- `new Error('AbortError')`. -/
  abortError : V.LoggableException
  saysAbort_abortError : saysAbort abortError = true
  /-- The reason of an aborted signal. -/
  abortReason : V.LoggableException
  /-- The error of a query that is cancelled by what was thrown. -/
  cancellationError : V.LoggableException → V.LoggableException
  /-- The error of a query whose processing has thrown. -/
  processingError : V.LoggableException → V.LoggableException
  computeDbNotReady : V.LoggableException

/-- What a stream delivers: a progress update or a batch, with the metrics at that time. -/
inductive Delivery (V : QueryValues)
  | progress (progress : QueryExecutionProgress)
  | batch (batch : V.Batch) (metrics : QueryExecutionMetrics)

/-- What a stream does in one execution.  It delivers until `produce` settles, while its schema is
awaited, while the result is processed, and after the query has ended. -/
structure StreamRun (V : QueryValues) where
  stream : V.ResponseStream
  produced : List (Delivery V)
  produce : Except V.LoggableException Unit
  whileSchema : List (Delivery V)
  getSchema : Except V.LoggableException (Option V.Schema)
  metadata : List (String × String)
  metrics : QueryExecutionMetrics
  whileProcessing : List (Delivery V)
  late : List (Delivery V)

/-- `cachedAtMs` is the time of a file, so a valid date. -/
structure CachedQueryResult {V : QueryValues} (library : QueryLibrary V) where
  bytes : library.Bytes
  cachedAtMs : ℤ

/-- The outcomes of one execution.  The signal is raised before the `await` with the number
`abortAt` has ended; a later one may find it raised as well. -/
structure QueryOutcomes {V : QueryValues} (library : QueryLibrary V) where
  computeDbReady : Bool
  cacheKey : Except V.LoggableException (Option String)
  load : Except V.LoggableException (Option (CachedQueryResult library))
  touch : Except V.LoggableException Unit
  connect : Except V.LoggableException (Option (StreamRun V))
  analyze : Except V.LoggableException Unit
  save : Except V.LoggableException Unit
  abortAt : Option ℕ

structure QueryExecutionArgs where
  analyzeResults : Bool
  cacheable : Bool
  replaceComputationId : Option ℕ

/-- What the executor does: actions of the connection, the contact with the backend, the deletion of
the computation that a result replaces, and its warnings about the cache. -/
inductive ExecutorEvent (V : QueryValues)
  | dispatched (action : QueryExecutionAction V)
  | contacted
  | computationDeleted (computationId : ℕ)
  | cacheWarned (message : String)

/-- The number of the last `await` that has ended, and the stream of the query. -/
structure ExecutorState (V : QueryValues) where
  awaited : ℕ
  resultStream : Option (StreamRun V)

variable {V : QueryValues} {library : QueryLibrary V} {α : Type}

abbrev ExecutorRun (V : QueryValues) (α : Type) : Type :=
  Traced (ExecutorState V) (ExecutorEvent V) V.LoggableException α

def connDispatch (action : QueryExecutionAction V) : ExecutorRun V Unit :=
  Traced.emit (.dispatched action)

def await (number : ℕ) (answer : Except V.LoggableException α) : ExecutorRun V α := do
  Traced.update fun state => ((), { state with awaited := number })
  Traced.lift answer

def QueryOutcomes.abortedAfter (outcomes : QueryOutcomes library) (number : ℕ) : Bool :=
  match outcomes.abortAt with
  | some abortAt => abortAt ≤ number
  | none => false

def aborted (outcomes : QueryOutcomes library) : ExecutorRun V Bool :=
  Traced.update fun state => (outcomes.abortedAfter state.awaited, state)

def streamMetrics : ExecutorRun V (Option QueryExecutionMetrics) :=
  Traced.update fun state => (state.resultStream.map StreamRun.metrics, state)

/-- The action for what a stream delivers. -/
def Delivery.action (queryId : ℕ) : Delivery V → QueryExecutionAction V
  | .progress update => .queryProgressUpdated queryId update
  | .batch received metrics => .queryReceivedBatch queryId received metrics

def Delivery.batch? : Delivery V → Option V.Batch
  | .progress _ => none
  | .batch received _ => some received

def deliver (queryId : ℕ) : List (Delivery V) → ExecutorRun V Unit
  | [] => pure ()
  | delivery :: rest => do
      connDispatch (delivery.action queryId)
      deliver queryId rest

/-! ## The execution -/

/-- `computeQueryCacheKeyForConnection`: a failure counts as no key. -/
def computeQueryCacheKeyForConnection (outcomes : QueryOutcomes library) : Option String :=
  match outcomes.cacheKey with
  | .ok key => key
  | .error _ => none

def initialState (queryId : ℕ) : QueryExecutionState V where
  queryId := queryId
  status := .requested
  metrics :=
    { queryPreparingStartedAt := none
      querySendingStartedAt := none
      queryQueuedStartedAt := none
      queryRunningStartedAt := none
      receivedFirstBatchAt := none
      receivedLastBatchAt := none
      receivedAllBatchesAt := none
      processingResultsStartedAt := none
      processedResultsAt := none
      querySucceededAt := none
      queryFailedAt := none
      queryCancelledAt := none
      lastUpdatedAt := none
      progressUpdatesReceived := 0
      queryDurationMs := none
      streamMetrics := createQueryResponseStreamMetrics }
  resultStream := none
  error := none
  latestProgressUpdate := none
  resultSchema := none
  resultBatches := []
  resultMetadata := none
  resultTable := none
  cacheKey := none
  servedFromCache := false
  cacheDeleted := false
  cachedAt := none

section Execute

variable (outcomes : QueryOutcomes library) (queryId : ℕ)

/-- A warning about an operation of the cache that has failed. -/
def warnUnless (answer : Except V.LoggableException α) (message : String) : ExecutorRun V Unit :=
  match answer with
  | .ok _ => pure ()
  | .error _ => Traced.emit (.cacheWarned message)

/-- The cache read path, with the key of the query: the table if it is served from the cache.  The
touch of the entry is not awaited. -/
def readCache (cacheHash : String) : ExecutorRun V (Option V.Table) := do
  let loaded ← Traced.attempt (await 1 outcomes.load)
  warnUnless loaded "Failed to read query cache"
  let cached := match loaded with
    | .ok cached => cached
    | .error _ => none
  if ← aborted outcomes then Traced.lift (.error library.abortError)
  else
    match cached with
    | none => pure none
    | some cached => do
        let table ← Traced.lift (library.tableFromIPC cached.bytes)
        warnUnless outcomes.touch "Failed to record query cache access"
        connDispatch (.queryReceivedAllBatches queryId table [] createQueryResponseStreamMetrics)
        connDispatch (.queryCacheRecorded queryId cacheHash true (some cached.cachedAtMs))
        pure (some table)

/-- The schema of the result: that of the first batch, else the one that the stream reports. -/
def resultSchema (library : QueryLibrary V) (run : StreamRun V) :
    ExecutorRun V (V.Schema × List V.Batch) :=
  match run.produced.filterMap Delivery.batch? with
  | batch :: rest => pure (V.schema batch, batch :: rest)
  | [] => do
      deliver queryId run.whileSchema
      let schema ← await 4 run.getSchema
      pure (schema.getD library.newSchema, run.whileSchema.filterMap Delivery.batch?)

def consumeStream (library : QueryLibrary V) (run : StreamRun V) : ExecutorRun V V.Table := do
  Traced.update fun state => ((), { state with resultStream := some run })
  connDispatch (.queryRunning queryId run.stream)
  deliver queryId run.produced
  await 3 run.produce
  let received ← resultSchema queryId library run
  let table := library.newTable received.1 received.2
  connDispatch (.queryReceivedAllBatches queryId table run.metadata run.metrics)
  pure table

def queryBackend : ExecutorRun V (Option V.Table) := do
  connDispatch (.querySending queryId)
  Traced.emit .contacted
  let connected ← await 2 outcomes.connect
  match connected with
  | none => pure none
  | some run => do
      let table ← consumeStream queryId library run
      pure (some table)

/-- The table that is served from the cache, if there is a key. -/
def readKeyed : Option String → ExecutorRun V (Option V.Table)
  | some cacheHash => readCache outcomes queryId cacheHash
  | none => pure none

/-- The body of the first `try`: the table, and whether it is served from the cache. -/
def queryResult (cacheHash : Option String) : ExecutorRun V (Option V.Table × Bool) := do
  let cached ← readKeyed outcomes queryId cacheHash
  match cached with
  | some table => pure (some table, true)
  | none => do
      let table ← queryBackend outcomes queryId
      pure (table, false)

def catchQuery (e : V.LoggableException) : ExecutorRun V Unit := do
  let metrics ← streamMetrics
  if (← aborted outcomes) || library.namesAbort e || library.saysAbort e then
    connDispatch (.queryCancelled queryId (library.cancellationError e) metrics)
  else connDispatch (.queryFailed queryId e metrics)

variable (args : QueryExecutionArgs)

def deleteReplaced : ExecutorRun V Unit :=
  match args.replaceComputationId with
  | some computationId =>
    if computationId = queryId then pure () else Traced.emit (.computationDeleted computationId)
  | none => pure ()

/-- The body of the second `try`. -/
def processResults : ExecutorRun V Unit := do
  deleteReplaced queryId args
  connDispatch (.queryProcessingResults queryId)
  let run ← Traced.update fun state => (state.resultStream, state)
  deliver queryId ((run.map StreamRun.whileProcessing).getD [])
  await 5 outcomes.analyze
  if ← aborted outcomes then Traced.lift (.error library.abortReason)
  else connDispatch (.queryProcessedResults queryId)

/-- The second `catch`: `null` is returned for a cancelled query, and the error is thrown else. -/
def catchProcessing (e : V.LoggableException) : ExecutorRun V (Option V.Table) := do
  let metrics ← streamMetrics
  if (← aborted outcomes) || library.namesAbort e then do
    connDispatch (.queryCancelled queryId (library.cancellationError e) metrics)
    pure none
  else do
    connDispatch (.queryFailed queryId (library.processingError e) none)
    Traced.lift (.error (library.processingError e))

/-- The entry of a result that was saved is recorded when the save has landed. -/
def recordSaved (cacheHash : String) : ExecutorRun V Unit :=
  match outcomes.save with
  | .ok () => connDispatch (.queryCacheRecorded queryId cacheHash false none)
  | .error _ => Traced.emit (.cacheWarned "Failed to write query cache")

/-- The query succeeds, and a result that is not from the cache is saved there.  The save is not
awaited. -/
def succeed (cacheHash : Option String) (table : Option V.Table) (servedFromCache : Bool) :
    ExecutorRun V (Option V.Table) := do
  connDispatch (.querySucceeded queryId)
  match servedFromCache, cacheHash, table with
  | false, some cacheHash, some result => do
      let _bytes ← Traced.lift (library.tableToIPC result)
      recordSaved outcomes queryId cacheHash
      pure table
  | _, _, _ => pure table

/-- What follows the first `try`. -/
def finishQuery (cacheHash : Option String) (table : Option V.Table) (servedFromCache : Bool) :
    ExecutorRun V (Option V.Table) :=
  if table.isSome && args.analyzeResults then do
    let processed ← Traced.attempt (processResults outcomes queryId args)
    match processed with
    | .ok () => succeed outcomes queryId cacheHash table servedFromCache
    | .error e => catchProcessing outcomes queryId e
  else succeed outcomes queryId cacheHash table servedFromCache

/-- What follows the body of the first `try`: its `catch`, after which `null` is returned, or the
rest of the execution. -/
def afterQuery (cacheHash : Option String) :
    Except V.LoggableException (Option V.Table × Bool) → ExecutorRun V (Option V.Table)
  | .error e => do
      catchQuery outcomes queryId e
      pure none
  | .ok result => finishQuery outcomes queryId args cacheHash result.1 result.2

def cacheHash : Option String :=
  if args.cacheable then computeQueryCacheKeyForConnection outcomes else none

/-- `executeImpl`, on a known connection. -/
def executeImpl : ExecutorRun V (Option V.Table) :=
  if outcomes.computeDbReady then do
    let cacheHash ← await 0 (.ok (cacheHash outcomes args))
    connDispatch (.executeQuery queryId (initialState queryId))
    let result ← Traced.attempt (queryResult outcomes queryId cacheHash)
    afterQuery outcomes queryId args cacheHash result
  else Traced.lift (.error library.computeDbNotReady)

/-- What the executor dispatches and does, with what its stream delivers after the end, and what
the promise settles with. -/
def execute : List (ExecutorEvent V) × Except V.LoggableException (Option V.Table) :=
  let run := executeImpl outcomes queryId args ⟨0, none⟩
  let late := (run.2.2.resultStream.map StreamRun.late).getD []
  (run.1 ++ late.map fun delivery => .dispatched (delivery.action queryId), run.2.1)

end Execute

end DashQL.Connection
