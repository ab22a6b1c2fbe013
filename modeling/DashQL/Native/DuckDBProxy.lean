import DashQL.Library.InsertionMap
import DashQL.Native.PreparedSql

/-!
# The DuckDB proxy

The proxy has maps of databases, of prepared statements, of query streams and of Arrow uploads, with
a mutex each, and every connection has a mutex of its own.  A stream or an upload is bound to its
connection, which knows its active stream and its active upload.

Operations are cut at their critical sections.  A `Point` is what an operation is about to do next,
with what it knows by then, and `Point.step` is the section.  What the native calls return and the
time that they take is given with each section.
-/

namespace DashQL.Native

/-! ## What is stored -/

inductive BoundKind where
  | stream
  | upload
  deriving DecidableEq

/-- What refers to a connection. -/
inductive SessionKind where
  | statement
  | bound (kind : BoundKind)
  deriving DecidableEq

/-- What the mutex of a connection protects. -/
structure ConnectionEntry where
  activeStreamId : Option ℕ
  activeUploadId : Option ℕ
  deriving DecidableEq

structure DatabaseEntry where
  nextConnectionId : ℕ
  connections : List ℕ
  deriving DecidableEq

/-- A prepared statement with its SQL, a stream, or an upload with its options. -/
structure SessionEntry where
  connection : ConnectionId
  text : String
  deriving DecidableEq

/-- What the mutex of a stream protects. -/
structure StreamSchema where
  schemaChunk : Option Bytes
  schemaSent : Bool
  deriving DecidableEq

/-- The proxy.  The entries of connections and the schemas of streams are shared, so that they
outlive their removal from the maps; they are found by their ids, which are never used again. -/
structure DuckDBProxy where
  nextDatabaseId : ℕ
  nextSessionId : SessionKind → ℕ
  databases : InsertionMap ℕ DatabaseEntry
  connectionEntries : ConnectionId → Option ConnectionEntry
  sessions : SessionKind → InsertionMap ℕ SessionEntry
  streamSchemas : ℕ → StreamSchema

/-- The proxy at the start. -/
def DuckDBProxy.initial : DuckDBProxy where
  nextDatabaseId := 0
  nextSessionId _ := 0
  databases := .empty
  connectionEntries _ := none
  sessions _ := .empty
  streamSchemas _ := { schemaChunk := none, schemaSent := false }

def ConnectionEntry.active (kind : BoundKind) (entry : ConnectionEntry) : Option ℕ :=
  match kind with
  | .stream => entry.activeStreamId
  | .upload => entry.activeUploadId

def ConnectionEntry.setActive (kind : BoundKind) (id : Option ℕ) (entry : ConnectionEntry) :
    ConnectionEntry :=
  match kind with
  | .stream => { entry with activeStreamId := id }
  | .upload => { entry with activeUploadId := id }

def ConnectionEntry.isBusy (entry : ConnectionEntry) : Bool :=
  entry.activeStreamId.isSome || entry.activeUploadId.isSome

/-! ## Reading a stream -/

inductive QueryStreamFetchResult where
  | chunk (bytes : Bytes) (arrowStatusCode : ℕ)
  | retry
  | endOfStream

/-- What the native calls of a section return, and the milliseconds since the start of the read. -/
structure NativeCall where
  outcome : Except String (Option Bytes)
  fetch : Except String QueryStreamFetchResult
  elapsed : ℕ

structure DuckDBQueryBatch where
  event : StreamBatchEvent
  chunks : List Bytes
  totalBytes : ℕ
  arrowStatusCode : Option ℕ
  deriving DecidableEq

def DuckDBQueryBatch.empty : DuckDBQueryBatch where
  event := .streamFailed
  chunks := []
  totalBytes := 0
  arrowStatusCode := none

def DuckDBQueryBatch.concat (batch : DuckDBQueryBatch) : Bytes := batch.chunks.flatten

structure QueryReadLimits where
  readTimeout : ℕ
  batchTimeout : ℕ
  batchBytes : ℕ
  deriving DecidableEq

inductive RoundEnd where
  | continues (batch : DuckDBQueryBatch)
  | returns (batch : DuckDBQueryBatch)
  | endsStream (batch : DuckDBQueryBatch)
  | fails (status : DuckDBStatus)

def DuckDBQueryBatch.push (limits : QueryReadLimits) (bytes : Bytes) (batch : DuckDBQueryBatch) :
    RoundEnd :=
  let batch := { batch with
    totalBytes := batch.totalBytes + bytes.length, chunks := batch.chunks ++ [bytes] }
  if limits.batchBytes < batch.totalBytes then
    .returns { batch with event := .flushAfterBytes }
  else
    .continues batch

def readQueryStreamRound (connection : ConnectionId) (streamId : ℕ) (limits : QueryReadLimits)
    (native : NativeCall) (schema : StreamSchema) (batch : DuckDBQueryBatch) :
    StreamSchema × RoundEnd :=
  let timedOut :=
    if batch.chunks.isEmpty then limits.readTimeout ≤ native.elapsed
    else limits.batchTimeout ≤ native.elapsed
  if timedOut then
    if batch.chunks.isEmpty then
      (schema, .fails (.streamReadTimedOut connection streamId))
    else
      (schema, .returns { batch with event := .flushAfterTimeout })
  else if !schema.schemaSent then
    match schema.schemaChunk, native.outcome with
    | some bytes, _ => ({ schemaChunk := none, schemaSent := true }, batch.push limits bytes)
    | none, .error message => (schema, .fails (.operationFailed "poll query stream" message))
    | none, .ok none => (schema, .continues batch)
    | none, .ok (some bytes) => ({ schema with schemaSent := true }, batch.push limits bytes)
  else
    match native.fetch with
    | .error message => (schema, .fails (.operationFailed "read query stream" message))
    | .ok (.chunk bytes arrowStatusCode) =>
      (schema, { batch with arrowStatusCode := some arrowStatusCode }.push limits bytes)
    | .ok .retry =>
      if batch.chunks.isEmpty then
        (schema, .continues batch)
      else
        (schema, .returns { batch with event := .flushAfterTimeout })
    | .ok .endOfStream => (schema, .endsStream { batch with event := .streamFinished })

/-! ## Operations in progress -/

/-- Who reads a batch: the caller, `read_query_stream_raw` or `read_query_stream_to_completion`,
with the bytes so far. -/
inductive ReadUse where
  | batch
  | raw
  | completion (result : Bytes)
  deriving DecidableEq

/-- Who starts a stream or an upload: a caller that gets its id, or an operation that reads it. -/
inductive StartUse where
  | returnsId
  | reads (use : ReadUse)
  deriving DecidableEq

/-- What an operation returns. -/
inductive Reply where
  | unit
  | id (id : ℕ)
  | batch (batch : DuckDBQueryBatch)
  | pending (bytes : Bytes) (streamId : Option ℕ)
  | bytes (bytes : Bytes)
  deriving DecidableEq

inductive TearDown where
  | disconnect (connection : ConnectionId)
  | resetDatabase (databaseId : ℕ)
  | destroyDatabase (databaseId : ℕ)
  deriving DecidableEq

def TearDown.covers (tearDown : TearDown) (connection : ConnectionId) : Bool :=
  match tearDown with
  | .disconnect torn => connection.databaseId = torn.databaseId &&
      connection.connectionId = torn.connectionId
  | .resetDatabase databaseId => connection.databaseId = databaseId
  | .destroyDatabase databaseId => connection.databaseId = databaseId

/-- What is done after a session was destroyed. -/
inductive AfterDestroy where
  | returns
  | finishesRead (connection : ConnectionId) (batch : DuckDBQueryBatch) (use : ReadUse)
  | tearsDown (tearDown : TearDown) (remaining : List ℕ)
  deriving DecidableEq

/-- What a connection is looked up for. -/
inductive ConnectionUse where
  | binds (kind : BoundKind) (text : String) (use : StartUse)
  | insertsStatement (sql : String)
  | reads (streamId : ℕ) (limits : QueryReadLimits) (use : ReadUse)
  | cancels (streamId : ℕ)
  | insertsArrow (uploadId : ℕ) (finish : Bool)
  deriving DecidableEq

/-- What a session is looked up for. -/
inductive SessionUse where
  | reads (limits : QueryReadLimits) (use : ReadUse)
  | destroysStream
  | destroysStatement
  | runsStatement (paramsJson : String) (use : StartUse)
  | pushesChunk (finish : Bool)
  deriving DecidableEq

/-- What an operation is about to do. -/
inductive Point where
  | createDatabase
  | connect (databaseId : ℕ)
  | findConnection (connection : ConnectionId) (use : ConnectionUse)
  | findSession (kind : SessionKind) (connection : ConnectionId) (id : ℕ) (use : SessionUse)
  | bind (kind : BoundKind) (connection : ConnectionId) (text : String) (use : StartUse)
  | register (kind : BoundKind) (connection : ConnectionId) (id : ℕ) (text : String)
      (schemaChunk : Option Bytes) (use : StartUse)
  | insertStatement (connection : ConnectionId) (sql : String)
  | readRound (connection : ConnectionId) (streamId : ℕ) (limits : QueryReadLimits)
      (batch : DuckDBQueryBatch) (use : ReadUse)
  | containsStream (connection : ConnectionId) (streamId : ℕ) (bytes : Bytes) (use : ReadUse)
  | cancel (streamId : ℕ)
  | insertArrow (uploadId : ℕ) (finish : Bool)
  | remove (kind : SessionKind) (id : ℕ) (after : AfterDestroy)
  | findForUnbind (kind : BoundKind) (connection : ConnectionId) (id : ℕ) (after : AfterDestroy)
  | unbind (kind : BoundKind) (connection : ConnectionId) (id : ℕ) (after : AfterDestroy)
  | collect (tearDown : TearDown) (kind : SessionKind)
  | finishTearDown (tearDown : TearDown)
  deriving DecidableEq

/-- What follows a section: another one, or the end of the operation. -/
inductive Next where
  | goes (point : Point)
  | returns (result : Except DuckDBStatus Reply)

def rawReadLimits : QueryReadLimits where
  readTimeout := 1000
  batchTimeout := 1000
  batchBytes := 4000000

/-- The activity of a connection that cannot start. -/
def BoundKind.activity : BoundKind → String
  | .stream => "query stream"
  | .upload => "arrow upload"

def Point.readQueryStream (connection : ConnectionId) (streamId : ℕ) (limits : QueryReadLimits)
    (use : ReadUse) : Point :=
  .findSession (.bound .stream) connection streamId (.reads limits use)

def Point.startQueryStream (connection : ConnectionId) (sql : String) (use : StartUse) : Point :=
  .findConnection connection (.binds .stream sql use)

/-- What follows a batch. -/
def ReadUse.next (connection : ConnectionId) (streamId : ℕ) (batch : DuckDBQueryBatch)
    (use : ReadUse) : Next :=
  match use with
  | .batch => .returns (.ok (.batch batch))
  | .raw => .goes (.containsStream connection streamId batch.concat .raw)
  | .completion result =>
    .goes (.containsStream connection streamId batch.concat (.completion result))

/-- What follows the start of a session. -/
def StartUse.next (connection : ConnectionId) (id : ℕ) (use : StartUse) : Next :=
  match use with
  | .returnsId => .returns (.ok (.id id))
  | .reads use => .goes (.readQueryStream connection id rawReadLimits use)

/-- The kind that is torn down next, or the end. -/
def TearDown.nextKind (tearDown : TearDown) (kind : SessionKind) : Point :=
  match kind with
  | .statement => .collect tearDown (.bound .stream)
  | .bound .stream => .collect tearDown (.bound .upload)
  | .bound .upload => .finishTearDown tearDown

/-- Destroy the sessions that were collected. -/
def TearDown.next (tearDown : TearDown) (kind : SessionKind) (ids : List ℕ) : Point :=
  match ids with
  | [] => tearDown.nextKind kind
  | id :: remaining => .remove kind id (.tearsDown tearDown remaining)

def AfterDestroy.next (kind : SessionKind) (id : ℕ) (after : AfterDestroy) : Next :=
  match after with
  | .returns => .returns (.ok .unit)
  | .finishesRead connection batch use => use.next connection id batch
  | .tearsDown tearDown remaining => .goes (tearDown.next kind remaining)

def ConnectionUse.point (connection : ConnectionId) (use : ConnectionUse) : Point :=
  match use with
  | .binds kind text use => .bind kind connection text use
  | .insertsStatement sql => .insertStatement connection sql
  | .reads streamId limits use => .readRound connection streamId limits .empty use
  | .cancels streamId => .cancel streamId
  | .insertsArrow uploadId finish => .insertArrow uploadId finish

/-- The status for a session that is unknown, or of another connection. -/
def SessionKind.unknown (connection : ConnectionId) (id : ℕ) (found : Bool) :
    SessionKind → DuckDBStatus
  | .bound .stream => .streamIdIsUnknown connection id
  | .bound .upload => .uploadIdIsUnknown connection id
  | .statement =>
    .operationFailed "lookup prepared statement"
      (if found then
        "prepared statement " ++ toString id ++ " does not belong to connection " ++
          toString connection.connectionId
      else
        "unknown prepared statement " ++ toString id)

def SessionUse.next (serde : Serde) (connection : ConnectionId) (id : ℕ) (entry : SessionEntry)
    (use : SessionUse) : Next :=
  match use with
  | .reads limits use => .goes (.findConnection connection (.reads id limits use))
  | .destroysStream => .goes (.findConnection connection (.cancels id))
  | .destroysStatement => .goes (.remove .statement id .returns)
  | .runsStatement paramsJson use =>
    match substitutePreparedSql serde entry.text paramsJson with
    | .ok sql => .goes (.startQueryStream connection sql use)
    | .error status => .returns (.error status)
  | .pushesChunk finish => .goes (.findConnection connection (.insertsArrow id finish))

namespace DuckDBProxy

def HasConnection (proxy : DuckDBProxy) (connection : ConnectionId) : Prop :=
  ∃ database, proxy.databases.get? connection.databaseId = some database ∧
    connection.connectionId ∈ database.connections

def getConnectionEntry (connection : ConnectionId) (proxy : DuckDBProxy) :
    Except DuckDBStatus Unit :=
  match proxy.databases.get? connection.databaseId with
  | none => .error (.databaseIdIsUnknown connection.databaseId)
  | some database =>
    if connection.connectionId ∈ database.connections then .ok ()
    else .error (.connectionIdIsUnknown connection)

def active (kind : BoundKind) (proxy : DuckDBProxy) (connection : ConnectionId) : Option ℕ :=
  (proxy.connectionEntries connection).bind (ConnectionEntry.active kind)

def setConnectionEntry (connection : ConnectionId) (entry : ConnectionEntry)
    (proxy : DuckDBProxy) : DuckDBProxy :=
  { proxy with
    connectionEntries := Function.update proxy.connectionEntries connection (some entry) }

def setDatabase (databaseId : ℕ) (database : DatabaseEntry) (proxy : DuckDBProxy) : DuckDBProxy :=
  { proxy with databases := proxy.databases.set databaseId database }

def setSessions (kind : SessionKind) (sessions : InsertionMap ℕ SessionEntry)
    (proxy : DuckDBProxy) : DuckDBProxy :=
  { proxy with sessions := Function.update proxy.sessions kind sessions }

/-- Count up the ids of a kind; ids begin at one. -/
def allocate (kind : SessionKind) (proxy : DuckDBProxy) : DuckDBProxy :=
  { proxy with
    nextSessionId := Function.update proxy.nextSessionId kind (proxy.nextSessionId kind + 1) }

def collect (tearDown : TearDown) (kind : SessionKind) (proxy : DuckDBProxy) : List ℕ :=
  ((proxy.sessions kind).entries.filter fun entry => tearDown.covers entry.2.connection).map
    Prod.fst

/-- The last section of `disconnect`, `reset_database` and `destroy_database`. -/
def finishTearDown (native : NativeCall) (tearDown : TearDown) (proxy : DuckDBProxy) :
    DuckDBProxy × Except DuckDBStatus Reply :=
  match tearDown with
  | .disconnect connection =>
    match proxy.databases.get? connection.databaseId with
    | none => (proxy, .error (.databaseIdIsUnknown connection.databaseId))
    | some database =>
      if connection.connectionId ∈ database.connections then
        (proxy.setDatabase connection.databaseId
          { database with
            connections := database.connections.filter (· ≠ connection.connectionId) },
          .ok .unit)
      else
        (proxy, .error (.connectionIdIsUnknown connection))
  | .resetDatabase databaseId =>
    match proxy.databases.get? databaseId with
    | none => (proxy, .error (.databaseIdIsUnknown databaseId))
    | some database =>
      (proxy.setDatabase databaseId { database with connections := [] },
        match native.outcome with
        | .error message => .error (.operationFailed "reset database" message)
        | .ok _ => .ok .unit)
  | .destroyDatabase databaseId =>
    if databaseId ∈ proxy.databases.keys then
      ({ proxy with databases := proxy.databases.delete databaseId }, .ok .unit)
    else
      (proxy, .error (.databaseIdIsUnknown databaseId))

def createDatabase (native : NativeCall) (proxy : DuckDBProxy) :
    DuckDBProxy × Except DuckDBStatus Reply :=
  match native.outcome with
  | .error message => (proxy, .error (.operationFailed "create database" message))
  | .ok _ =>
    let databaseId := proxy.nextDatabaseId + 1
    ({ proxy with nextDatabaseId := databaseId }.setDatabase databaseId
        { nextConnectionId := 1, connections := [] },
      .ok (.id databaseId))

def connect (native : NativeCall) (databaseId : ℕ) (proxy : DuckDBProxy) :
    DuckDBProxy × Except DuckDBStatus Reply :=
  match proxy.databases.get? databaseId with
  | none => (proxy, .error (.databaseIdIsUnknown databaseId))
  | some database =>
    match native.outcome with
    | .error message => (proxy, .error (.operationFailed "connect to database" message))
    | .ok _ =>
      let connectionId := database.nextConnectionId
      ((proxy.setDatabase databaseId
          { nextConnectionId := connectionId + 1
            connections := database.connections ++ [connectionId] }).setConnectionEntry
          { databaseId, connectionId } { activeStreamId := none, activeUploadId := none },
        .ok (.id connectionId))

/-- Make a session active, in `start_query_stream` and `create_arrow_ipc_upload`. -/
def bind (kind : BoundKind) (connection : ConnectionId) (entry : ConnectionEntry)
    (proxy : DuckDBProxy) : DuckDBProxy :=
  (proxy.allocate (.bound kind)).setConnectionEntry connection
    (entry.setActive kind (some (proxy.nextSessionId (.bound kind) + 1)))

/-- Insert the entry of an active session. -/
def register (kind : BoundKind) (connection : ConnectionId) (id : ℕ) (text : String)
    (schemaChunk : Option Bytes) (proxy : DuckDBProxy) : DuckDBProxy :=
  let registered := proxy.setSessions (.bound kind)
    ((proxy.sessions (.bound kind)).set id { connection, text })
  match kind with
  | .stream =>
    { registered with
      streamSchemas :=
        Function.update proxy.streamSchemas id { schemaChunk, schemaSent := false } }
  | .upload => registered

/-- `clear_stream_binding` and `clear_upload_binding`, with the connection at hand. -/
def unbind (kind : BoundKind) (connection : ConnectionId) (id : ℕ) (proxy : DuckDBProxy) :
    DuckDBProxy :=
  match proxy.connectionEntries connection with
  | some entry =>
    if entry.active kind = some id then
      proxy.setConnectionEntry connection (entry.setActive kind none)
    else
      proxy
  | none => proxy

end DuckDBProxy

def Point.step (serde : Serde) (native : NativeCall) (point : Point) (proxy : DuckDBProxy) :
    DuckDBProxy × Next :=
  match point with
  | .createDatabase =>
    let created := proxy.createDatabase native
    (created.1, .returns created.2)
  | .connect databaseId =>
    let connected := proxy.connect native databaseId
    (connected.1, .returns connected.2)
  | .findConnection connection use =>
    match proxy.getConnectionEntry connection with
    | .error status => (proxy, .returns (.error status))
    | .ok _ => (proxy, .goes (use.point connection))
  | .findSession kind connection id use =>
    match (proxy.sessions kind).get? id with
    | none => (proxy, .returns (.error (kind.unknown connection id false)))
    | some entry =>
      if entry.connection = connection then
        (proxy, use.next serde connection id entry)
      else
        (proxy, .returns (.error (kind.unknown connection id true)))
  | .bind kind connection text use =>
    match proxy.connectionEntries connection, kind, native.outcome with
    -- A connection that was found has an entry.
    | none, _, _ => (proxy, .returns (.error (.connectionIdIsUnknown connection)))
    | some entry, .stream, .error message =>
      if entry.isBusy then
        (proxy, .returns (.error (.connectionBusy connection kind.activity)))
      else
        (proxy, .returns (.error (.operationFailed "start query stream" message)))
    | some entry, .stream, .ok schemaChunk =>
      if entry.isBusy then
        (proxy, .returns (.error (.connectionBusy connection kind.activity)))
      else
        (proxy.bind .stream connection entry,
          .goes (.register .stream connection (proxy.nextSessionId (.bound .stream) + 1) ""
            schemaChunk use))
    | some entry, .upload, _ =>
      if entry.isBusy then
        (proxy, .returns (.error (.connectionBusy connection kind.activity)))
      else
        (proxy.bind .upload connection entry,
          .goes (.register .upload connection (proxy.nextSessionId (.bound .upload) + 1) text
            none use))
  | .register kind connection id text schemaChunk use =>
    (proxy.register kind connection id text schemaChunk, use.next connection id)
  | .insertStatement connection sql =>
    let id := proxy.nextSessionId .statement + 1
    ((proxy.allocate .statement).setSessions .statement
        ((proxy.sessions .statement).set id { connection, text := sql }),
      .returns (.ok (.id id)))
  | .readRound connection streamId limits batch use =>
    let round := readQueryStreamRound connection streamId limits native
      (proxy.streamSchemas streamId) batch
    ({ proxy with streamSchemas := Function.update proxy.streamSchemas streamId round.1 },
      match round.2 with
      | .continues batch => .goes (.readRound connection streamId limits batch use)
      | .returns batch => use.next connection streamId batch
      | .endsStream batch =>
        .goes (.remove (.bound .stream) streamId (.finishesRead connection batch use))
      | .fails status => .returns (.error status))
  | .containsStream connection streamId bytes use =>
    let streamExists := streamId ∈ (proxy.sessions (.bound .stream)).keys
    match use with
    | .completion result =>
      if streamExists then
        (proxy, .goes (.readQueryStream connection streamId rawReadLimits
          (.completion (result ++ bytes))))
      else
        (proxy, .returns (.ok (.bytes (result ++ bytes))))
    | _ =>
      (proxy, .returns (.ok (.pending bytes (if streamExists then some streamId else none))))
  | .cancel streamId =>
    match native.outcome with
    | .error message =>
      (proxy, .returns (.error (.operationFailed "cancel query stream" message)))
    | .ok _ => (proxy, .goes (.remove (.bound .stream) streamId .returns))
  | .insertArrow uploadId finish =>
    match native.outcome with
    | .error message =>
      (proxy, .returns (.error (.operationFailed "insert arrow ipc stream" message)))
    | .ok _ =>
      if finish then
        (proxy, .goes (.remove (.bound .upload) uploadId .returns))
      else
        (proxy, .returns (.ok .unit))
  | .remove kind id after =>
    let removed := proxy.setSessions kind ((proxy.sessions kind).delete id)
    match kind, (proxy.sessions kind).get? id with
    | .bound kind, some entry => (removed, .goes (.findForUnbind kind entry.connection id after))
    | kind, _ => (removed, after.next kind id)
  | .findForUnbind kind connection id after =>
    match proxy.getConnectionEntry connection with
    | .error _ => (proxy, after.next (.bound kind) id)
    | .ok _ => (proxy, .goes (.unbind kind connection id after))
  | .unbind kind connection id after =>
    (proxy.unbind kind connection id, after.next (.bound kind) id)
  | .collect tearDown kind => (proxy, .goes (tearDown.next kind (proxy.collect tearDown kind)))
  | .finishTearDown tearDown =>
    let finished := proxy.finishTearDown native tearDown
    (finished.1, .returns finished.2)

/-! ## Calls -/

/-- The operations. -/
inductive Call where
  | createDatabase
  | destroyDatabase (databaseId : ℕ)
  | resetDatabase (databaseId : ℕ)
  | connect (databaseId : ℕ)
  | disconnect (connection : ConnectionId)
  | startQueryStream (connection : ConnectionId) (sql : String)
  | readQueryStream (connection : ConnectionId) (streamId : ℕ) (limits : QueryReadLimits)
  | destroyQueryStream (connection : ConnectionId) (streamId : ℕ)
  | startPendingQuery (connection : ConnectionId) (sql : String)
  | pollPendingQuery (connection : ConnectionId) (streamId : ℕ)
  | fetchPendingQueryResults (connection : ConnectionId) (streamId : ℕ)
  | cancelPendingQuery (connection : ConnectionId) (streamId : ℕ)
  | createPreparedStatement (connection : ConnectionId) (sql : String)
  | destroyPreparedStatement (connection : ConnectionId) (statementId : ℕ)
  | runPreparedStatement (connection : ConnectionId) (statementId : ℕ) (paramsJson : String)
  | sendPreparedStatement (connection : ConnectionId) (statementId : ℕ) (paramsJson : String)
  | createArrowIpcUpload (connection : ConnectionId) (optionsJson : String)
  | pushArrowIpcUploadChunk (connection : ConnectionId) (uploadId : ℕ) (finish : Bool)
  deriving DecidableEq

/-- Where an operation begins. -/
def Call.point : Call → Point
  | .createDatabase => .createDatabase
  | .destroyDatabase databaseId => .collect (.destroyDatabase databaseId) .statement
  | .resetDatabase databaseId => .collect (.resetDatabase databaseId) .statement
  | .connect databaseId => .connect databaseId
  | .disconnect connection => .collect (.disconnect connection) .statement
  | .startQueryStream connection sql => .startQueryStream connection sql .returnsId
  | .readQueryStream connection streamId limits =>
    .readQueryStream connection streamId limits .batch
  | .destroyQueryStream connection streamId =>
    .findSession (.bound .stream) connection streamId .destroysStream
  | .startPendingQuery connection sql => .startQueryStream connection sql (.reads .raw)
  | .pollPendingQuery connection streamId =>
    .readQueryStream connection streamId rawReadLimits .raw
  | .fetchPendingQueryResults connection streamId =>
    .readQueryStream connection streamId rawReadLimits (.completion [])
  | .cancelPendingQuery connection streamId =>
    .findSession (.bound .stream) connection streamId .destroysStream
  | .createPreparedStatement connection sql => .findConnection connection (.insertsStatement sql)
  | .destroyPreparedStatement connection statementId =>
    .findSession .statement connection statementId .destroysStatement
  | .runPreparedStatement connection statementId paramsJson =>
    .findSession .statement connection statementId
      (.runsStatement paramsJson (.reads (.completion [])))
  | .sendPreparedStatement connection statementId paramsJson =>
    .findSession .statement connection statementId (.runsStatement paramsJson (.reads .raw))
  | .createArrowIpcUpload connection optionsJson =>
    .findConnection connection (.binds .upload optionsJson .returnsId)
  | .pushArrowIpcUploadChunk connection uploadId finish =>
    .findSession (.bound .upload) connection uploadId (.pushesChunk finish)

structure ProxyWorld where
  proxy : DuckDBProxy
  operations : List Point

/-- A caller begins an operation, or an operation in progress runs its next section. -/
inductive ProxyStep where
  | calls (call : Call)
  | runs (index : ℕ) (native : NativeCall)

/-- The operation that is left. -/
def Next.points : Next → List Point
  | .goes point => [point]
  | .returns _ => []

namespace ProxyWorld

def initial : ProxyWorld where
  proxy := .initial
  operations := []

def step (serde : Serde) (proxyStep : ProxyStep) (world : ProxyWorld) : ProxyWorld :=
  match proxyStep with
  | .calls call => { world with operations := world.operations ++ [call.point] }
  | .runs index native =>
    match world.operations[index]? with
    | none => world
    | some point =>
      let stepped := point.step serde native world.proxy
      { proxy := stepped.1
        operations := world.operations.take index ++ stepped.2.points ++
          world.operations.drop (index + 1) }

/-! ## A connection of a new database -/

/-- JSON of which nothing is read. -/
def noJson : Serde where
  fromText _ := .error "no JSON"
  toText _ := ""

def succeeds : NativeCall where
  outcome := .ok none
  fetch := .ok .endOfStream
  elapsed := 0

/-- A connection of a new database. -/
def connected : List ProxyStep :=
  [.calls .createDatabase, .runs 0 succeeds, .calls (.connect 1), .runs 0 succeeds]

end ProxyWorld

end DashQL.Native
