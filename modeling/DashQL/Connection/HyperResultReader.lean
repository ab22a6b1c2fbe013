import Mathlib.Data.Int.Order.Basic
import Mathlib.Logic.Function.Basic

/-!
# The result reader of the Hyper client for the web

The reader (`web_hyperdb_http_client.ts`) fetches the chunks of a query result ahead
of the consumer, several at a time, and hands them out in their order.  Every answer
of the server brings a status that may be older than one the reader has seen, and the
reader decides by the last one whether to fetch, to poll or to end.
-/

namespace DashQL.Connection

/-! ## The reader -/

inductive CompletionStatus
  | runningOrUnspecified
  | finished
  | resultsProduced
  deriving DecidableEq, Repr

structure QueryStatus where
  completionStatus : CompletionStatus
  chunkCount : Option ℕ
  deriving DecidableEq, Repr

def QueryStatus.isCompleted (status : QueryStatus) : Bool :=
  status.completionStatus = .resultsProduced || status.completionStatus = .finished

structure ChunkRequest where
  chunkId : ℕ
  omitSchema : Bool
  deriving DecidableEq, Repr

abbrev Bytes : Type := List UInt8

/-- A promise of `inflight` is named by the request that it is for. -/
structure WebHyperResultReader where
  initialBytes : Option Bytes
  status : QueryStatus
  parallelChunks : ℕ
  nextPrefetchIndex : ℕ
  inflight : List ChunkRequest
  schemaEmitted : Bool
  deriving DecidableEq, Repr

/-- `initialBytes && initialBytes.byteLength > 0`. -/
def holdsBytes (initialBytes : Option Bytes) : Bool := 0 < (initialBytes.getD []).length

namespace WebHyperResultReader

/-- The constructor. -/
def new (initialStatus : QueryStatus) (initialBytes : Option Bytes) (parallelChunks : ℤ) :
    WebHyperResultReader where
  initialBytes := initialBytes
  status := initialStatus
  parallelChunks := (max 1 parallelChunks).toNat
  nextPrefetchIndex := if holdsBytes initialBytes then 1 else 0
  inflight := []
  schemaEmitted := holdsBytes initialBytes

/-- One turn of the loop of `fillPrefetchWindow`. -/
def prefetch (reader : WebHyperResultReader) : WebHyperResultReader :=
  { reader with
    nextPrefetchIndex := reader.nextPrefetchIndex + 1
    schemaEmitted := true
    inflight := reader.inflight ++ [⟨reader.nextPrefetchIndex, reader.schemaEmitted⟩] }

/-- The loop of `fillPrefetchWindow`, by recursion on the free places of the window. -/
def fillPlaces : ℕ → WebHyperResultReader → WebHyperResultReader
  | 0, reader => reader
  | places + 1, reader =>
    if reader.nextPrefetchIndex < reader.status.chunkCount.getD 0 then
      fillPlaces places reader.prefetch
    else reader

def fillPrefetchWindow (reader : WebHyperResultReader) : WebHyperResultReader :=
  reader.fillPlaces (reader.parallelChunks - reader.inflight.length)

end WebHyperResultReader

/-- Where the last call of `next` is. -/
inductive NextCall
  | returned
  | awaits (request : ChunkRequest)
  | polls
  deriving DecidableEq, Repr

/-- How far a fetch has come: `answered` once its status was taken over, `resolved` once its bytes
are there. -/
inductive FetchStage
  | requested
  | answered
  | resolved
  deriving DecidableEq, Repr

/-- A reader, its call of `next`, its fetches, and what the calls have returned: bytes, or `none`
for the end. -/
structure HyperRead where
  reader : WebHyperResultReader
  call : NextCall
  stage : ℕ → FetchStage
  results : List (Option Bytes)

namespace HyperRead

/-- The loop of `next` up to where it waits or returns. -/
def turn (read : HyperRead) : HyperRead :=
  let filled := read.reader.fillPrefetchWindow
  match filled.inflight with
  | head :: rest => { read with reader := { filled with inflight := rest }, call := .awaits head }
  | [] =>
    if filled.status.isCompleted then
      { read with reader := filled, call := .returned, results := read.results ++ [none] }
    else { read with reader := filled, call := .polls }

/-- A call of `next`. -/
def next (read : HyperRead) : HyperRead :=
  if holdsBytes read.reader.initialBytes then
    { read with
      reader := { read.reader with initialBytes := none }.fillPrefetchWindow
      results := read.results ++ [some (read.reader.initialBytes.getD [])] }
  else { read with reader := { read.reader with initialBytes := none } }.turn

/-- The bytes that `next` waits for are there. -/
def resume (read : HyperRead) (bytes : Bytes) : HyperRead :=
  if 0 < bytes.length then
    { read with
      reader := read.reader.fillPrefetchWindow
      call := .returned
      results := read.results ++ [some bytes] }
  else { read with reader := read.reader.fillPrefetchWindow }.turn

/-- The fetches whose bytes have not been taken: the one that `next` waits for and the window. -/
def outstanding (read : HyperRead) : List ChunkRequest :=
  match read.call with
  | .awaits request => request :: read.reader.inflight
  | _ => read.reader.inflight

def setStatus (read : HyperRead) (status : QueryStatus) : HyperRead :=
  { read with reader := { read.reader with status := status } }

def setStage (read : HyperRead) (chunkId : ℕ) (stage : FetchStage) : HyperRead :=
  { read with stage := Function.update read.stage chunkId stage }

end HyperRead

/-! ## The server -/

/-- A query result: the schema that a chunk starts with unless the request omits it, the chunks, and
their final number. -/
structure HyperResult where
  schema : Bytes
  schema_ne_nil : schema ≠ []
  chunk : ℕ → Bytes
  chunkCount : ℕ

namespace HyperResult

variable (server : HyperResult)

def body (request : ChunkRequest) : Bytes :=
  (if request.omitSchema then [] else server.schema) ++ server.chunk request.chunkId

/-- The number of chunks only grows, and is final once the status is completed. -/
structure Shows (status : QueryStatus) : Prop where
  le : status.chunkCount.getD 0 ≤ server.chunkCount
  final : status.isCompleted = true → status.chunkCount.getD 0 = server.chunkCount

/-- The initial body is empty or has the first chunk with the schema. -/
def Starts (initialBytes : Option Bytes) : Prop :=
  holdsBytes initialBytes = true →
    0 < server.chunkCount ∧ initialBytes = some (server.body ⟨0, false⟩)

/-- How a chunk is requested: only the first one with the schema. -/
def request (chunkId : ℕ) : ChunkRequest := ⟨chunkId, chunkId ≠ 0⟩

/-- The bytes of the non-empty ones among the first chunks, the first one with the schema. -/
def chunks (count : ℕ) : List Bytes :=
  ((List.range count).map fun chunkId => server.body (request chunkId)).filter fun bytes =>
    0 < bytes.length

end HyperResult

/-- What happens to a reader: a call of `next`, the status and the bytes of a chunk response, `next`
going on with the bytes, the answer to a poll. -/
inductive HyperReadEvent
  | next
  | answer (chunkId : ℕ) (status : Option QueryStatus)
  | bytes (chunkId : ℕ)
  | resume
  | poll (status : QueryStatus)

namespace HyperReadEvent

def act (server : HyperResult) : HyperReadEvent → HyperRead → HyperRead
  | .next, read => read.next
  | .answer chunkId status, read =>
    ((status.map read.setStatus).getD read).setStage chunkId .answered
  | .bytes chunkId, read => read.setStage chunkId .resolved
  | .resume, read =>
    match read.call with
    | .awaits request => read.resume (server.body request)
    | _ => read
  | .poll status, read => (read.setStatus status).turn

/-- The calls of `next` come one after the other, every fetch is answered once and then resolved,
and `next` goes on when what it waits for is there. -/
def Allowed (server : HyperResult) : HyperReadEvent → HyperRead → Prop
  | .next, read => read.call = .returned
  | .answer chunkId status, read =>
    (∃ request ∈ read.outstanding, request.chunkId = chunkId) ∧
      read.stage chunkId = .requested ∧ ∀ found, status = some found → server.Shows found
  | .bytes chunkId, read => read.stage chunkId = .answered
  | .resume, read => ∃ request, read.call = .awaits request ∧ read.stage request.chunkId = .resolved
  | .poll status, read => read.call = .polls ∧ server.Shows status

end HyperReadEvent

end DashQL.Connection
