import DashQL.Library.BatchedReads

/-!
# The streams of the native proxy

HTTP responses, gRPC results and logs of Docker containers are read by a task that puts events into a
channel, and `read_server_stream` and `read_stream` take them out in batches.  The three loops are
`BatchReader`s.

A gRPC message and a chunk of a Docker log are content, so that a batch with one of them is always
returned.  The header of an HTTP response is not: a read that took it and then got no chunk in time
returns an error, and the status and the headers are lost (`delivered_iff`).
-/

namespace DashQL.Native

open List

/-- What was being read from a gRPC stream. -/
inductive GrpcStreamElement where
  | message
  | trailers
  deriving DecidableEq

/-- The statuses that reading a stream returns, with the statuses of gRPC itself. -/
inductive Status (G : Type*) where
  | httpStreamIsUnknown (streamId : ℕ)
  | httpStreamClosed (streamId : ℕ)
  | httpStreamReadTimedOut (streamId : ℕ)
  | httpRequestFailed (streamId : ℕ) (error : String)
  | httpStreamReadFailed (streamId : ℕ) (error : String)
  | grpcStreamIsUnknown (channelId streamId : ℕ)
  | grpcStreamClosed (channelId streamId : ℕ)
  | grpcStreamReadTimedOut (channelId streamId : ℕ)
  | grpcStreamReadFailed (channelId streamId : ℕ) (element : GrpcStreamElement) (status : G)
  | dockerStreamIsUnknown (streamId : ℕ)
  | dockerStreamClosed (streamId : ℕ)
  | dockerStreamFailed (streamId : ℕ) (error : String)
  deriving DecidableEq

/-- Why a batch is returned.  Only a Docker stream returns batches for being idle. -/
inductive StreamBatchEvent where
  | streamFailed
  | streamFinished
  | flushAfterClose
  | flushAfterTimeout
  | flushAfterBytes
  | readIdle
  deriving DecidableEq

/-- The content of a message or a chunk. -/
abbrev Bytes := List UInt8

/-- Header fields, or the metadata of a gRPC call. -/
abbrev HeaderMap := List (String × Bytes)

variable {G : Type*}

/-! ## HTTP -/

inductive HttpError where
  | errorStatus (status : ℕ)
  | connectError (error : String)
  | otherError (error : String)
  deriving DecidableEq

/-- The text of an error; the text of a status is given. -/
def HttpError.toText (statusText : ℕ → String) : HttpError → String
  | .errorStatus status => statusText status
  | .connectError error => error
  | .otherError error => error

inductive HttpServerStreamEvent where
  | requestFailed (error : HttpError)
  | header (status : ℕ) (headers : HeaderMap)
  | bodyChunk (chunk : Bytes)
  | bodyEnd
  | bodyReadFailed (error : String)
  deriving DecidableEq

structure HttpServerStreamBatch where
  event : StreamBatchEvent
  status : Option ℕ
  headers : HeaderMap
  bodyChunks : List Bytes
  totalBodyBytes : ℕ
  deriving DecidableEq

namespace HttpStreamManager

/-- What the server answers: a failed request, or a header and chunks, and then the end of the body
or a failure. -/
abbrev Response := Except HttpError ((ℕ × HeaderMap) × List Bytes × Except String Unit)

def spawned : Response → List HttpServerStreamEvent
  | .error error => [.requestFailed error]
  | .ok ((status, headers), chunks, .ok ()) =>
    .header status headers :: (chunks.map .bodyChunk ++ [.bodyEnd])
  | .ok ((status, headers), chunks, .error error) =>
    .header status headers :: (chunks.map .bodyChunk ++ [.bodyReadFailed error])

def receive (statusText : ℕ → String) (streamId flushBatchBytes : ℕ) (event : HttpServerStreamEvent)
    (batch : HttpServerStreamBatch) : Received HttpServerStreamBatch (Status G) :=
  match event with
  | .requestFailed error => .fails (.httpRequestFailed streamId (error.toText statusText))
  | .header status headers => .continues { batch with status := some status, headers }
  | .bodyChunk chunk =>
    let extended := { batch with
      totalBodyBytes := batch.totalBodyBytes + chunk.length
      bodyChunks := batch.bodyChunks ++ [chunk] }
    if flushBatchBytes < extended.totalBodyBytes then
      .flushes { extended with event := .flushAfterBytes }
    else
      .continues extended
  | .bodyReadFailed error => .fails (.httpStreamReadFailed streamId error)
  | .bodyEnd => .finishes { batch with event := .streamFinished }

def readServerStream (statusText : ℕ → String) (streamId : ℕ) :
    BatchReader HttpServerStreamEvent HttpServerStreamBatch (Status G) where
  empty :=
    { event := .streamFailed, status := none, headers := [], bodyChunks := [], totalBodyBytes := 0 }
  holdsContent batch := batch.bodyChunks.length != 0
  receive := receive statusText streamId
  idle _ := .error (.httpStreamReadTimedOut streamId)
  flushAfterTimeout batch := { batch with event := .flushAfterTimeout }
  flushAfterClose batch := { batch with event := .flushAfterClose }
  streamClosed := .httpStreamClosed streamId
  streamIsUnknown := .httpStreamIsUnknown streamId

end HttpStreamManager

namespace HttpServerStreamEvent

def isHeader : HttpServerStreamEvent → Bool
  | .header _ _ => true
  | _ => false

end HttpServerStreamEvent

namespace HttpServerStreamBatch

/-- The events that a batch was made of: the header, the chunks, and the end. -/
def contents (batch : HttpServerStreamBatch) : List HttpServerStreamEvent :=
  (batch.status.map fun status => .header status batch.headers).toList ++
    batch.bodyChunks.map .bodyChunk ++
    (if batch.event = .streamFinished then [.bodyEnd] else [])

end HttpServerStreamBatch

/-! ## gRPC -/

inductive GrpcServerStreamEvent (G : Type*) where
  | message (message : Bytes)
  | ends (trailers : HeaderMap)
  | readFailed (status : G) (element : GrpcStreamElement)

structure GrpcServerStreamBatch where
  event : StreamBatchEvent
  messages : List Bytes
  totalMessageBytes : ℕ
  trailers : Option HeaderMap
  deriving DecidableEq

namespace GrpcStreamManager

def receive (channelId streamId flushBatchBytes : ℕ) (event : GrpcServerStreamEvent G)
    (batch : GrpcServerStreamBatch) : Received GrpcServerStreamBatch (Status G) :=
  match event with
  | .ends trailers =>
    .finishes { batch with trailers := some trailers, event := .streamFinished }
  | .readFailed status element =>
    .fails (.grpcStreamReadFailed channelId streamId element status)
  | .message message =>
    let extended := { batch with
      totalMessageBytes := batch.totalMessageBytes + message.length
      messages := batch.messages ++ [message] }
    if flushBatchBytes < extended.totalMessageBytes then
      .flushes { extended with event := .flushAfterBytes }
    else
      .continues extended

def readServerStream (channelId streamId : ℕ) :
    BatchReader (GrpcServerStreamEvent G) GrpcServerStreamBatch (Status G) where
  empty := { event := .streamFailed, messages := [], totalMessageBytes := 0, trailers := none }
  holdsContent batch := batch.messages.length != 0
  receive := receive channelId streamId
  idle _ := .error (.grpcStreamReadTimedOut channelId streamId)
  flushAfterTimeout batch := { batch with event := .flushAfterTimeout }
  flushAfterClose batch := { batch with event := .flushAfterClose }
  streamClosed := .grpcStreamClosed channelId streamId
  streamIsUnknown := .grpcStreamIsUnknown channelId streamId

end GrpcStreamManager

namespace GrpcServerStreamBatch

/-- The events that a batch was made of: the messages, and the trailers. -/
def contents (batch : GrpcServerStreamBatch) : List (GrpcServerStreamEvent G) :=
  batch.messages.map .message ++ (batch.trailers.map .ends).toList

end GrpcServerStreamBatch

/-! ## Docker logs -/

inductive DockerStreamEvent where
  | bodyChunk (chunk : Bytes)
  | bodyEnd
  | bodyReadFailed (error : String)
  | requestFailed (error : String)
  deriving DecidableEq

structure DockerStreamBatch where
  event : StreamBatchEvent
  bodyChunks : List Bytes
  totalBodyBytes : ℕ
  deriving DecidableEq

namespace DockerLogStreamManager

def receive (streamId flushBatchBytes : ℕ) (event : DockerStreamEvent) (batch : DockerStreamBatch) :
    Received DockerStreamBatch (Status G) :=
  match event with
  | .requestFailed error => .fails (.dockerStreamFailed streamId error)
  | .bodyReadFailed error => .fails (.dockerStreamFailed streamId error)
  | .bodyEnd => .finishes { batch with event := .streamFinished }
  | .bodyChunk chunk =>
    let extended := { batch with
      totalBodyBytes := batch.totalBodyBytes + chunk.length
      bodyChunks := batch.bodyChunks ++ [chunk] }
    if flushBatchBytes < extended.totalBodyBytes then
      .flushes { extended with event := .flushAfterBytes }
    else
      .continues extended

/-- `read_stream`.  An idle stream returns an empty batch. -/
def readStream (streamId : ℕ) : BatchReader DockerStreamEvent DockerStreamBatch (Status G) where
  empty := { event := .streamFailed, bodyChunks := [], totalBodyBytes := 0 }
  holdsContent batch := !batch.bodyChunks.isEmpty
  receive := receive streamId
  idle batch := .ok { batch with event := .readIdle }
  flushAfterTimeout batch := { batch with event := .flushAfterTimeout }
  flushAfterClose batch := { batch with event := .flushAfterClose }
  streamClosed := .dockerStreamClosed streamId
  streamIsUnknown := .dockerStreamIsUnknown streamId

end DockerLogStreamManager

namespace DockerStreamBatch

/-- The events that a batch was made of: the chunks, and the end. -/
def contents (batch : DockerStreamBatch) : List DockerStreamEvent :=
  batch.bodyChunks.map .bodyChunk ++ (if batch.event = .streamFinished then [.bodyEnd] else [])

end DockerStreamBatch

/-! ## The laws of the readers -/

theorem contents_append_if {E : Type*} {front : List E} {p : Prop} [Decidable p] {last : List E}
    (h : ¬ p) : front ++ (if p then last else []) = front := by
  rw [if_neg h, append_nil]

namespace HttpServerStreamBatch

/-- The batch of a read in progress. -/
def IsOpen (batch : HttpServerStreamBatch) : Prop := batch.event ≠ .streamFinished

theorem contents_of_not_finished {batch : HttpServerStreamBatch}
    (h : batch.event ≠ .streamFinished) :
    batch.contents = (batch.status.map fun status => .header status batch.headers).toList ++
      batch.bodyChunks.map .bodyChunk :=
  contents_append_if h

theorem contents_eq_nil_iff {batch : HttpServerStreamBatch} (h : batch.IsOpen)
    (hchunks : batch.bodyChunks = []) : batch.contents = [] ↔ batch.status = none := by
  rw [contents_of_not_finished h, hchunks, map_nil, append_nil]
  cases batch.status <;> simp

end HttpServerStreamBatch

theorem HttpStreamManager.lawful_readServerStream (statusText : ℕ → String) (streamId : ℕ) :
    (readServerStream statusText streamId : BatchReader _ _ (Status G)).Lawful
      HttpServerStreamBatch.contents HttpServerStreamBatch.IsOpen
      HttpServerStreamEvent.isHeader where
  openEmpty := by simp [readServerStream, HttpServerStreamBatch.IsOpen]
  empty := rfl
  receive := by
    intro bytes event batch hopen hfirst
    cases event with
    | requestFailed error => exact trivial
    | bodyReadFailed error => exact trivial
    | header status headers =>
      refine ⟨hopen, ?_⟩
      have hempty := hfirst rfl
      rw [hempty]
      refine (HttpServerStreamBatch.contents_of_not_finished (by exact hopen)).trans ?_
      rw [HttpServerStreamBatch.contents_of_not_finished hopen, append_eq_nil_iff] at hempty
      exact congrArg (HttpServerStreamEvent.header status headers :: ·) hempty.2
    | bodyChunk chunk =>
      have hadds : ∀ event total, event ≠ .streamFinished →
          (HttpServerStreamBatch.mk event batch.status batch.headers (batch.bodyChunks ++ [chunk])
            total).contents = batch.contents ++ [.bodyChunk chunk] := by
        intro event total hevent
        refine (HttpServerStreamBatch.contents_of_not_finished hevent).trans ?_
        rw [HttpServerStreamBatch.contents_of_not_finished hopen, map_append, ← append_assoc]
        rfl
      unfold readServerStream receive
      dsimp only
      split_ifs
      · exact hadds _ _ (by simp)
      · exact ⟨hopen, hadds _ _ hopen⟩
    | bodyEnd =>
      change HttpServerStreamBatch.contents _ = _
      rw [HttpServerStreamBatch.contents_of_not_finished hopen]
      rfl
  idle _ _ _ h := absurd h (by simp [readServerStream])
  flushAfterTimeout _ hopen := by
    rw [HttpServerStreamBatch.contents_of_not_finished hopen]
    exact HttpServerStreamBatch.contents_of_not_finished (by simp [readServerStream])
  flushAfterClose _ hopen := by
    rw [HttpServerStreamBatch.contents_of_not_finished hopen]
    exact HttpServerStreamBatch.contents_of_not_finished (by simp [readServerStream])

/-- The batch of a read in progress. -/
def GrpcServerStreamBatch.IsOpen (batch : GrpcServerStreamBatch) : Prop := batch.trailers = none

theorem GrpcServerStreamBatch.contents_of_isOpen {batch : GrpcServerStreamBatch}
    (h : batch.IsOpen) :
    (batch.contents : List (GrpcServerStreamEvent G)) = batch.messages.map .message := by
  rw [contents, h, Option.map_none, Option.toList_none, append_nil]

theorem GrpcStreamManager.lawful_readServerStream (channelId streamId : ℕ) :
    (readServerStream channelId streamId : BatchReader (GrpcServerStreamEvent G) _ _).Lawful
      GrpcServerStreamBatch.contents GrpcServerStreamBatch.IsOpen fun _ => false where
  openEmpty := rfl
  empty := rfl
  receive := by
    intro bytes event batch hopen _
    cases event with
    | ends trailers =>
      change GrpcServerStreamBatch.contents _ = _
      rw [GrpcServerStreamBatch.contents_of_isOpen hopen]
      rfl
    | readFailed status element => exact trivial
    | message message =>
      have hadds : ∀ event total, (GrpcServerStreamBatch.mk event (batch.messages ++ [message])
          total batch.trailers).contents =
            batch.contents ++ [(.message message : GrpcServerStreamEvent G)] := by
        intro event total
        refine (GrpcServerStreamBatch.contents_of_isOpen (by exact hopen)).trans ?_
        rw [GrpcServerStreamBatch.contents_of_isOpen hopen, map_append]
        rfl
      unfold readServerStream receive
      dsimp only
      split_ifs
      · exact hadds _ _
      · exact ⟨hopen, hadds _ _⟩
  idle _ _ _ h := absurd h (by simp [readServerStream])
  flushAfterTimeout _ _ := rfl
  flushAfterClose _ _ := rfl

/-- The batch of a read in progress. -/
def DockerStreamBatch.IsOpen (batch : DockerStreamBatch) : Prop := batch.event ≠ .streamFinished

theorem DockerStreamBatch.contents_of_not_finished {batch : DockerStreamBatch}
    (h : batch.event ≠ .streamFinished) : batch.contents = batch.bodyChunks.map .bodyChunk :=
  contents_append_if h

theorem DockerLogStreamManager.lawful_readStream (streamId : ℕ) :
    (readStream streamId : BatchReader _ _ (Status G)).Lawful
      DockerStreamBatch.contents DockerStreamBatch.IsOpen fun _ => false where
  openEmpty := by simp [readStream, DockerStreamBatch.IsOpen]
  empty := rfl
  receive := by
    intro bytes event batch hopen _
    cases event with
    | requestFailed error => exact trivial
    | bodyReadFailed error => exact trivial
    | bodyChunk chunk =>
      have hadds : ∀ event total, event ≠ .streamFinished →
          (DockerStreamBatch.mk event (batch.bodyChunks ++ [chunk]) total).contents =
            batch.contents ++ [.bodyChunk chunk] := by
        intro event total hevent
        refine (DockerStreamBatch.contents_of_not_finished hevent).trans ?_
        rw [DockerStreamBatch.contents_of_not_finished hopen, map_append]
        rfl
      unfold readStream receive
      dsimp only
      split_ifs
      · exact hadds _ _ (by simp)
      · exact ⟨hopen, hadds _ _ hopen⟩
    | bodyEnd =>
      change DockerStreamBatch.contents _ = _
      rw [DockerStreamBatch.contents_of_not_finished hopen]
      rfl
  idle batch batch' hopen h := by
    obtain rfl := Except.ok.inj h
    rw [DockerStreamBatch.contents_of_not_finished hopen]
    exact DockerStreamBatch.contents_of_not_finished (by simp)
  flushAfterTimeout _ hopen := by
    rw [DockerStreamBatch.contents_of_not_finished hopen]
    exact DockerStreamBatch.contents_of_not_finished (by simp [readStream])
  flushAfterClose _ hopen := by
    rw [DockerStreamBatch.contents_of_not_finished hopen]
    exact DockerStreamBatch.contents_of_not_finished (by simp [readStream])

/-! ## What the readers deliver -/

namespace HttpStreamManager

abbrev HttpStream (G : Type*) := BatchedStream HttpServerStreamEvent HttpServerStreamBatch (Status G)

/-- No read gives up, by its timeout or by the closed channel, with a status and no chunk. -/
def KeepsHeader (streamStep : StreamStep HttpServerStreamEvent) (stream : HttpStream G) : Prop :=
  ∀ elapsed ended waitEnd, streamStep = .wait elapsed ended waitEnd →
    ∀ read, stream.reading = some read → read.batch.bodyChunks = [] →
      waitEnd = .timedOut ∧ read.limits.timeoutReadAfter ≤ ended ∨
        waitEnd = .channelClosed ∧ stream.pending = [] ∧ stream.closed = true →
      read.batch.status = none

theorem givesUp_iff {statusText : ℕ → String} {streamId ended : ℕ} {waitEnd : WaitEnd}
    {read : ReadInProgress HttpServerStreamEvent HttpServerStreamBatch} {stream : HttpStream G} :
    stream.givesUp (readServerStream statusText streamId) ended waitEnd read = true ↔
      read.batch.bodyChunks = [] ∧
        (waitEnd = .timedOut ∧ read.limits.timeoutReadAfter ≤ ended ∨
          waitEnd = .channelClosed ∧ stream.pending = [] ∧ stream.closed = true) := by
  unfold BatchedStream.givesUp
  cases waitEnd <;> simp [readServerStream, Except.isOk, Except.toBool]

theorem losesNothing_iff {statusText : ℕ → String} {streamId : ℕ}
    {streamStep : StreamStep HttpServerStreamEvent} {stream : HttpStream G}
    (hkept : stream.Kept HttpServerStreamBatch.contents HttpServerStreamBatch.IsOpen
      HttpServerStreamEvent.isHeader) :
    BatchedStream.LosesNothing (readServerStream statusText streamId) streamStep stream ↔
      KeepsHeader streamStep stream := by
  have htaken : ∀ read, stream.reading = some read → read.batch.bodyChunks = [] →
      (read.taken = [] ↔ read.batch.status = none) := by
    intro read hread hchunks
    rw [← hkept.taken read hread]
    exact HttpServerStreamBatch.contents_eq_nil_iff (hkept.isOpen read hread) hchunks
  constructor
  · intro hloses elapsed ended waitEnd heq read hread hchunks hgives
    exact (htaken read hread hchunks).mp
      (hloses elapsed ended waitEnd heq read hread (givesUp_iff.mpr ⟨hchunks, hgives⟩))
  · intro hkeeps elapsed ended waitEnd heq read hread hgives
    obtain ⟨hchunks, hends⟩ := givesUp_iff.mp hgives
    exact (htaken read hread hchunks).mpr
      (hkeeps elapsed ended waitEnd heq read hread hchunks hends)

theorem header_first_of_spawned {response : Response} {front back : List HttpServerStreamEvent}
    {event : HttpServerStreamEvent} (h : spawned response = front ++ event :: back)
    (hheader : event.isHeader = true) : front = [] := by
  have hlater : ∀ chunks : List Bytes, ∀ last : HttpServerStreamEvent, last.isHeader = false →
      event ∉ chunks.map .bodyChunk ++ [last] := by
    intro chunks last hlast hmem
    rcases mem_append.mp hmem with hmem | hmem
    · obtain ⟨chunk, -, rfl⟩ := mem_map.mp hmem
      exact absurd hheader Bool.false_ne_true
    · obtain rfl := mem_singleton.mp hmem
      exact absurd (hlast.symm.trans hheader) Bool.false_ne_true
  cases front with
  | nil => rfl
  | cons found front =>
    have hmem : event ∈ front ++ event :: back := mem_append_right _ mem_cons_self
    rcases response with error | ⟨header, chunks, error | _⟩
    · exact absurd (List.cons.inj h).2 (by simp)
    · exact absurd ((List.cons.inj h).2 ▸ hmem) (hlater chunks (.bodyReadFailed error) rfl)
    · exact absurd ((List.cons.inj h).2 ▸ hmem) (hlater chunks .bodyEnd rfl)

end HttpStreamManager

/-- Batches without messages are empty. -/
theorem GrpcServerStreamBatch.contents_eq_nil {channelId streamId : ℕ}
    {batch : GrpcServerStreamBatch} (hopen : batch.IsOpen)
    (hholds : (GrpcStreamManager.readServerStream channelId streamId :
      BatchReader (GrpcServerStreamEvent G) _ _).holdsContent batch = false) :
    (batch.contents : List (GrpcServerStreamEvent G)) = [] := by
  have hmessages : batch.messages = [] := by simpa [GrpcStreamManager.readServerStream] using hholds
  rw [contents_of_isOpen hopen, hmessages, map_nil]

/-- Batches without chunks are empty. -/
theorem DockerStreamBatch.contents_eq_nil {streamId : ℕ} {batch : DockerStreamBatch}
    (hopen : batch.IsOpen) (hholds : (DockerLogStreamManager.readStream streamId :
      BatchReader _ _ (Status G)).holdsContent batch = false) :
    batch.contents = [] := by
  have hchunks : batch.bodyChunks = [] := by
    simpa [DockerLogStreamManager.readStream] using hholds
  rw [contents_of_not_finished hopen, hchunks, map_nil]

namespace StreamManagers

open BatchedStream

/-- The batches of gRPC and Docker streams always have all events that were consumed, in order, and a
read that returns an error consumed none.  For HTTP streams this holds exactly in runs in which no
read gives up after it took the header. -/
theorem delivered_iff :
    (∀ (statusText : ℕ → String) (streamId : ℕ) (response : HttpStreamManager.Response)
      (steps : List (StreamStep HttpServerStreamEvent)),
      sends steps <+: HttpStreamManager.spawned response →
      ((∀ front back, steps = front ++ back →
        (replay (step (HttpStreamManager.readServerStream statusText streamId)) front
          (initial : HttpStreamManager.HttpStream G)).Delivered HttpServerStreamBatch.contents) ↔
      ReplayMeets (step (HttpStreamManager.readServerStream statusText streamId))
        HttpStreamManager.KeepsHeader steps (initial : HttpStreamManager.HttpStream G))) ∧
    (∀ (channelId streamId : ℕ) (steps : List (StreamStep (GrpcServerStreamEvent G))),
      (replay (step (GrpcStreamManager.readServerStream channelId streamId)) steps
        initial).Delivered GrpcServerStreamBatch.contents) ∧
    (∀ (streamId : ℕ) (steps : List (StreamStep DockerStreamEvent)),
      (replay (step (DockerLogStreamManager.readStream streamId : BatchReader _ _ (Status G))) steps
        initial).Delivered DockerStreamBatch.contents) := by
  refine ⟨?_, ?_, ?_⟩
  · intro statusText streamId response steps hsends
    have hlawful : (HttpStreamManager.readServerStream statusText streamId :
        BatchReader _ _ (Status G)).Lawful _ _ _ :=
      HttpStreamManager.lawful_readServerStream statusText streamId
    refine replay_invariant_iff_of_allowed
      (Kept HttpServerStreamBatch.contents HttpServerStreamBatch.IsOpen
        HttpServerStreamEvent.isHeader) _
      (fun streamStep _ hkept => hkept.step hlawful streamStep) ?_
      (inOrder_of_sends (fun _ _ _ => HttpStreamManager.header_first_of_spawned) hsends)
      kept_initial delivered_initial
    intro streamStep stream hkept _ hdelivered
    rw [delivered_step_iff hlawful streamStep hkept hdelivered]
    exact HttpStreamManager.losesNothing_iff hkept
  · intro channelId streamId steps
    refine delivered_of_run (GrpcStreamManager.lawful_readServerStream channelId streamId)
      (fun _ => GrpcServerStreamBatch.contents_eq_nil) (.of_forall fun _ _ _ _ h => ?_)
    exact absurd h Bool.false_ne_true
  · intro streamId steps
    refine delivered_of_run (DockerLogStreamManager.lawful_readStream streamId)
      (fun _ => DockerStreamBatch.contents_eq_nil) (.of_forall fun _ _ _ _ h => ?_)
    exact absurd h Bool.false_ne_true

/-- A response with a header and an empty body. -/
def headerOnly : HttpStreamManager.Response := .ok ((200, []), [], .ok ())

/-- A read with a second to wait, which gets the header and then nothing. -/
def headerThenTimeout : List (StreamStep HttpServerStreamEvent) :=
  [.read { timeoutReadAfter := 1000, flushBatchAfter := 100, flushBatchBytes := 4096 },
    .send (.header 200 []), .wait 0 5 .received, .wait 5 1000 .timedOut]

/-- A read that is in time. -/
def headerThenEnd : List (StreamStep HttpServerStreamEvent) :=
  [.read { timeoutReadAfter := 1000, flushBatchAfter := 100, flushBatchBytes := 4096 },
    .send (.header 200 []), .wait 0 5 .received, .send .bodyEnd, .wait 5 10 .received]

theorem delivered_iff_headerThenEnd :
    (∀ front back, headerThenEnd = front ++ back →
      (replay (step (HttpStreamManager.readServerStream toString 1)) front
        (initial : HttpStreamManager.HttpStream Unit)).Delivered HttpServerStreamBatch.contents) ↔
    ReplayMeets (step (HttpStreamManager.readServerStream toString 1))
      HttpStreamManager.KeepsHeader headerThenEnd (initial : HttpStreamManager.HttpStream Unit) :=
  (delivered_iff (G := Unit)).1 toString 1 headerOnly headerThenEnd ⟨[], rfl⟩

/-- The header is consumed, and no batch has it. -/
theorem header_lost_by_timeout :
    sends headerThenTimeout <+: HttpStreamManager.spawned headerOnly ∧
      ¬ (replay (step (HttpStreamManager.readServerStream toString 1)) headerThenTimeout
        (initial : HttpStreamManager.HttpStream Unit)).Delivered HttpServerStreamBatch.contents := by
  refine ⟨⟨[.bodyEnd], rfl⟩, fun hdelivered => ?_⟩
  have hcontents := hdelivered.contents rfl
  exact absurd hcontents (by decide)

end StreamManagers

end DashQL.Native
