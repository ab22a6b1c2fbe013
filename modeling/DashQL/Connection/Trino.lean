import DashQL.Connection.QueryExecution
import DashQL.Library.Loops

/-!
# The result stream of a Trino query

A query is answered by a chain of responses, each with the address of the next one, until a response
has none.  The stream fetches them one after another while the textual state of the latest response
says that the query is queued, running or finishing.
-/

namespace DashQL.Connection

open List Option

/-- The translation of schemas and rows to Arrow; rows that do not fit their schema may fail. -/
structure TrinoTranslation where
  Column : Type
  Row : Type
  Schema : Type
  Batch : Type
  TranslationError : Type
  translateTrinoSchema : List Column → Schema
  translateAnyRowsToArrowBatch : Schema → List Row → Except TranslationError Batch
  numRows : Batch → ℤ

/-! ## Responses -/

structure TrinoQueryError where
  message : String
  errorCode : ℤ
  errorName : String
  errorType : String
  deriving DecidableEq

structure TrinoQueryStatistics where
  state : String
  queued : Bool
  deriving DecidableEq

variable {T : TrinoTranslation}

structure TrinoQueryResult (T : TrinoTranslation) where
  nextUri : Option String
  columns : Option (List T.Column)
  /-- The data, if the field is an array. -/
  data : Option (List T.Row)
  stats : Option TrinoQueryStatistics
  error : Option TrinoQueryError

/-- The address of the next response; an empty one is none. -/
def TrinoQueryResult.next (result : TrinoQueryResult T) : Option String :=
  match result.nextUri with
  | none => none
  | some nextUri => if nextUri = "" then none else some nextUri

/-- The textual state of a response. -/
def TrinoQueryResult.state (result : TrinoQueryResult T) : Option String :=
  result.stats.map TrinoQueryStatistics.state

/-- The server: the response to the last of the requests so far, and the time that it takes. -/
structure TrinoServer (T : TrinoTranslation) where
  response : List String → TrinoQueryResult T
  duration : List String → ℤ

/-! ## The stream -/

inductive TrinoStreamError (T : TrinoTranslation) where
  | queryReturnedError (errorCode errorName errorType errorMessage : String)
  | resultSchemaMissing
  | translation (error : T.TranslationError)

/-- A stream, with the requests that were sent, and the batches and the progress that were resolved. -/
structure TrinoQueryResultStream (T : TrinoTranslation) where
  resultSchema : Option T.Schema
  latestQueryResult : TrinoQueryResult T
  latestQueryStats : Option TrinoQueryStatistics
  latestQueryState : Option String
  latestQueryProgress : Option QueryExecutionProgress
  queryMetrics : QueryExecutionMetrics
  requests : List String
  batches : List T.Batch
  progress : List QueryExecutionProgress

namespace TrinoQueryResultStream

/-- The constructor. -/
def new (result : TrinoQueryResult T) (metrics : QueryExecutionMetrics) :
    TrinoQueryResultStream T where
  resultSchema := result.columns.map T.translateTrinoSchema
  latestQueryResult := result
  latestQueryStats := result.stats
  latestQueryState := result.state
  latestQueryProgress := none
  queryMetrics := metrics
  requests := []
  batches := []
  progress := []

/-- The stream with a response received, before it is looked at. -/
def receive (server : TrinoServer T) (nextUri : String) (stream : TrinoQueryResultStream T) :
    TrinoQueryResultStream T :=
  let requests := stream.requests ++ [nextUri]
  let queryResult := server.response requests
  { stream with
    requests
    latestQueryResult := queryResult
    latestQueryStats := queryResult.stats
    latestQueryState := queryResult.state
    queryMetrics := { stream.queryMetrics with
      totalQueryRequestsStarted := stream.queryMetrics.totalQueryRequestsStarted + 1 } }

/-- The stream with a response that has no error. -/
def accept (duration : ℤ) (stream : TrinoQueryResultStream T) : TrinoQueryResultStream T :=
  { stream with
    resultSchema :=
      stream.resultSchema.or (stream.latestQueryResult.columns.map T.translateTrinoSchema)
    queryMetrics := { stream.queryMetrics with
      totalQueryRequestsSucceeded := stream.queryMetrics.totalQueryRequestsSucceeded + 1
      totalQueryRequestDurationMs := stream.queryMetrics.totalQueryRequestDurationMs + duration } }

def fetchNextQueryResult (server : TrinoServer T) (stream : TrinoQueryResultStream T) :
    Except (TrinoStreamError T) (TrinoQueryResultStream T × Option (TrinoQueryResult T)) :=
  match stream.latestQueryResult.next with
  | none => .ok (stream, none)
  | some nextUri =>
    let received := stream.receive server nextUri
    match received.latestQueryResult.error with
    | some error =>
      .error (.queryReturnedError (toString error.errorCode) error.errorName error.errorType
        error.message)
    | none =>
      .ok (received.accept (server.duration received.requests), received.latestQueryResult)

def deriveProgress (stats : Option TrinoQueryStatistics) (metrics : QueryExecutionMetrics) :
    QueryExecutionProgress where
  isQueued := stats.map TrinoQueryStatistics.queued
  metrics

def publishProgress (stream : TrinoQueryResultStream T) : TrinoQueryResultStream T :=
  let latest := deriveProgress stream.latestQueryStats stream.queryMetrics
  { stream with latestQueryProgress := some latest, progress := stream.progress ++ [latest] }

def resolveBatch (resultBatch : T.Batch) (stream : TrinoQueryResultStream T) :
    TrinoQueryResultStream T :=
  let counted := { stream with
    queryMetrics := { stream.queryMetrics with
      totalBatchesReceived := stream.queryMetrics.totalBatchesReceived + 1
      totalRowsReceived := stream.queryMetrics.totalRowsReceived + T.numRows resultBatch } }
  { counted.publishProgress with batches := stream.batches ++ [resultBatch] }

/-- The states in which `produce` goes on. -/
def isRunning (state : Option String) : Bool :=
  state = some "QUEUED" || state = some "RUNNING" || state = some "FINISHING"

/-- The test of the loop of `produce`. -/
def goesOn (stream : TrinoQueryResultStream T) : Bool := isRunning stream.latestQueryState

/-- The body of the loop of `produce`. -/
def produceNext (server : TrinoServer T) (stream : TrinoQueryResultStream T) :
    Except (TrinoStreamError T) (TrinoQueryResultStream T) :=
  match stream.fetchNextQueryResult server with
  | .error error => .error error
  | .ok (fetched, result) =>
    match result.bind TrinoQueryResult.data with
    | none => .ok fetched.publishProgress
    | some rows =>
      match fetched.resultSchema with
      | none => .error .resultSchemaMissing
      | some schema =>
        match T.translateAnyRowsToArrowBatch schema rows with
        | .error error => .error (.translation error)
        | .ok resultBatch => .ok (fetched.resolveBatch resultBatch)

def produce (server : TrinoServer T) (fuel : ℕ) (stream : TrinoQueryResultStream T) :
    Option (Except (TrinoStreamError T) (TrinoQueryResultStream T)) :=
  whileLoop goesOn (produceNext server) fuel stream

/-- The loop returns in a final state. -/
def Returns (server : TrinoServer T) (stream final : TrinoQueryResultStream T) : Prop :=
  ∃ fuel, produce server fuel stream = some (.ok final)

/-! ## Chains of responses -/

/-- The server answers the request of the address of each response with the next response of a
chain; only the last one has no address. -/
def Chain (server : TrinoServer T) :
    List String → TrinoQueryResult T → List (TrinoQueryResult T) → Prop
  | _, result, [] => result.next = none
  | requests, result, following :: rest =>
    ∃ nextUri, result.next = some nextUri ∧
      server.response (requests ++ [nextUri]) = following ∧
      Chain server (requests ++ [nextUri]) following rest

/-- The schema of a chain is that of the first columns. -/
def schemaOf (results : List (TrinoQueryResult T)) : Option T.Schema :=
  (results.findSome? TrinoQueryResult.columns).map T.translateTrinoSchema

/-- Columns are present no later than the first data. -/
def ColumnsFirst (results : List (TrinoQueryResult T)) : Prop :=
  ∀ index < results.length, (results[index]?.bind TrinoQueryResult.data).isSome →
    (schemaOf (results.take (index + 1))).isSome

instance (results : List (TrinoQueryResult T)) : Decidable (ColumnsFirst results) :=
  inferInstanceAs (Decidable (∀ index < results.length, _ → _))

/-- A batch is the translation of rows with the schema of a chain. -/
def Translates (results : List (TrinoQueryResult T)) (rows : List T.Row) (batch : T.Batch) : Prop :=
  ∃ schema, schemaOf results = some schema ∧ T.translateAnyRowsToArrowBatch schema rows = .ok batch

/-- The stream of a chain requests all its addresses in order and returns, and its batches are the
translations of all data of the chain, in order. -/
def Delivers (server : TrinoServer T) (metrics : QueryExecutionMetrics)
    (first : TrinoQueryResult T) (rest : List (TrinoQueryResult T)) : Prop :=
  ∃ final, Returns server (new first metrics) final ∧
    final.requests = (first :: rest).filterMap TrinoQueryResult.next ∧
    List.Forall₂ (Translates (first :: rest))
      ((first :: rest).filterMap TrinoQueryResult.data) final.batches

variable {server : TrinoServer T} {result following : TrinoQueryResult T}
  {chain seen rest : List (TrinoQueryResult T)} {stream final : TrinoQueryResultStream T}

theorem schemaOf_append {schema : T.Schema} (h : schemaOf seen = some schema) :
    schemaOf (seen ++ rest) = some schema := by
  obtain ⟨columns, hcolumns, rfl⟩ := map_eq_some_iff.mp h
  rw [schemaOf, findSome?_append, hcolumns]
  rfl

theorem schemaOf_concat :
    schemaOf (seen ++ [result]) =
      (schemaOf seen).or (result.columns.map T.translateTrinoSchema) := by
  unfold schemaOf
  rw [findSome?_append, findSome?_singleton]
  cases seen.findSome? TrinoQueryResult.columns <;> rfl

/-- Where a chain has data, it has had columns. -/
theorem ColumnsFirst.isSome (h : ColumnsFirst (seen ++ result :: rest)) (hdata : result.data.isSome) :
    (schemaOf (seen ++ [result])).isSome := by
  have hget : (seen ++ result :: rest)[seen.length]? = some result := by
    rw [getElem?_append_right le_rfl, Nat.sub_self]
    rfl
  have htake : (seen ++ result :: rest).take (seen.length + 1) = seen ++ [result] := by
    rw [take_length_add_append]
    rfl
  rw [← htake]
  refine h seen.length ?_ ?_
  · rw [length_append, length_cons]
    omega
  · rwa [hget, bind_some]

theorem filterMap_cons_toList {α β : Type} {f : α → Option β} {x : α} {xs : List α} :
    (x :: xs).filterMap f = (f x).toList ++ xs.filterMap f := by
  cases hx : f x with
  | none => exact filterMap_cons_none hx
  | some value => exact filterMap_cons_some hx

/-! ## One round of the loop -/

/-- A stream has come to a response of a chain. -/
structure At (server : TrinoServer T) (chain seen : List (TrinoQueryResult T))
    (result : TrinoQueryResult T) (rest : List (TrinoQueryResult T))
    (stream : TrinoQueryResultStream T) : Prop where
  split : chain = seen ++ result :: rest
  latest : stream.latestQueryResult = result
  state : stream.latestQueryState = result.state
  schema : stream.resultSchema = schemaOf (seen ++ [result])
  linked : Chain server stream.requests result rest

theorem at_new {first : TrinoQueryResult T} (metrics : QueryExecutionMetrics)
    (h : Chain server [] first rest) :
    At server (first :: rest) [] first rest (new first metrics) where
  split := rfl
  latest := rfl
  state := rfl
  schema := by
    rw [schemaOf_concat]
    rfl
  linked := h

/-- Fetching from a response with an address comes to the following response. -/
theorem fetchNextQueryResult_at (h : At server chain seen result (following :: rest) stream)
    (herror : following.error = none) :
    ∃ fetched, stream.fetchNextQueryResult server = .ok (fetched, some following) ∧
      At server chain (seen ++ [result]) following rest fetched ∧
      fetched.requests = stream.requests ++ result.next.toList ∧
      fetched.batches = stream.batches := by
  obtain ⟨nextUri, hnext, hresponse, hlinked⟩ := h.linked
  refine ⟨(stream.receive server nextUri).accept
    (server.duration (stream.requests ++ [nextUri])), ?_, ?_, ?_, rfl⟩
  · have hnone : (stream.receive server nextUri).latestQueryResult.error = none := by
      change (server.response (stream.requests ++ [nextUri])).error = none
      rw [hresponse, herror]
    unfold fetchNextQueryResult
    rw [h.latest, hnext]
    dsimp only
    rw [hnone]
    dsimp only
    refine congrArg Except.ok (Prod.ext rfl ?_)
    exact congrArg some hresponse
  · exact
      { split := by rw [h.split, append_assoc, singleton_append]
        latest := hresponse
        state := congrArg TrinoQueryResult.state hresponse
        schema := by
          rw [schemaOf_concat, ← h.schema, ← hresponse]
          rfl
        linked := hlinked }
  · rw [hnext]
    rfl

/-- A round of the loop resolves the data of the following response. -/
theorem produceNext_at (h : At server chain seen result (following :: rest) stream)
    (herror : following.error = none) (hcolumns : ColumnsFirst chain)
    (htranslates : ∀ rows, following.data = some rows → ∃ batch, Translates chain rows batch) :
    ∃ stream' batches, stream.produceNext server = .ok stream' ∧
      At server chain (seen ++ [result]) following rest stream' ∧
      stream'.requests = stream.requests ++ result.next.toList ∧
      List.Forall₂ (Translates chain) following.data.toList batches ∧
      stream'.batches = stream.batches ++ batches := by
  obtain ⟨fetched, hfetch, hat, hrequests, hbatches⟩ := fetchNextQueryResult_at h herror
  have hsame : ∀ stream' : TrinoQueryResultStream T,
      stream'.latestQueryResult = fetched.latestQueryResult →
      stream'.latestQueryState = fetched.latestQueryState →
      stream'.resultSchema = fetched.resultSchema → stream'.requests = fetched.requests →
      At server chain (seen ++ [result]) following rest stream' := by
    intro stream' hlatest hstate hschema hrequests'
    exact ⟨hat.split, hlatest.trans hat.latest, hstate.trans hat.state, hschema.trans hat.schema,
      hrequests' ▸ hat.linked⟩
  unfold produceNext
  rw [hfetch]
  dsimp only
  rw [bind_some]
  cases hdata : following.data with
  | none =>
    refine ⟨fetched.publishProgress, [], rfl, hsame _ rfl rfl rfl rfl, hrequests, .nil, ?_⟩
    exact hbatches.trans (append_nil _).symm
  | some rows =>
    have hsome : (schemaOf (seen ++ [result] ++ [following])).isSome := by
      refine ColumnsFirst.isSome (hat.split ▸ hcolumns) ?_
      rw [hdata]
      rfl
    obtain ⟨schema, hschema⟩ := isSome_iff_exists.mp hsome
    obtain ⟨batch, schema', hschema', htranslate⟩ := htranslates rows hdata
    have hfound : schemaOf chain = some schema := by
      have hsplit : chain = seen ++ [result] ++ [following] ++ rest := by
        rw [hat.split, append_assoc _ [following], singleton_append]
      rw [hsplit]
      exact schemaOf_append hschema
    obtain rfl : schema' = schema := some.inj (hschema'.symm.trans hfound)
    refine ⟨fetched.resolveBatch batch, [batch], ?_, hsame _ rfl rfl rfl rfl, hrequests, ?_, ?_⟩
    · rw [hat.schema, hschema]
      dsimp only
      rw [htranslate]
    · exact .cons ⟨schema', hschema', htranslate⟩ .nil
    · exact congrArg (· ++ [batch]) hbatches

/-- At the last response a round of the loop changes nothing but the progress. -/
theorem not_returns_of_running (hnone : stream.latestQueryResult.next = none)
    (hrunning : goesOn stream = true) : ¬ Returns server stream final := by
  refine not_loopEnds_of_invariant (fun stream : TrinoQueryResultStream T =>
    stream.latestQueryResult.next = none ∧ goesOn stream = true)
    (fun _ h => h.2) ?_ ⟨hnone, hrunning⟩
  intro stream h
  refine ⟨stream.publishProgress, ?_, h⟩
  unfold produceNext fetchNextQueryResult
  rw [h.1]
  rfl

/-! ## Runs of the loop -/

theorem next_isSome_of_at (h : At server chain seen result (following :: rest) stream) :
    result.next.isSome = true := by
  obtain ⟨nextUri, hnext, -⟩ := h.linked
  rw [hnext]
  rfl

/-- If the states go with the addresses, the loop comes to the end of the chain. -/
theorem returns_of_states (hcolumns : ColumnsFirst chain)
    (herror : ∀ result ∈ chain, result.error = none)
    (htranslates : ∀ result ∈ chain, ∀ rows, result.data = some rows →
      ∃ batch, Translates chain rows batch) :
    ∀ {seen result stream}, At server chain seen result rest stream →
      (∀ r ∈ result :: rest, isRunning r.state = r.next.isSome) →
      ∃ final batches, Returns server stream final ∧
        final.requests = stream.requests ++ (result :: rest).filterMap TrinoQueryResult.next ∧
        List.Forall₂ (Translates chain) (rest.filterMap TrinoQueryResult.data) batches ∧
        final.batches = stream.batches ++ batches := by
  induction rest with
  | nil =>
    intro seen result stream h hstates
    have hnone : result.next = none := h.linked
    have hstop : goesOn stream = false := by
      rw [goesOn, h.state, hstates result mem_cons_self, hnone]
      rfl
    refine ⟨stream, [], (loopEnds_of_stop hstop).mpr rfl, ?_, .nil, (append_nil _).symm⟩
    rw [filterMap_cons_none hnone, filterMap_nil, append_nil]
  | cons following rest ih =>
    intro seen result stream h hstates
    have hmem : following ∈ chain := by
      rw [h.split]
      exact mem_append_right _ (mem_cons_of_mem _ mem_cons_self)
    obtain ⟨stream', batches, hround, hat, hrequests, hbatch, hbatches⟩ :=
      produceNext_at h (herror following hmem) hcolumns (htranslates following hmem)
    have htest : goesOn stream = true := by
      rw [goesOn, h.state, hstates result mem_cons_self]
      exact next_isSome_of_at h
    obtain ⟨final, batches', hreturns, hrequests', hbatches', hfinal⟩ :=
      ih hat fun r hr => hstates r (mem_cons_of_mem _ hr)
    refine ⟨final, batches ++ batches', (loopEnds_of_test htest hround).mpr hreturns, ?_, ?_, ?_⟩
    · rw [hrequests', hrequests, append_assoc, ← filterMap_cons_toList]
    · rw [filterMap_cons_toList]
      exact rel_append hbatch hbatches'
    · rw [hfinal, hbatches, append_assoc]

theorem states_of_returns (hcolumns : ColumnsFirst chain)
    (herror : ∀ result ∈ chain, result.error = none)
    (htranslates : ∀ result ∈ chain, ∀ rows, result.data = some rows →
      ∃ batch, Translates chain rows batch) :
    ∀ {seen result stream}, At server chain seen result rest stream →
      Returns server stream final →
      final.requests = stream.requests ++ (result :: rest).filterMap TrinoQueryResult.next →
      ∀ r ∈ result :: rest, isRunning r.state = r.next.isSome := by
  induction rest with
  | nil =>
    intro seen result stream h hreturns _ r hr
    have hnone : result.next = none := h.linked
    obtain rfl := mem_singleton.mp hr
    rw [hnone, isSome_none, ← h.state, ← Bool.not_eq_true]
    intro hrunning
    exact not_returns_of_running (h.latest ▸ hnone) hrunning hreturns
  | cons following rest ih =>
    intro seen result stream h hreturns hrequests
    obtain ⟨nextUri, hnext, -⟩ := h.linked
    have hmem : following ∈ chain := by
      rw [h.split]
      exact mem_append_right _ (mem_cons_of_mem _ mem_cons_self)
    have htest : goesOn stream = true := by
      by_contra hstop
      -- the loop would return here, with no more requests
      have hfinal := (loopEnds_of_stop (Bool.eq_false_of_not_eq_true hstop)).mp hreturns
      rw [hfinal, filterMap_cons_some hnext] at hrequests
      have hlength := congrArg List.length hrequests
      rw [length_append, length_cons] at hlength
      omega
    obtain ⟨stream', batches, hround, hat, hrequests', -, -⟩ :=
      produceNext_at h (herror following hmem) hcolumns (htranslates following hmem)
    have hfinal : final.requests =
        stream'.requests ++ (following :: rest).filterMap TrinoQueryResult.next := by
      rw [hrequests, hrequests', append_assoc, ← filterMap_cons_toList]
    intro r hr
    rcases mem_cons.mp hr with rfl | hr
    · rw [hnext, ← h.state]
      exact htest
    · exact ih hat ((loopEnds_of_test htest hround).mp hreturns) hfinal r hr

/-- For a chain without errors, with columns no later than data that can be translated, the stream
delivers all of the chain exactly if the first response has no data, and the states of the
responses go with their addresses. -/
theorem delivers_iff {first : TrinoQueryResult T} (metrics : QueryExecutionMetrics)
    (hchain : Chain server [] first rest) (herror : ∀ result ∈ first :: rest, result.error = none)
    (hcolumns : ColumnsFirst (first :: rest))
    (htranslates : ∀ result ∈ first :: rest, ∀ rows, result.data = some rows →
      ∃ batch, Translates (first :: rest) rows batch) :
    Delivers server metrics first rest ↔
      first.data = none ∧ ∀ result ∈ first :: rest, isRunning result.state = result.next.isSome := by
  have hat := at_new metrics hchain
  constructor
  · rintro ⟨final, hreturns, hrequests, hbatches⟩
    have hstates := states_of_returns hcolumns herror htranslates hat hreturns hrequests
    refine ⟨?_, hstates⟩
    obtain ⟨final', batches, hreturns', -, hbatches', hfinal'⟩ :=
      returns_of_states hcolumns herror htranslates hat hstates
    obtain rfl := LoopEnds.unique hreturns hreturns'
    have hlength := hbatches.length_eq
    have hlength' := hbatches'.length_eq
    have hall : final.batches.length = batches.length := by
      rw [hfinal']
      exact congrArg List.length (nil_append batches)
    by_contra hdata
    obtain ⟨rows, hrows⟩ := ne_none_iff_exists'.mp hdata
    rw [filterMap_cons_some hrows, length_cons] at hlength
    omega
  · rintro ⟨hdata, hstates⟩
    obtain ⟨final, batches, hreturns, hrequests, hbatches, hfinal⟩ :=
      returns_of_states hcolumns herror htranslates hat hstates
    refine ⟨final, hreturns, hrequests, ?_⟩
    rw [filterMap_cons_none hdata, hfinal]
    exact hbatches

/-! ## A chain in the planning state -/

def countRows : TrinoTranslation where
  Column := Unit
  Row := Unit
  Schema := Unit
  Batch := ℕ
  TranslationError := Empty
  translateTrinoSchema _ := ()
  translateAnyRowsToArrowBatch _ rows := .ok rows.length
  numRows batch := batch

def queued : TrinoQueryResult countRows where
  nextUri := some "queued/1"
  columns := none
  data := none
  stats := some { state := "QUEUED", queued := true }
  error := none

def withRow (state : String) (nextUri : Option String) : TrinoQueryResult countRows where
  nextUri
  columns := some [()]
  data := some [()]
  stats := some { state, queued := false }
  error := none

def twoResponses (second third : TrinoQueryResult countRows) : TrinoServer countRows where
  response requests := if requests.length = 1 then second else third
  duration _ := 0

/-- The stream ends at a query that is being planned, although it has an address. -/
theorem undelivered_while_planning :
    ¬ Delivers (twoResponses (withRow "PLANNING" (some "executing/2")) (withRow "FINISHED" none))
      createQueryResponseStreamMetrics queued
      [withRow "PLANNING" (some "executing/2"), withRow "FINISHED" none] := by
  rintro ⟨final, hreturns, hrequests, -⟩
  have hchain : Chain
      (twoResponses (withRow "PLANNING" (some "executing/2")) (withRow "FINISHED" none)) [] queued
      [withRow "PLANNING" (some "executing/2"), withRow "FINISHED" none] :=
    ⟨"queued/1", rfl, rfl, "executing/2", rfl, rfl, rfl⟩
  have hstates := states_of_returns (by decide) (by decide)
    (fun _ _ rows _ => ⟨rows.length, (), rfl, rfl⟩)
    (at_new createQueryResponseStreamMetrics hchain) hreturns hrequests
  exact absurd (hstates (withRow "PLANNING" (some "executing/2")) (by simp)) (by decide)

/-- A query that is queued, runs and finishes. -/
theorem delivers_iff_running :
    Delivers (twoResponses (withRow "RUNNING" (some "executing/2")) (withRow "FINISHED" none))
      createQueryResponseStreamMetrics queued
      [withRow "RUNNING" (some "executing/2"), withRow "FINISHED" none] ↔
      queued.data = none ∧
        ∀ result ∈ queued :: [withRow "RUNNING" (some "executing/2"), withRow "FINISHED" none],
          isRunning result.state = result.next.isSome :=
  delivers_iff createQueryResponseStreamMetrics
    ⟨"queued/1", rfl, rfl, "executing/2", rfl, rfl, rfl⟩ (by decide) (by decide)
    (fun _ _ rows _ => ⟨rows.length, (), rfl, rfl⟩)

end TrinoQueryResultStream

end DashQL.Connection
