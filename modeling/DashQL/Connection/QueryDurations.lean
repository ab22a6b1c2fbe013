import DashQL.Connection.QueryOrder

/-!
# Durations and totals of queries

What the actions of a query say of it is kept in a measure: when it was last set running, and its
stream metrics.  From the measures a run has its account of the queries that ended since the last
reset, which is what the durations of the finished queries and the totals of the connection are
compared with.

A query that succeeds gets the time since it was set running.  One that fails or is cancelled gets
the point in time itself, which is the same only at twice that point (`exact_of_run_iff`).
-/

namespace DashQL.Connection

open Function List Option
open InsertionMap (get?_delete get?_modify get?_set get?_set_self mem_keys_iff)

variable {V : QueryValues}

/-! ## Measures -/

/-- What the actions of a query say of it so far. -/
structure QueryMeasure where
  startedAt : Option ℤ
  streamMetrics : QueryExecutionMetrics
  deriving DecidableEq

/-- The time since a query was last set running, or 0 if it never was. -/
def QueryMeasure.duration (measure : QueryMeasure) (now : ℤ) : ℤ :=
  match measure.startedAt with
  | none => 0
  | some startedAt => now - startedAt

structure EndedQuery where
  queryId : ℕ
  status : QueryExecutionStatus
  durationMs : ℤ
  streamMetrics : QueryExecutionMetrics
  deriving DecidableEq

def totalOf (status : QueryExecutionStatus) (ended : List EndedQuery) : ConnectionQueryMetrics :=
  let queries := ended.filter fun query => query.status = status
  { totalQueries := queries.length
    totalBatchesReceived := (queries.map fun query => query.streamMetrics.totalBatchesReceived).sum
    totalRowsReceived := (queries.map fun query => query.streamMetrics.totalRowsReceived).sum
    accumulatedTimeUntilFirstBatch :=
      (queries.map fun query => query.streamMetrics.durationUntilFirstBatchMs.getD 0).sum
    accumulatedQueryDuration := (queries.map EndedQuery.durationMs).sum }

def totals (ended : List EndedQuery) : ConnectionMetrics where
  successfulQueries := totalOf .succeeded ended
  canceledQueries := totalOf .cancelled ended
  failedQueries := totalOf .failed ended

namespace QueryExecutionAction

def measure (now : ℤ) (action : QueryExecutionAction V) (measures : ℕ → QueryMeasure) :
    ℕ → QueryMeasure :=
  match action with
  | executeQuery queryId query =>
    Function.update measures queryId ⟨none, query.metrics.streamMetrics⟩
  | queryRunning queryId _ =>
    Function.update measures queryId { measures queryId with startedAt := some now }
  | queryReceivedBatch queryId _ streamMetrics =>
    Function.update measures queryId { measures queryId with streamMetrics }
  | _ => measures

/-- The stream metrics that come with the end of a query. -/
def terminalMetrics : QueryExecutionAction V → Option QueryExecutionMetrics
  | queryFailed _ _ metrics => metrics
  | queryCancelled _ _ metrics => metrics
  | _ => none

def ending (now : ℤ) (action : QueryExecutionAction V) (status : QueryExecutionStatus)
    (measure : QueryMeasure) : EndedQuery where
  queryId := action.queryId
  status
  durationMs := measure.duration now
  streamMetrics := action.terminalMetrics.getD measure.streamMetrics

end QueryExecutionAction

/-! ## Runs -/

/-- A run with the measures of its queries, and those that ended since the last reset. -/
structure MeasuredRun (V : QueryValues) where
  run : QueryRun V
  measures : ℕ → QueryMeasure
  ended : List EndedQuery

namespace MeasuredRun

def initial : MeasuredRun V where
  run := QueryRun.initial
  measures _ := ⟨none, createQueryResponseStreamMetrics⟩
  ended := []

def endings (action : ConnectionAction V) (measured : MeasuredRun V) : List EndedQuery :=
  match action with
  | .query now action =>
    match action.finishes with
    | some status =>
      if action.queryId ∈ measured.run.state.queriesActive.keys then
        [action.ending now status (measured.measures action.queryId)]
      else []
    | none => []
  | .resetConnection => []

def step (action : ConnectionAction V) (measured : MeasuredRun V) : MeasuredRun V where
  run := measured.run.step action
  measures :=
    match action with
    | .query now action => action.measure now measured.measures
    | .resetConnection => measured.measures
  ended := if action.resets then [] else measured.ended ++ measured.endings action

/-- A query is executed under its own id, which was never used before, and is not running yet. -/
def Fresh (action : ConnectionAction V) (measured : MeasuredRun V) : Prop :=
  QueryRun.Fresh action measured.run ∧
    ∀ entry ∈ action.executes, entry.2.metrics.queryRunningStartedAt = none

instance (action : ConnectionAction V) (measured : MeasuredRun V) :
    Decidable (Fresh action measured) :=
  inferInstanceAs (Decidable (_ ∧ ∀ entry ∈ action.executes, _))

/-- The finished queries have the durations and the stream metrics of the account, and the metrics
of the connection are its totals. -/
structure Exact (measured : MeasuredRun V) : Prop where
  accounted : ∀ id ∈ measured.run.state.queriesFinished.keys,
    ∃ ended ∈ measured.ended, ended.queryId = id
  finished : ∀ ended ∈ measured.ended, ∃ query,
    measured.run.state.queriesFinished.get? ended.queryId = some query ∧
      query.status = ended.status ∧ query.metrics.streamMetrics = ended.streamMetrics ∧
      query.metrics.queryDurationMs = some ended.durationMs
  metrics : measured.run.state.metrics = totals measured.ended

/-- A query that fails or is cancelled does so at twice the time at which it was set running, or at
time 0 if it never was. -/
def EndsAtTwice (action : ConnectionAction V) (measured : MeasuredRun V) : Prop :=
  match action with
  | .query now action =>
    ∀ status ∈ action.finishes, status ≠ .succeeded →
      action.queryId ∈ measured.run.state.queriesActive.keys →
      now = 2 * (measured.measures action.queryId).startedAt.getD 0
  | .resetConnection => True

instance (action : ConnectionAction V) (measured : MeasuredRun V) :
    Decidable (EndsAtTwice action measured) :=
  match action with
  | .query _ action =>
    inferInstanceAs (Decidable (∀ status ∈ action.finishes, status ≠ .succeeded →
      action.queryId ∈ measured.run.state.queriesActive.keys → _))
  | .resetConnection => inferInstanceAs (Decidable True)

/-! ## What holds in every run -/

structure Fits (query : QueryExecutionState V) (measure : QueryMeasure) : Prop where
  startedAt : query.metrics.queryRunningStartedAt = measure.startedAt
  streamMetrics : query.metrics.streamMetrics = measure.streamMetrics

structure Measured (measured : MeasuredRun V) : Prop where
  accounted : measured.run.Accounted
  fits : ∀ id query, measured.run.state.queriesActive.get? id = some query →
    Fits query (measured.measures id)

variable {measured : MeasuredRun V} {queryId : ℕ}
  {next : QueryExecutionState V → QueryExecutionState V} {measures : ℕ → QueryMeasure}
  {state : ConnectionState V}

variable {query : QueryExecutionState V}

/-- What is not measured may change. -/
theorem Fits.congr {query' : QueryExecutionState V} {measure : QueryMeasure}
    (h : Fits query measure)
    (hstarted : query'.metrics.queryRunningStartedAt = query.metrics.queryRunningStartedAt)
    (hstream : query'.metrics.streamMetrics = query.metrics.streamMetrics) : Fits query' measure :=
  ⟨hstarted.trans h.startedAt, hstream.trans h.streamMetrics⟩

theorem measured_initial : (initial : MeasuredRun V).Measured where
  accounted := QueryRun.accounted_initial
  fits _ _ hget := absurd hget (by simp [initial, QueryRun.initial, createConnectionState])

theorem fits_updateActive
    (hid : ∀ id query, state.queriesActive.get? id = some query → query.queryId = id)
    (hfits : ∀ id query, state.queriesActive.get? id = some query → Fits query (measures id))
    {measure : QueryMeasure}
    (hnext : ∀ query, Fits query (measures queryId) → Fits (next query) measure) {id : ℕ}
    (hget : (state.updateActive queryId next).queriesActive.get? id = some query) :
    Fits query (Function.update measures queryId measure id) := by
  unfold ConnectionState.updateActive at hget
  cases hactive : state.queriesActive.get? queryId with
  | none =>
    rw [hactive] at hget
    have hne : id ≠ queryId := by
      intro heq
      rw [heq] at hget
      rw [hactive] at hget
      cases hget
    rw [update_of_ne hne]
    exact hfits id query hget
  | some active =>
    rw [hactive] at hget
    change (state.queriesActive.set active.queryId (next active)).get? id = some query at hget
    rw [hid queryId active hactive, get?_set] at hget
    by_cases heq : id = queryId
    · rw [if_pos heq] at hget
      rw [heq, update_self, ← some.inj hget]
      exact hnext active (hfits queryId active hactive)
    · rw [if_neg heq] at hget
      rw [update_of_ne heq]
      exact hfits id query hget

theorem fits_updateCached
    (hfits : ∀ id query, state.queriesActive.get? id = some query → Fits query (measures id))
    (hnext : ∀ query measure, Fits query measure → Fits (next query) measure) {id : ℕ}
    (hget : (state.updateCached queryId next).queriesActive.get? id = some query) :
    Fits query (measures id) := by
  unfold ConnectionState.updateCached at hget
  split_ifs at hget with hactive
  · change (state.queriesActive.modify queryId next).get? id = some query at hget
    rw [get?_modify] at hget
    split_ifs at hget with heq
    · obtain ⟨found, hfound, rfl⟩ := map_eq_some_iff.mp hget
      rw [heq]
      exact hnext found _ (hfits queryId found hfound)
    · exact hfits id query hget
  · exact hfits id query hget

theorem fits_finishActive {merge : QueryMetrics → ConnectionMetrics → ConnectionMetrics}
    (hfits : ∀ id query, state.queriesActive.get? id = some query → Fits query (measures id))
    {id : ℕ} (hget : (state.finishActive queryId next merge).queriesActive.get? id = some query) :
    Fits query (measures id) := by
  unfold ConnectionState.finishActive at hget
  cases hactive : state.queriesActive.get? queryId with
  | none =>
    rw [hactive] at hget
    exact hfits id query hget
  | some active =>
    rw [hactive] at hget
    change (state.queriesActive.delete active.queryId).get? id = some query at hget
    rw [get?_delete] at hget
    split_ifs at hget
    exact hfits id query hget

/-- An active query may be changed where its measure says nothing. -/
theorem fits_updateActive_of_kept
    (hid : ∀ id query, state.queriesActive.get? id = some query → query.queryId = id)
    (hfits : ∀ id query, state.queriesActive.get? id = some query → Fits query (measures id))
    (hnext : ∀ query measure, Fits query measure → Fits (next query) measure) {id : ℕ}
    (hget : (state.updateActive queryId next).queriesActive.get? id = some query) :
    Fits query (measures id) := by
  have hupdated := fits_updateActive hid hfits (hnext · (measures queryId)) hget
  rwa [update_eq_self] at hupdated

theorem fits_progressUpdated {now : ℤ} {progress : QueryExecutionProgress} {measure : QueryMeasure}
    (h : Fits query measure) : Fits (progressUpdated now progress query) measure := by
  unfold progressUpdated
  dsimp only
  split_ifs <;> exact h.congr rfl rfl

/-- Every action keeps the active queries to their measures. -/
theorem measured_step (action : ConnectionAction V) (h : measured.Measured)
    (hfresh : Fresh action measured) : (step action measured).Measured where
  accounted := QueryRun.accounted_step action h.accounted hfresh.1
  fits id query hget := by
    have hid := h.accounted.queryId
    have hfits := h.fits
    cases action with
    | resetConnection => exact absurd hget (by simp [step, QueryRun.step,
        ConnectionAction.reduce, resetConnection])
    | query now action =>
      cases action with
      | executeQuery queryId initialState =>
        change (measured.run.state.queriesActive.set queryId initialState).get? id =
          some query at hget
        change Fits query (Function.update measured.measures queryId _ id)
        rw [get?_set] at hget
        by_cases heq : id = queryId
        · rw [if_pos heq] at hget
          rw [heq, update_self, ← some.inj hget]
          exact ⟨hfresh.2 (queryId, initialState) mem_cons_self, rfl⟩
        · rw [if_neg heq] at hget
          rw [update_of_ne heq]
          exact hfits id query hget
      | queryRunning queryId stream =>
        refine fits_updateActive hid hfits ?_ hget
        exact fun query hfit => ⟨rfl, hfit.streamMetrics⟩
      | queryReceivedBatch queryId batch metrics =>
        refine fits_updateActive hid hfits ?_ hget
        exact fun query hfit => ⟨hfit.startedAt, rfl⟩
      | queryPreparing queryId =>
        refine fits_updateActive_of_kept hid hfits ?_ hget
        exact fun _ _ hfit => hfit.congr rfl rfl
      | querySending queryId =>
        refine fits_updateActive_of_kept hid hfits ?_ hget
        exact fun _ _ hfit => hfit.congr rfl rfl
      | queryProgressUpdated queryId progress =>
        refine fits_updateActive_of_kept hid hfits ?_ hget
        exact fun _ _ hfit => fits_progressUpdated hfit
      | queryReceivedAllBatches queryId table metadata metrics =>
        refine fits_updateActive_of_kept hid hfits ?_ hget
        exact fun _ _ hfit => hfit.congr rfl rfl
      | queryProcessingResults queryId =>
        refine fits_updateActive_of_kept hid hfits ?_ hget
        exact fun _ _ hfit => hfit.congr rfl rfl
      | queryProcessedResults queryId =>
        refine fits_updateActive_of_kept hid hfits ?_ hget
        exact fun _ _ hfit => hfit.congr rfl rfl
      | querySucceeded queryId => exact fits_finishActive hfits hget
      | queryFailed queryId error metrics => exact fits_finishActive hfits hget
      | queryCancelled queryId error metrics => exact fits_finishActive hfits hget
      | queryCacheRecorded queryId cacheKey servedFromCache cachedAtMs =>
        refine fits_updateCached hfits ?_ hget
        exact fun _ _ hfit => hfit.congr rfl rfl
      | queryCacheDeleted queryId =>
        refine fits_updateCached hfits ?_ hget
        exact fun _ _ hfit => hfit.congr rfl rfl

/-! ## Totals -/

section Totals

variable {status : QueryExecutionStatus} {ended : List EndedQuery} {last : EndedQuery}

theorem totalOf_concat_of_ne (h : last.status ≠ status) :
    totalOf status (ended ++ [last]) = totalOf status ended := by
  unfold totalOf
  rw [filter_append, filter_cons_of_neg (by simpa using h), filter_nil, append_nil]

/-- Merging the metrics of a query adds them to the sums. -/
theorem totalOf_concat (h : last.status = status) {metrics : QueryMetrics}
    (hstream : metrics.streamMetrics = last.streamMetrics)
    (hduration : metrics.queryDurationMs = some last.durationMs) :
    totalOf status (ended ++ [last]) = mergeQueryMetrics (totalOf status ended) metrics := by
  unfold totalOf mergeQueryMetrics
  rw [filter_append, filter_cons_of_pos (by simpa using h), filter_nil, hstream, hduration]
  simp

end Totals

/-! ## What ends -/

/-- Which totals an outcome is merged into. -/
def mergeOf : QueryExecutionStatus → QueryMetrics → ConnectionMetrics → ConnectionMetrics
  | .succeeded => mergeSuccessful
  | .cancelled => mergeCanceled
  | .failed => mergeFailed
  | _ => fun _ metrics => metrics

theorem mergeOf_totals {status : QueryExecutionStatus} (hdone : queryIsDone status)
    {ended : List EndedQuery} {last : EndedQuery} (hstatus : last.status = status)
    {metrics : QueryMetrics} (hstream : metrics.streamMetrics = last.streamMetrics)
    (hduration : metrics.queryDurationMs = some last.durationMs) :
    mergeOf status metrics (totals ended) = totals (ended ++ [last]) := by
  have hother : ∀ other, status ≠ other → totalOf other (ended ++ [last]) = totalOf other ended :=
    fun other hne => totalOf_concat_of_ne (hstatus.trans_ne hne)
  have hsame := @totalOf_concat _ ended _ hstatus _ hstream hduration
  unfold totals
  cases status with
  | succeeded =>
    rw [hsame, hother .cancelled (by decide), hother .failed (by decide)]
    rfl
  | failed =>
    rw [hsame, hother .succeeded (by decide), hother .cancelled (by decide)]
    rfl
  | cancelled =>
    rw [hsame, hother .succeeded (by decide), hother .failed (by decide)]
    rfl
  | _ => cases hdone

/-! ## Exact steps -/

/-- What the account is compared with, of a finished query. -/
def view (query : QueryExecutionState V) : QueryExecutionStatus × QueryMetrics :=
  (query.status, query.metrics)

theorem Exact.congr {measured' : MeasuredRun V} (h : measured.Exact)
    (hended : measured'.ended = measured.ended)
    (hmetrics : measured'.run.state.metrics = measured.run.state.metrics)
    (hview : ∀ id, (measured'.run.state.queriesFinished.get? id).map view =
      (measured.run.state.queriesFinished.get? id).map view) : measured'.Exact where
  accounted id hid := by
    obtain ⟨query', hget'⟩ := mem_keys_iff.mp hid
    have hfound := hview id
    rw [hget', map_some, eq_comm, map_eq_some_iff] at hfound
    obtain ⟨query, hget, -⟩ := hfound
    rw [hended]
    exact h.accounted id (mem_keys_iff.mpr ⟨query, hget⟩)
  finished ended hmem := by
    rw [hended] at hmem
    obtain ⟨query, hget, hstatus, hstream, hduration⟩ := h.finished ended hmem
    have hfound := hview ended.queryId
    rw [hget, map_some, map_eq_some_iff] at hfound
    obtain ⟨query', hget', heq⟩ := hfound
    obtain ⟨hstatus', hmetrics'⟩ := Prod.mk.inj heq
    exact ⟨query', hget', hstatus'.trans hstatus, by rw [hmetrics']; exact hstream,
      by rw [hmetrics']; exact hduration⟩
  metrics := by rw [hmetrics, hended, h.metrics]

theorem exact_congr {measured' : MeasuredRun V} (hended : measured'.ended = measured.ended)
    (hmetrics : measured'.run.state.metrics = measured.run.state.metrics)
    (hview : ∀ id, (measured'.run.state.queriesFinished.get? id).map view =
      (measured.run.state.queriesFinished.get? id).map view) :
    measured'.Exact ↔ measured.Exact :=
  ⟨fun h => h.congr hended.symm hmetrics.symm fun id => (hview id).symm,
    fun h => h.congr hended hmetrics hview⟩

theorem exact_finish_iff (h : measured.Measured) (hexact : measured.Exact)
    (hquery : measured.run.state.queriesActive.get? queryId = some query)
    {status : QueryExecutionStatus} (hdone : queryIsDone status) {last : EndedQuery}
    (hid : last.queryId = queryId) (hstatus : last.status = status)
    (hnext : (next query).status = status)
    (hstream : (next query).metrics.streamMetrics = last.streamMetrics) :
    (MeasuredRun.mk (measured.run.finish queryId next (mergeOf status) status) measures
      (measured.ended ++ [last])).Exact ↔
    (next query).metrics.queryDurationMs = some last.durationMs := by
  rw [QueryRun.finish_of_get? h.accounted hquery]
  constructor
  · intro hexact'
    obtain ⟨query', hget, -, -, hduration⟩ :=
      hexact'.finished last (mem_append_right _ mem_cons_self)
    change (measured.run.state.queriesFinished.set queryId (next query)).get? last.queryId =
      some query' at hget
    rw [hid, get?_set_self] at hget
    rw [some.inj hget]
    exact hduration
  · intro hduration
    -- an active query has not finished yet
    have hunfinished : queryId ∉ measured.run.state.queriesFinished.keys := by
      intro hmem
      have hactive := h.accounted.activeListed queryId (mem_keys_iff.mpr ⟨_, hquery⟩)
      exact h.accounted.disjoint queryId hactive (h.accounted.finishedListed queryId hmem)
    refine ⟨?_, ?_, ?_⟩
    · intro id hmem
      rcases InsertionMap.mem_keys_set.mp hmem with heq | hmem
      · exact ⟨last, mem_append_right _ mem_cons_self, hid.trans heq.symm⟩
      · obtain ⟨ended, hended, heq⟩ := hexact.accounted id hmem
        exact ⟨ended, mem_append_left _ hended, heq⟩
    · intro ended hmem
      rcases mem_append.mp hmem with hmem | hmem
      · obtain ⟨found, hget, hfound⟩ := hexact.finished ended hmem
        refine ⟨found, ?_, hfound⟩
        have hne : ended.queryId ≠ queryId := by
          intro heq
          rw [heq] at hget
          exact hunfinished (mem_keys_iff.mpr ⟨_, hget⟩)
        exact (InsertionMap.get?_set_of_ne hne).trans hget
      · rw [mem_singleton.mp hmem]
        refine ⟨next query, ?_, hnext.trans hstatus.symm, hstream, hduration⟩
        rw [hid]
        exact get?_set_self
    · show mergeOf status (next query).metrics measured.run.state.metrics =
        totals (measured.ended ++ [last])
      rw [hexact.metrics]
      exact mergeOf_totals hdone hstatus hstream hduration

theorem finish_of_not_active {merge : QueryMetrics → ConnectionMetrics → ConnectionMetrics}
    {status : QueryExecutionStatus} (h : queryId ∉ measured.run.state.queriesActive.keys) :
    (MeasuredRun.mk (measured.run.finish queryId next merge status) measures
      (measured.ended ++ [])).Exact ↔ measured.Exact := by
  rw [QueryRun.finish_of_not_mem h, append_nil]
  exact exact_congr rfl rfl fun _ => rfl

/-! ## Durations -/

section Duration

variable {measure : QueryMeasure} {now : ℤ}

theorem duration_succeeded :
    some (now - measure.startedAt.getD now) = some (measure.duration now) := by
  unfold QueryMeasure.duration
  cases measure.startedAt with
  | none => simp
  | some startedAt => rfl

theorem duration_failed_iff : some (measure.startedAt.getD now) = some (measure.duration now) ↔
    now = 2 * measure.startedAt.getD 0 := by
  unfold QueryMeasure.duration
  cases measure.startedAt with
  | none => simp
  | some startedAt =>
    simp only [getD_some, some.injEq]
    omega

end Duration

/-! ## Steps -/

theorem metrics_updateActive :
    (state.updateActive queryId next).metrics = state.metrics ∧
      (state.updateActive queryId next).queriesFinished = state.queriesFinished := by
  unfold ConnectionState.updateActive
  cases state.queriesActive.get? queryId with
  | none => exact ⟨rfl, rfl⟩
  | some query => exact ⟨rfl, rfl⟩

theorem metrics_updateCached (hnext : ∀ query, view (next query) = view query) :
    (state.updateCached queryId next).metrics = state.metrics ∧
      ∀ id, ((state.updateCached queryId next).queriesFinished.get? id).map view =
        (state.queriesFinished.get? id).map view := by
  unfold ConnectionState.updateCached
  split_ifs with hactive
  · exact ⟨rfl, fun _ => rfl⟩
  · refine ⟨rfl, fun id => ?_⟩
    show ((state.queriesFinished.modify queryId next).get? id).map view = _
    rw [get?_modify]
    split_ifs with heq
    · rw [heq, Option.map_map]
      congr 1
      funext query
      exact hnext query
    · rfl

variable {now : ℤ} {action : QueryExecutionAction V}

theorem exact_step_of_kept (hexact : measured.Exact) (hfinishes : action.finishes = none)
    (hmetrics : (reduceQueryAction now action measured.run.state).metrics =
      measured.run.state.metrics)
    (hview : ∀ id, ((reduceQueryAction now action measured.run.state).queriesFinished.get? id).map
      view = (measured.run.state.queriesFinished.get? id).map view) :
    (step (.query now action) measured).Exact ↔ EndsAtTwice (.query now action) measured := by
  have hnone : endings (.query now action) measured = [] := by
    unfold endings
    simp only [hfinishes]
  have hended : (step (.query now action) measured).ended = measured.ended := by
    show measured.ended ++ endings (.query now action) measured = _
    rw [hnone, append_nil]
  have htwice : EndsAtTwice (.query now action) measured := by
    intro status hstatus
    rw [hfinishes] at hstatus
    cases hstatus
  exact iff_of_true (hexact.congr hended hmetrics hview) htwice

theorem exact_step_of_active (hexact : measured.Exact) (hfinishes : action.finishes = none)
    (hreduce : reduceQueryAction now action measured.run.state =
      measured.run.state.updateActive queryId next) :
    (step (.query now action) measured).Exact ↔ EndsAtTwice (.query now action) measured := by
  apply exact_step_of_kept hexact hfinishes
  · rw [hreduce]
    exact metrics_updateActive.1
  · intro id
    rw [hreduce, metrics_updateActive.2]

theorem exact_step_of_cached (hexact : measured.Exact) (hfinishes : action.finishes = none)
    (hreduce : reduceQueryAction now action measured.run.state =
      measured.run.state.updateCached queryId next)
    (hnext : ∀ query, view (next query) = view query) :
    (step (.query now action) measured).Exact ↔ EndsAtTwice (.query now action) measured := by
  apply exact_step_of_kept hexact hfinishes
  · rw [hreduce]
    exact (metrics_updateCached hnext).1
  · intro id
    rw [hreduce]
    exact (metrics_updateCached hnext).2 id

theorem exact_step_of_finishes (h : measured.Measured) (hexact : measured.Exact)
    (hexecutes : ConnectionAction.executes (.query now action) = [])
    {status : QueryExecutionStatus} (hfinishes : action.finishes = some status)
    (hdone : queryIsDone status) (hreduce : reduceQueryAction now action measured.run.state =
      measured.run.state.finishActive action.queryId next (mergeOf status))
    (hnext : ∀ query, (next query).status = status)
    (hstream : ∀ query, (next query).metrics.streamMetrics =
      action.terminalMetrics.getD query.metrics.streamMetrics)
    (hduration : ∀ query measure, Fits query measure →
      ((next query).metrics.queryDurationMs = some (measure.duration now) ↔
        (status ≠ .succeeded → now = 2 * measure.startedAt.getD 0))) :
    (step (.query now action) measured).Exact ↔ EndsAtTwice (.query now action) measured := by
  have hrun : QueryRun.step (.query now action) measured.run =
      measured.run.finish action.queryId next (mergeOf status) status :=
    QueryRun.step_of_finishes hexecutes hfinishes hreduce
  have htwice : EndsAtTwice (.query now action) measured ↔ (status ≠ .succeeded →
      action.queryId ∈ measured.run.state.queriesActive.keys →
      now = 2 * (measured.measures action.queryId).startedAt.getD 0) := by
    unfold EndsAtTwice
    simp only [hfinishes, mem_some_iff, forall_eq']
  rw [htwice]
  by_cases hactive : action.queryId ∈ measured.run.state.queriesActive.keys
  · obtain ⟨query, hquery⟩ := mem_keys_iff.mp hactive
    have hfit := h.fits _ query hquery
    have hendings : endings (.query now action) measured =
        [action.ending now status (measured.measures action.queryId)] := by
      unfold endings
      simp only [hfinishes, if_pos hactive]
    have hstep : step (.query now action) measured =
        ⟨measured.run.finish action.queryId next (mergeOf status) status,
          action.measure now measured.measures,
          measured.ended ++ [action.ending now status (measured.measures action.queryId)]⟩ := by
      rw [← hrun, ← hendings]
      rfl
    have hstream' : (next query).metrics.streamMetrics =
        (action.ending now status (measured.measures action.queryId)).streamMetrics := by
      rw [hstream, hfit.streamMetrics]
      rfl
    rw [hstep, exact_finish_iff h hexact hquery hdone rfl rfl (hnext query) hstream']
    simp only [hactive, true_imp_iff]
    exact hduration query _ hfit
  · have hendings : endings (.query now action) measured = [] := by
      unfold endings
      simp only [hfinishes, if_neg hactive]
    have hstep : step (.query now action) measured =
        ⟨measured.run.finish action.queryId next (mergeOf status) status,
          action.measure now measured.measures, measured.ended ++ []⟩ := by
      rw [← hrun, ← hendings]
      rfl
    rw [hstep, finish_of_not_active hactive]
    exact iff_of_true hexact fun _ hmem => absurd hmem hactive

theorem exact_step_iff (action : ConnectionAction V) (h : measured.Measured)
    (hexact : measured.Exact) : (step action measured).Exact ↔ EndsAtTwice action measured := by
  cases action with
  | resetConnection =>
    refine iff_of_true ⟨?_, ?_, rfl⟩ trivial
    · exact fun id hmem => absurd hmem not_mem_nil
    · exact fun ended hmem => absurd hmem not_mem_nil
  | query now action =>
    cases action with
    | executeQuery queryId query => exact exact_step_of_kept hexact rfl rfl fun _ => rfl
    | queryPreparing queryId => exact exact_step_of_active hexact rfl rfl
    | querySending queryId => exact exact_step_of_active hexact rfl rfl
    | queryRunning queryId stream => exact exact_step_of_active hexact rfl rfl
    | queryProgressUpdated queryId progress => exact exact_step_of_active hexact rfl rfl
    | queryReceivedBatch queryId batch metrics => exact exact_step_of_active hexact rfl rfl
    | queryReceivedAllBatches queryId table metadata metrics =>
      exact exact_step_of_active hexact rfl rfl
    | queryProcessingResults queryId => exact exact_step_of_active hexact rfl rfl
    | queryProcessedResults queryId => exact exact_step_of_active hexact rfl rfl
    | querySucceeded queryId =>
      refine exact_step_of_finishes h hexact rfl rfl rfl rfl
        (fun _ => rfl) (fun _ => rfl) fun query measure hfit => ?_
      have hduration := @duration_succeeded measure now
      rw [← hfit.startedAt] at hduration
      exact iff_of_true hduration fun hne => absurd rfl hne
    | queryFailed queryId error metrics =>
      refine exact_step_of_finishes h hexact rfl rfl rfl rfl
        (fun _ => rfl) (fun _ => rfl) fun query measure hfit => ?_
      have hduration := @duration_failed_iff measure now
      rw [← hfit.startedAt] at hduration ⊢
      exact hduration.trans ⟨fun htime _ => htime, fun htime => htime QueryExecutionStatus.noConfusion⟩
    | queryCancelled queryId error metrics =>
      refine exact_step_of_finishes h hexact rfl rfl rfl rfl
        (fun _ => rfl) (fun _ => rfl) fun query measure hfit => ?_
      have hduration := @duration_failed_iff measure now
      rw [← hfit.startedAt] at hduration ⊢
      exact hduration.trans ⟨fun htime _ => htime, fun htime => htime QueryExecutionStatus.noConfusion⟩
    | queryCacheRecorded queryId cacheKey servedFromCache cachedAtMs =>
      exact exact_step_of_cached hexact rfl rfl fun _ => rfl
    | queryCacheDeleted queryId => exact exact_step_of_cached hexact rfl rfl fun _ => rfl

/-! ## Runs -/

theorem exact_initial : (initial : MeasuredRun V).Exact where
  accounted _ hmem := absurd hmem not_mem_nil
  finished _ hmem := absurd hmem not_mem_nil
  metrics := rfl

/-- In a run where ids are never used twice, the durations and the totals are exact in all states
exactly if queries fail and are cancelled only at twice the time at which they were set running. -/
theorem exact_of_run_iff {actions : List (ConnectionAction V)}
    (hfresh : ReplayMeets step Fresh actions (initial : MeasuredRun V)) :
    (∀ front back, actions = front ++ back →
      (replay step front (initial : MeasuredRun V)).Exact) ↔
      ReplayMeets step EndsAtTwice actions (initial : MeasuredRun V) :=
  replay_invariant_iff_of_allowed Measured Exact (fun action _ => measured_step action)
    (fun action _ h _ => exact_step_iff action h) hfresh measured_initial exact_initial

/-- A query that is sent, runs and succeeds. -/
theorem exact_of_run_iff_succeeded :
    (∀ front back, [ConnectionAction.query 10 (.executeQuery 1 (QueryRun.requested 1)),
        .query 15 (.queryRunning 1 ()), .query 40 (.querySucceeded 1)] = front ++ back →
      (replay step front (initial : MeasuredRun QueryRun.unitValues)).Exact) ↔
      ReplayMeets step EndsAtTwice [.query 10 (.executeQuery 1 (QueryRun.requested 1)),
        .query 15 (.queryRunning 1 ()), .query 40 (.querySucceeded 1)]
        (initial : MeasuredRun QueryRun.unitValues) :=
  exact_of_run_iff (by decide)

/-- A query that runs for five milliseconds before it fails is said to have taken fifteen. -/
theorem failed_duration_inexact :
    ¬ (replay step [.query 10 (.executeQuery 1 (QueryRun.requested 1)),
        .query 15 (.queryRunning 1 ()), .query 20 (.queryFailed 1 () none)]
      (initial : MeasuredRun QueryRun.unitValues)).Exact := by
  intro hexact
  have htotal := congrArg (fun metrics => metrics.failedQueries.accumulatedQueryDuration)
    hexact.metrics
  exact absurd htotal (by decide)

end MeasuredRun

end DashQL.Connection
