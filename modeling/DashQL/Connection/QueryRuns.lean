import DashQL.Connection.QueryExecutor

/-!
# Runs of the query executor

What a query comes to without the cache is said in terms of what the backend, the
processing of the result and the user do (`QueryOutcomes.ending`).  The parts of a run
after the read of the cache come to it: the query on the backend (`queryBackend_run`)
and what follows when there is a result (`finishQuery_ends`).
-/

namespace DashQL.Connection

open List

open Traced

variable {V : QueryValues} {library : QueryLibrary V}

/-! ## Traces of the executor -/

def ExecutorEvent.action? : ExecutorEvent V → Option (QueryExecutionAction V)
  | .dispatched action => some action
  | _ => none

def dispatchedActions (trace : List (ExecutorEvent V)) : List (QueryExecutionAction V) :=
  trace.filterMap ExecutorEvent.action?

namespace QueryExecutionAction

def starts : QueryExecutionAction V → Bool
  | executeQuery _ _ => true
  | _ => false

def bookkeeping : QueryExecutionAction V → Bool
  | queryCacheRecorded _ _ _ _ => true
  | queryCacheDeleted _ => true
  | _ => false

/-- An action between the start of a query and its end. -/
def inner (action : QueryExecutionAction V) : Bool := action.finishes.isNone && !action.starts

end QueryExecutionAction

/-- Only actions between the start of a query and its end are dispatched. -/
def Inner (trace : List (ExecutorEvent V)) : Prop :=
  ∀ action ∈ dispatchedActions trace, action.inner = true

theorem dispatchedActions_append (trace later : List (ExecutorEvent V)) :
    dispatchedActions (trace ++ later) = dispatchedActions trace ++ dispatchedActions later :=
  filterMap_append

theorem inner_nil : Inner ([] : List (ExecutorEvent V)) :=
  fun _ hmem => (not_mem_nil hmem).elim

variable {trace : List (ExecutorEvent V)}

theorem Inner.append {later : List (ExecutorEvent V)} (h : Inner trace) (hlater : Inner later) :
    Inner (trace ++ later) := by
  intro action haction
  rw [dispatchedActions_append] at haction
  rcases mem_append.mp haction with hleft | hright
  · exact h action hleft
  · exact hlater action hright

theorem inner_dispatched {action : QueryExecutionAction V} (h : action.inner = true) :
    Inner [.dispatched action] := by
  intro found hfound
  rw [mem_singleton.mp hfound]
  exact h

def Quiet (trace : List (ExecutorEvent V)) : Prop := ∀ event ∈ trace, event ≠ .contacted

theorem quiet_nil : Quiet ([] : List (ExecutorEvent V)) :=
  fun _ hmem => (not_mem_nil hmem).elim

theorem Quiet.append {later : List (ExecutorEvent V)} (h : Quiet trace) (hlater : Quiet later) :
    Quiet (trace ++ later) := by
  intro event hevent
  rcases mem_append.mp hevent with hleft | hright
  · exact h event hleft
  · exact hlater event hright

theorem quiet_singleton {event : ExecutorEvent V} (h : event ≠ .contacted) : Quiet [event] := by
  intro found hfound
  rw [mem_singleton.mp hfound]
  exact h

theorem quiet_dispatched (action : QueryExecutionAction V) : Quiet [.dispatched action] :=
  quiet_singleton (fun h => by cases h)

theorem delivery_inner (queryId : ℕ) (delivery : Delivery V) :
    (delivery.action queryId).inner = true ∧ (delivery.action queryId).bookkeeping = false := by
  cases delivery <;> exact ⟨rfl, rfl⟩

def deliveries (queryId : ℕ) (delivered : List (Delivery V)) : List (ExecutorEvent V) :=
  delivered.map fun delivery => .dispatched (delivery.action queryId)

theorem dispatched_deliveries (queryId : ℕ) (delivered : List (Delivery V)) :
    dispatchedActions (deliveries queryId delivered) = delivered.map (Delivery.action queryId) := by
  induction delivered with
  | nil => rfl
  | cons delivery delivered ih => exact congrArg (delivery.action queryId :: ·) ih

theorem inner_deliveries (queryId : ℕ) (delivered : List (Delivery V)) :
    Inner (deliveries queryId delivered) := by
  intro action haction
  rw [dispatched_deliveries] at haction
  obtain ⟨delivery, -, rfl⟩ := mem_map.mp haction
  exact (delivery_inner queryId delivery).1

theorem quiet_deliveries (queryId : ℕ) (delivered : List (Delivery V)) :
    Quiet (deliveries queryId delivered) := by
  intro event hevent
  obtain ⟨delivery, -, rfl⟩ := mem_map.mp hevent
  intro h
  cases h

/-! ## What a query comes to -/

/-- What the promise and the last actions of a query say: its final status, and the table that the
promise resolves with, if it resolves. -/
abbrev Ending (V : QueryValues) : Type := QueryExecutionStatus × Option (Option V.Table)

/-- The table that a stream ends with, or what is thrown after which `await`. -/
def StreamRun.result (library : QueryLibrary V) (run : StreamRun V) :
    Except (V.LoggableException × ℕ) V.Table :=
  match run.produce with
  | .error e => .error (e, 3)
  | .ok () =>
    match run.produced.filterMap Delivery.batch? with
    | batch :: rest => .ok (library.newTable (V.schema batch) (batch :: rest))
    | [] =>
      match run.getSchema with
      | .error e => .error (e, 4)
      | .ok schema => .ok (library.newTable (schema.getD library.newSchema)
          (run.whileSchema.filterMap Delivery.batch?))

namespace QueryOutcomes

variable (outcomes : QueryOutcomes library) (args : QueryExecutionArgs)

/-- The stream of the backend, if it returns one. -/
def stream : Option (StreamRun V) :=
  match outcomes.connect with
  | .ok run => run
  | .error _ => none

/-- The table that the backend gives, if any, or what is thrown after which `await`. -/
def live : Except (V.LoggableException × ℕ) (Option V.Table) :=
  match outcomes.connect with
  | .error e => .error (e, 2)
  | .ok none => .ok none
  | .ok (some run) => (run.result library).map some

/-- The status of a query that is thrown out of before it has a result. -/
def thrown (e : V.LoggableException) (awaited : ℕ) : QueryExecutionStatus :=
  if outcomes.abortedAfter awaited || library.namesAbort e || library.saysAbort e then .cancelled
  else .failed

/-- What a query with a table comes to, by its processing. -/
def processed (table : V.Table) : Ending V :=
  if args.analyzeResults then
    match outcomes.analyze with
    | .ok () =>
      if outcomes.abortedAfter 5 then (.cancelled, some none) else (.succeeded, some (some table))
    | .error e =>
      if outcomes.abortedAfter 5 || library.namesAbort e then (.cancelled, some none)
      else (.failed, none)
  else (.succeeded, some (some table))

/-- What a query comes to without the cache. -/
def ending : Ending V :=
  match outcomes.live with
  | .error e => (outcomes.thrown e.1 e.2, some none)
  | .ok none => (.succeeded, some none)
  | .ok (some table) => outcomes.processed args table

end QueryOutcomes

/-! ## Runs of the parts -/

section Parts

variable {outcomes : QueryOutcomes library} {queryId : ℕ} {args : QueryExecutionArgs} {α : Type}

theorem await_run (number : ℕ) (answer : Except V.LoggableException α) (state : ExecutorState V) :
    await number answer state = ([], answer, { state with awaited := number }) := by
  cases answer <;> rfl

theorem deliver_run (delivered : List (Delivery V)) (state : ExecutorState V) :
    deliver queryId delivered state = (deliveries queryId delivered, .ok (), state) := by
  induction delivered with
  | nil => rfl
  | cons delivery delivered ih => exact bind_run (emit_run _ _) ih

theorem resultSchema_run (run : StreamRun V) (state : ExecutorState V)
    (hproduce : run.produce = .ok ()) :
    ∃ trace awaited result, resultSchema queryId library run { state with awaited := 3 } =
        (trace, result, { state with awaited := awaited }) ∧ Inner trace ∧
      ((∃ e, result = .error e ∧ run.result library = .error (e, awaited)) ∨
        ∃ received, result = .ok received ∧
          run.result library = .ok (library.newTable received.1 received.2)) := by
  unfold resultSchema StreamRun.result
  rw [hproduce]
  cases hbatches : run.produced.filterMap Delivery.batch? with
  | cons batch rest => exact ⟨_, 3, _, pure_run _ _, inner_nil, .inr ⟨_, rfl, rfl⟩⟩
  | nil =>
    cases hschema : run.getSchema with
    | error e =>
      exact ⟨_, 4, _, bind_run (deliver_run _ _) (bind_run_error (await_run _ _ _)),
        (inner_deliveries _ _).append inner_nil, .inl ⟨e, rfl, rfl⟩⟩
    | ok schema =>
      exact ⟨_, 4, _, bind_run (deliver_run _ _) (bind_run (await_run _ _ _) (pure_run _ _)),
        (inner_deliveries _ _).append (inner_nil.append inner_nil), .inr ⟨_, rfl, rfl⟩⟩

theorem consumeStream_run (library : QueryLibrary V) (run : StreamRun V) (state : ExecutorState V) :
    ∃ trace awaited, consumeStream queryId library run state =
        (trace, (run.result library).mapError Prod.fst, ⟨awaited, some run⟩) ∧
      Inner trace ∧ ∀ e number, run.result library = .error (e, number) → awaited = number := by
  have hrunning : Inner [ExecutorEvent.dispatched (.queryRunning queryId run.stream)] :=
    inner_dispatched rfl
  unfold consumeStream
  cases hproduce : run.produce with
  | error e =>
    have hresult : run.result library = .error (e, 3) := by
      unfold StreamRun.result
      rw [hproduce]
    rw [hresult]
    refine ⟨_, 3, bind_run rfl (bind_run (emit_run _ _) (bind_run (deliver_run _ _)
      (bind_run_error (await_run _ _ _)))),
      inner_nil.append (hrunning.append ((inner_deliveries _ _).append inner_nil)), ?_⟩
    intro e' number heq
    exact (Prod.mk.inj (Except.error.inj heq)).2
  | ok produced =>
    obtain ⟨trace, awaited, result, hschema, hinner, hresult⟩ :=
      @resultSchema_run V library queryId run ⟨state.awaited, some run⟩ hproduce
    rcases hresult with ⟨e, rfl, hresult⟩ | ⟨received, rfl, hresult⟩
    · rw [hresult]
      refine ⟨_, awaited, bind_run rfl (bind_run (emit_run _ _) (bind_run (deliver_run _ _)
        (bind_run (await_run _ _ _) (bind_run_error hschema)))), ?_, ?_⟩
      · exact inner_nil.append (hrunning.append ((inner_deliveries _ _).append
          (inner_nil.append hinner)))
      · intro e' number heq
        exact (Prod.mk.inj (Except.error.inj heq)).2
    · rw [hresult]
      refine ⟨_, awaited, bind_run rfl (bind_run (emit_run _ _) (bind_run (deliver_run _ _)
        (bind_run (await_run _ _ _) (bind_run hschema (bind_run (emit_run _ _)
          (pure_run _ _)))))), ?_, ?_⟩
      · exact inner_nil.append (hrunning.append ((inner_deliveries _ _).append
          (inner_nil.append (hinner.append ((inner_dispatched rfl).append inner_nil)))))
      · intro e' number heq
        cases heq

/-- The backend's part of a run, which does not depend on how many awaits there were before. -/
theorem queryBackend_run (outcomes : QueryOutcomes library) (queryId : ℕ) :
    ∃ trace awaited, (∀ before, queryBackend outcomes queryId ⟨before, none⟩ =
        (trace, outcomes.live.mapError Prod.fst, ⟨awaited, outcomes.stream⟩)) ∧
      Inner trace ∧ ∀ e number, outcomes.live = .error (e, number) → awaited = number := by
  unfold QueryOutcomes.live QueryOutcomes.stream
  have hsending :
      Inner [ExecutorEvent.dispatched (.querySending queryId : QueryExecutionAction V)] :=
    inner_dispatched rfl
  have hcontacted : Inner [(.contacted : ExecutorEvent V)] := inner_nil
  unfold queryBackend
  cases hconnect : outcomes.connect with
  | error e =>
    refine ⟨_, _, fun before => bind_run (emit_run _ _) (bind_run (emit_run _ _)
      (bind_run_error (await_run _ _ _))), hsending.append (hcontacted.append inner_nil), ?_⟩
    intro e' number heq
    exact (Prod.mk.inj (Except.error.inj heq)).2
  | ok connected =>
    cases connected with
    | none =>
      refine ⟨_, _, fun before => bind_run (emit_run _ _) (bind_run (emit_run _ _)
        (bind_run (await_run _ _ _) (pure_run _ _))),
        hsending.append (hcontacted.append (inner_nil.append inner_nil)), ?_⟩
      intro e' number heq
      cases heq
    | some run =>
      dsimp only
      obtain ⟨trace, awaited, hconsume, hinner, hawaited⟩ :=
        @consumeStream_run V queryId library run ⟨2, none⟩
      cases hresult : run.result library with
      | error e =>
        rw [hresult] at hconsume
        refine ⟨_, awaited, fun before => bind_run (emit_run _ _) (bind_run (emit_run _ _)
          (bind_run (await_run _ _ _) (bind_run_error hconsume))),
          hsending.append (hcontacted.append (inner_nil.append hinner)), ?_⟩
        intro e' number heq
        obtain ⟨rfl, rfl⟩ := Prod.mk.inj (Except.error.inj heq)
        exact hawaited e.1 e.2 hresult
      | ok table =>
        rw [hresult] at hconsume
        refine ⟨_, awaited, fun before => bind_run (emit_run _ _) (bind_run (emit_run _ _)
          (bind_run (await_run _ _ _) (bind_run hconsume (pure_run _ _)))),
          hsending.append (hcontacted.append (inner_nil.append (hinner.append inner_nil))), ?_⟩
        intro e' number heq
        cases heq

theorem aborted_run (outcomes : QueryOutcomes library) (state : ExecutorState V) :
    aborted outcomes state = ([], .ok (outcomes.abortedAfter state.awaited), state) := rfl

theorem streamMetrics_run (state : ExecutorState V) :
    streamMetrics state = ([], .ok (state.resultStream.map StreamRun.metrics), state) := rfl

/-- A part of a run that ends the query with a status: actions of a running query, one that ends it,
and then records of what the cache has. -/
def Closes (status : QueryExecutionStatus) (trace : List (ExecutorEvent V)) : Prop :=
  ∃ middle terminal bookkeeping,
    dispatchedActions trace = middle ++ terminal :: bookkeeping ∧
      (∀ action ∈ middle, QueryExecutionAction.inner action = true) ∧
        QueryExecutionAction.finishes terminal = some status ∧
          ∀ action ∈ bookkeeping, QueryExecutionAction.bookkeeping action = true

theorem Closes.after {status : QueryExecutionStatus} {later : List (ExecutorEvent V)}
    (h : Closes status later) (htrace : Inner trace) : Closes status (trace ++ later) := by
  obtain ⟨middle, terminal, bookkeeping, hlater, hmiddle, hrest⟩ := h
  refine ⟨dispatchedActions trace ++ middle, terminal, bookkeeping, ?_, ?_, hrest⟩
  · rw [dispatchedActions_append, hlater, append_assoc]
  · intro action haction
    rcases mem_append.mp haction with hleft | hright
    · exact htrace action hleft
    · exact hmiddle action hright

theorem closes_dispatched {status : QueryExecutionStatus} {action : QueryExecutionAction V}
    (h : action.finishes = some status) : Closes status [.dispatched action] :=
  ⟨[], action, [], rfl, fun _ hmem => (not_mem_nil hmem).elim, h,
    fun _ hmem => (not_mem_nil hmem).elim⟩

/-- What a query comes to if a result that is not from the cache is encoded for it: a failure of the
encoding rejects the promise. -/
def Ending.saved (library : QueryLibrary V) (cacheHash : Option String) (servedFromCache : Bool) :
    Ending V → Ending V
  | (.succeeded, some (some table)) =>
    match servedFromCache, cacheHash, library.tableToIPC table with
    | false, some _, .error _ => (.succeeded, none)
    | _, _, _ => (.succeeded, some (some table))
  | ending => ending

def QueryOutcomes.processing (outcomes : QueryOutcomes library) : Except V.LoggableException Unit :=
  match outcomes.analyze with
  | .ok () => if outcomes.abortedAfter 5 then .error library.abortReason else .ok ()
  | .error e => .error e

theorem processResults_run (outcomes : QueryOutcomes library) (queryId : ℕ)
    (args : QueryExecutionArgs) (state : ExecutorState V) :
    ∃ trace, processResults outcomes queryId args state =
      (trace, outcomes.processing, { state with awaited := 5 }) ∧ Inner trace ∧ Quiet trace := by
  obtain ⟨deleted, hdeleted, hinner, hquiet⟩ : ∃ trace,
      deleteReplaced queryId args state = (trace, .ok (), state) ∧ Inner trace ∧ Quiet trace := by
    unfold deleteReplaced
    cases args.replaceComputationId with
    | none => exact ⟨_, pure_run _ _, inner_nil, quiet_nil⟩
    | some computationId =>
      dsimp only
      by_cases hsame : computationId = queryId
      · rw [if_pos hsame]
        exact ⟨_, pure_run _ _, inner_nil, quiet_nil⟩
      · rw [if_neg hsame]
        exact ⟨_, emit_run _ _, inner_nil, quiet_singleton (fun h => by cases h)⟩
  -- The events before the end of the analysis, and then `rest`.
  have hstart : ∀ {delivered : List (Delivery V)} {rest : List (ExecutorEvent V)},
      Inner rest → Inner (deleted ++ ([.dispatched (.queryProcessingResults queryId)] ++
        ([] ++ (deliveries queryId delivered ++ rest)))) := fun hrest =>
    hinner.append ((inner_dispatched rfl).append (inner_nil.append
      ((inner_deliveries _ _).append hrest)))
  have hsilent : ∀ {delivered : List (Delivery V)} {rest : List (ExecutorEvent V)},
      Quiet rest → Quiet (deleted ++ ([.dispatched (.queryProcessingResults queryId)] ++
        ([] ++ (deliveries queryId delivered ++ rest)))) := fun hrest =>
    hquiet.append ((quiet_dispatched _).append (quiet_nil.append
      ((quiet_deliveries _ _).append hrest)))
  unfold processResults QueryOutcomes.processing
  cases hanalyze : outcomes.analyze with
  | error e =>
    exact ⟨_, bind_run hdeleted (bind_run (emit_run _ _) (bind_run rfl (bind_run (deliver_run _ _)
      (bind_run_error (await_run _ _ _))))), hstart inner_nil, hsilent quiet_nil⟩
  | ok analyzed =>
    cases haborted : outcomes.abortedAfter 5 with
    | true =>
      exact ⟨_, bind_run hdeleted (bind_run (emit_run _ _) (bind_run rfl
        (bind_run (deliver_run _ _) (bind_run (await_run _ _ _)
          (bind_run (aborted_run _ _) (ite_run_pos haborted lift_run)))))),
        hstart inner_nil, hsilent quiet_nil⟩
    | false =>
      exact ⟨_, bind_run hdeleted (bind_run (emit_run _ _) (bind_run rfl
        (bind_run (deliver_run _ _) (bind_run (await_run _ _ _)
          (bind_run (aborted_run _ _) (ite_run_neg haborted (emit_run _ _))))))),
        hstart (inner_dispatched rfl), hsilent (quiet_dispatched _)⟩

/-- The first `catch` ends the query as failed or cancelled. -/
theorem catchQuery_run (outcomes : QueryOutcomes library) (queryId : ℕ) (e : V.LoggableException)
    (state : ExecutorState V) :
    ∃ trace, catchQuery outcomes queryId e state = (trace, .ok (), state) ∧
      Closes (outcomes.thrown e state.awaited) trace ∧ Quiet trace := by
  unfold QueryOutcomes.thrown
  cases hcancelled : outcomes.abortedAfter state.awaited || library.namesAbort e ||
      library.saysAbort e with
  | true =>
    exact ⟨_, bind_run (streamMetrics_run _) (bind_run (aborted_run _ _)
      (ite_run_pos hcancelled (emit_run _ _))), closes_dispatched rfl, quiet_dispatched _⟩
  | false =>
    exact ⟨_, bind_run (streamMetrics_run _) (bind_run (aborted_run _ _)
      (ite_run_neg hcancelled (emit_run _ _))), closes_dispatched rfl, quiet_dispatched _⟩

/-- What a promise resolves with, if it resolves. -/
def resolves {α : Type} : Except V.LoggableException α → Option α
  | .ok a => some a
  | .error _ => none

/-- A run of a part ends the query as stated, keeps its stream and does not contact the backend. -/
def EndsAs (part : ExecutorRun V (Option V.Table)) (state : ExecutorState V)
    (ending : Ending V) : Prop :=
  ∃ trace result awaited, part state = (trace, result, ⟨awaited, state.resultStream⟩) ∧
    Closes ending.1 trace ∧ resolves result = ending.2 ∧ Quiet trace

theorem catchProcessing_ends (outcomes : QueryOutcomes library) (queryId : ℕ)
    (e : V.LoggableException) (state : ExecutorState V) :
    EndsAs (catchProcessing outcomes queryId e) state
      (if outcomes.abortedAfter state.awaited || library.namesAbort e then (.cancelled, some none)
        else (.failed, none)) := by
  cases hcancelled : outcomes.abortedAfter state.awaited || library.namesAbort e with
  | true =>
    exact ⟨_, .ok none, _, bind_run (streamMetrics_run _) (bind_run (aborted_run _ _)
      (ite_run_pos hcancelled (bind_run (emit_run _ _) (pure_run _ _)))),
      closes_dispatched rfl, rfl, quiet_dispatched _⟩
  | false =>
    exact ⟨_, .error _, _, bind_run (streamMetrics_run _) (bind_run (aborted_run _ _)
      (ite_run_neg hcancelled (bind_run (emit_run _ _) lift_run))), closes_dispatched rfl, rfl,
      quiet_dispatched _⟩

theorem recordSaved_run (outcomes : QueryOutcomes library) (queryId : ℕ) (cacheHash : String)
    (state : ExecutorState V) :
    ∃ trace, recordSaved outcomes queryId cacheHash state = (trace, .ok (), state) ∧
      (∀ action ∈ dispatchedActions trace, QueryExecutionAction.bookkeeping action = true) ∧
        Quiet trace := by
  unfold recordSaved
  cases outcomes.save with
  | ok saved =>
    refine ⟨_, emit_run _ _, fun action haction => ?_, quiet_dispatched _⟩
    rw [mem_singleton.mp haction]
    rfl
  | error e =>
    exact ⟨_, emit_run _ _, fun _ hmem => (not_mem_nil hmem).elim,
      quiet_singleton (fun h => by cases h)⟩

theorem succeed_ends (outcomes : QueryOutcomes library) (queryId : ℕ) (cacheHash : Option String)
    (table : Option V.Table) (servedFromCache : Bool) (state : ExecutorState V) :
    EndsAs (succeed outcomes queryId cacheHash table servedFromCache) state
      (Ending.saved library cacheHash servedFromCache (.succeeded, some table)) := by
  have hplain : ∀ {table : Option V.Table}, EndsAs (do
      connDispatch (.querySucceeded queryId)
      pure table : ExecutorRun V (Option V.Table)) state (.succeeded, some table) :=
    ⟨_, .ok _, _, bind_run (emit_run _ _) (pure_run _ _), closes_dispatched rfl, rfl,
      quiet_dispatched _⟩
  unfold succeed Ending.saved
  cases table with
  | none => cases servedFromCache <;> cases cacheHash <;> exact hplain
  | some table =>
    cases servedFromCache with
    | true => exact hplain
    | false =>
      cases cacheHash with
      | none => exact hplain
      | some cacheHash =>
        dsimp only
        cases hencode : library.tableToIPC table with
        | error e =>
          exact ⟨_, .error e, _, bind_run (emit_run _ _) (bind_run_error lift_run),
            closes_dispatched rfl, rfl, quiet_dispatched _⟩
        | ok bytes =>
          obtain ⟨trace, hrecord, hbookkeeping, hquiet⟩ :=
            recordSaved_run outcomes queryId cacheHash state
          refine ⟨_, .ok _, _, bind_run (emit_run _ _) (bind_run lift_run
            (bind_run hrecord (pure_run _ _))), ?_, rfl, (quiet_dispatched _).append
              (quiet_nil.append (hquiet.append quiet_nil))⟩
          refine ⟨[], .querySucceeded queryId, dispatchedActions trace, ?_,
            fun _ hmem => (not_mem_nil hmem).elim, rfl, hbookkeeping⟩
          rw [nil_append, append_nil]
          rfl

/-- A part after another one that keeps the stream. -/
theorem EndsAs.after {α : Type} {first : ExecutorRun V α}
    {next : α → ExecutorRun V (Option V.Table)} {state state' : ExecutorState V} {a : α}
    {ending : Ending V} (hfirst : first state = (trace, .ok a, state')) (hinner : Inner trace)
    (hquiet : Quiet trace) (hstream : state'.resultStream = state.resultStream)
    (hnext : EndsAs (next a) state' ending) : EndsAs (first >>= next) state ending := by
  obtain ⟨later, result, awaited, hlater, hcloses, hresolves, hlast⟩ := hnext
  rw [hstream] at hlater
  exact ⟨_, result, awaited, bind_run hfirst hlater, hcloses.after hinner, hresolves,
    hquiet.append hlast⟩

theorem finishQuery_ends (outcomes : QueryOutcomes library) (queryId : ℕ)
    (args : QueryExecutionArgs) (cacheHash : Option String) (table : V.Table)
    (servedFromCache : Bool) (state : ExecutorState V) :
    EndsAs (finishQuery outcomes queryId args cacheHash (some table) servedFromCache) state
      (Ending.saved library cacheHash servedFromCache (outcomes.processed args table)) := by
  unfold finishQuery QueryOutcomes.processed
  cases hanalyzes : args.analyzeResults with
  | false => exact succeed_ends outcomes queryId cacheHash (some table) servedFromCache state
  | true =>
    obtain ⟨trace, hprocess, hinner, hquiet⟩ := processResults_run outcomes queryId args state
    refine EndsAs.after (attempt_run hprocess) hinner hquiet rfl ?_
    unfold QueryOutcomes.processing
    cases hanalyze : outcomes.analyze with
    | error e =>
      have hcatch := catchProcessing_ends outcomes queryId e { state with awaited := 5 }
      simp only [if_true]
      cases hcancelled : outcomes.abortedAfter 5 || library.namesAbort e with
      | true =>
        rw [hcancelled] at hcatch
        exact hcatch
      | false =>
        rw [hcancelled] at hcatch
        exact hcatch
    | ok analyzed =>
      cases haborted : outcomes.abortedAfter 5 with
      | true =>
        have hcatch := catchProcessing_ends outcomes queryId library.abortReason
          { state with awaited := 5 }
        rw [haborted] at hcatch
        exact hcatch
      | false =>
        exact succeed_ends outcomes queryId cacheHash (some table) servedFromCache
          { state with awaited := 5 }

end Parts

end DashQL.Connection
