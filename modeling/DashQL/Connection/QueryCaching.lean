import DashQL.Connection.QueryRuns

/-!
# Caching and the outcome of a query

No concern of the cache may surface into the path of a query: the same action ends
the query, and the promise comes to the same, as without the cache (`Unaffected`).
The run with the cache is put into a closed form (`executeImpl_run`).  It keeps the
promise unless the bytes of a cached result cannot be decoded or those of a new result
cannot be encoded, both of which happen outside of the guards around the operations of
the cache (`unaffected_iff`).
-/

namespace DashQL.Connection

open List Option

open Traced

variable {V : QueryValues} {library : QueryLibrary V}

/-! ## The read of the cache -/

/-- How the read of the cache ends. -/
inductive CacheRead (V : QueryValues)
  | skipped
  | cancelled
  | missed (cacheHash : String)
  | undecodable (e : V.LoggableException)
  | served (table : V.Table)

/-- What the read leaves for the query: a table, the backend, or what was thrown. -/
def CacheRead.outcome (library : QueryLibrary V) :
    CacheRead V → Except V.LoggableException (Option V.Table)
  | .skipped => .ok none
  | .cancelled => .error library.abortError
  | .missed _ => .ok none
  | .undecodable e => .error e
  | .served table => .ok (some table)

namespace QueryOutcomes

variable (outcomes : QueryOutcomes library) (args : QueryExecutionArgs)

def keyedRead (cacheHash : String) : CacheRead V :=
  if outcomes.abortedAfter 1 then .cancelled
  else
    match outcomes.load with
    | .error _ => .missed cacheHash
    | .ok none => .missed cacheHash
    | .ok (some cached) =>
      match library.tableFromIPC cached.bytes with
      | .error e => .undecodable e
      | .ok table => .served table

theorem keyedRead_cases (cacheHash : String) :
    outcomes.keyedRead cacheHash = .cancelled ∨ outcomes.keyedRead cacheHash = .missed cacheHash ∨
      (∃ e, outcomes.keyedRead cacheHash = .undecodable e) ∨
        ∃ table, outcomes.keyedRead cacheHash = .served table := by
  unfold keyedRead
  cases outcomes.abortedAfter 1 with
  | true => exact .inl rfl
  | false =>
    rcases outcomes.load with e | _ | cached
    · exact .inr (.inl rfl)
    · exact .inr (.inl rfl)
    · cases hdecode : library.tableFromIPC cached.bytes with
      | error e =>
        refine .inr (.inr (.inl ⟨e, ?_⟩))
        simp only [Bool.false_eq_true, if_false]
        rw [hdecode]
      | ok table =>
        refine .inr (.inr (.inr ⟨table, ?_⟩))
        simp only [Bool.false_eq_true, if_false]
        rw [hdecode]

theorem thrown_abortError (awaited : ℕ) :
    outcomes.thrown library.abortError awaited = .cancelled := by
  unfold thrown
  rw [library.saysAbort_abortError, Bool.or_true, if_pos rfl]

def cacheRead : CacheRead V :=
  match cacheHash outcomes args with
  | none => .skipped
  | some cacheHash => outcomes.keyedRead cacheHash

/-- The stream of a query that contacts the backend. -/
def consumed : CacheRead V → Option (StreamRun V)
  | .skipped => outcomes.stream
  | .missed _ => outcomes.stream
  | _ => none

/-- What a query comes to after the read of the cache. -/
def endingAfter : CacheRead V → Ending V
  | .skipped => outcomes.ending args
  | .cancelled => (.cancelled, some none)
  | .missed cacheHash => (outcomes.ending args).saved library (some cacheHash) false
  | .undecodable e => (outcomes.thrown e 1, some none)
  | .served table => outcomes.processed args table

end QueryOutcomes

section Runs

variable (outcomes : QueryOutcomes library) (queryId : ℕ) (args : QueryExecutionArgs)

theorem warnUnless_run {α : Type} (answer : Except V.LoggableException α) (message : String)
    (state : ExecutorState V) :
    ∃ trace, warnUnless answer message state = (trace, .ok (), state) ∧ Inner trace ∧
      Quiet trace := by
  cases answer with
  | ok a => exact ⟨_, pure_run _ _, inner_nil, quiet_nil⟩
  | error e =>
    exact ⟨_, emit_run _ _, inner_nil, quiet_singleton (fun h => by cases h)⟩

theorem readCache_run (cacheHash : String) (state : ExecutorState V) :
    ∃ trace, readCache outcomes queryId cacheHash state =
        (trace, (outcomes.keyedRead cacheHash).outcome library, { state with awaited := 1 }) ∧
      Inner trace ∧ Quiet trace := by
  obtain ⟨warned, hwarned, hinner, hquiet⟩ :=
    warnUnless_run outcomes.load "Failed to read query cache" { state with awaited := 1 }
  have hhead := inner_nil.append hinner
  have hsilent := quiet_nil.append hquiet
  unfold readCache QueryOutcomes.keyedRead
  cases haborted : outcomes.abortedAfter 1 with
  | true =>
    exact ⟨_, bind_run (attempt_run (await_run _ _ _)) (bind_run hwarned
      (bind_run (aborted_run _ _) (ite_run_pos haborted lift_run))),
      hhead.append inner_nil, hsilent.append quiet_nil⟩
  | false =>
    cases hload : outcomes.load with
    | error e =>
      rw [hload] at hwarned
      exact ⟨_, bind_run (attempt_run (await_run _ _ _)) (bind_run hwarned
        (bind_run (aborted_run _ _) (ite_run_neg haborted (pure_run _ _)))),
        hhead.append inner_nil, hsilent.append quiet_nil⟩
    | ok loaded =>
      rw [hload] at hwarned
      cases loaded with
      | none =>
        exact ⟨_, bind_run (attempt_run (await_run _ _ _)) (bind_run hwarned
          (bind_run (aborted_run _ _) (ite_run_neg haborted (pure_run _ _)))),
          hhead.append inner_nil, hsilent.append quiet_nil⟩
      | some cached =>
        simp only [Bool.false_eq_true, if_false]
        cases hdecode : library.tableFromIPC cached.bytes with
        | error e =>
          refine ⟨_, bind_run (attempt_run (await_run _ _ _)) (bind_run hwarned
            (bind_run (aborted_run _ _) (ite_run_neg haborted (bind_run_error ?_)))),
            hhead.append inner_nil, hsilent.append quiet_nil⟩
          rw [hdecode]
          exact lift_run
        | ok table =>
          obtain ⟨touched, htouched, hinner', hquiet'⟩ := warnUnless_run outcomes.touch
            "Failed to record query cache access" { state with awaited := 1 }
          refine ⟨_, bind_run (attempt_run (await_run _ _ _)) (bind_run hwarned
            (bind_run (aborted_run _ _) (ite_run_neg haborted (bind_run
              (by rw [hdecode]; exact lift_run) (bind_run htouched
                (bind_run (emit_run _ _) (bind_run (emit_run _ _) (pure_run _ _)))))))),
            ?_, ?_⟩
          · exact hhead.append (inner_nil.append (inner_nil.append (hinner'.append
              ((inner_dispatched rfl).append ((inner_dispatched rfl).append inner_nil)))))
          · exact hsilent.append (quiet_nil.append (quiet_nil.append (hquiet'.append
              ((quiet_dispatched _).append ((quiet_dispatched _).append quiet_nil)))))

theorem readKeyed_run :
    ∃ trace awaited, readKeyed outcomes queryId (cacheHash outcomes args) ⟨0, none⟩ =
        (trace, (outcomes.cacheRead args).outcome library, ⟨awaited, none⟩) ∧
      Inner trace ∧ Quiet trace ∧
        ∀ e, (outcomes.cacheRead args).outcome library = .error e → awaited = 1 := by
  unfold QueryOutcomes.cacheRead
  cases cacheHash outcomes args with
  | none =>
    refine ⟨_, 0, pure_run _ _, inner_nil, quiet_nil, fun e h => ?_⟩
    cases h
  | some cacheHash =>
    obtain ⟨trace, hread, hinner, hquiet⟩ :=
      readCache_run outcomes queryId cacheHash (⟨0, none⟩ : ExecutorState V)
    exact ⟨trace, 1, hread, hinner, hquiet, fun _ _ => rfl⟩

theorem saved_null (cacheHash : Option String) (servedFromCache : Bool)
    (status : QueryExecutionStatus) :
    Ending.saved library cacheHash servedFromCache (status, some none) = (status, some none) := by
  cases status <;> rfl

theorem saved_unkeyed (servedFromCache : Bool) (ending : Ending V) :
    ending.saved library none servedFromCache = ending := by
  obtain ⟨status, resolved⟩ := ending
  cases status <;> cases resolved with
  | none => rfl
  | some table => cases table <;> cases servedFromCache <;> rfl

theorem saved_served (cacheHash : Option String) (ending : Ending V) :
    ending.saved library cacheHash true = ending := by
  obtain ⟨status, resolved⟩ := ending
  cases status <;> cases resolved with
  | none => rfl
  | some table => cases table <;> rfl

/-- The end of a query whose backend was asked. -/
theorem afterQuery_ends (key : Option String) (state : ExecutorState V)
    (hawaited : ∀ e number, outcomes.live = .error (e, number) → state.awaited = number) :
    EndsAs (afterQuery outcomes queryId args key
        ((outcomes.live.mapError Prod.fst).map fun table => (table, false))) state
      ((outcomes.ending args).saved library key false) := by
  unfold QueryOutcomes.ending
  cases hlive : outcomes.live with
  | error thrown =>
    obtain ⟨e, number⟩ := thrown
    obtain ⟨trace, hcatch, hcloses, hquiet⟩ := catchQuery_run outcomes queryId e state
    rw [hawaited e number hlive] at hcloses
    dsimp only
    rw [saved_null]
    refine ⟨_, .ok none, state.awaited, bind_run hcatch (pure_run _ _), ?_, rfl,
      hquiet.append quiet_nil⟩
    rw [append_nil]
    exact hcloses
  | ok found =>
    cases found with
    | none => exact succeed_ends outcomes queryId key none false state
    | some table => exact finishQuery_ends outcomes queryId args key table false state

/-- The first `catch` on what was thrown by the read of the cache. -/
theorem afterQuery_thrown (key : Option String) (e : V.LoggableException)
    (state : ExecutorState V) :
    EndsAs (afterQuery outcomes queryId args key (.error e)) state
      (outcomes.thrown e state.awaited, some none) := by
  obtain ⟨trace, hcatch, hcloses, hquiet⟩ := catchQuery_run outcomes queryId e state
  refine ⟨_, .ok none, state.awaited, bind_run hcatch (pure_run _ _), ?_, rfl,
    hquiet.append quiet_nil⟩
  rw [append_nil]
  exact hcloses

/-- The body of the first `try`, and how the rest of the execution ends the query. -/
theorem queryResult_ends :
    ∃ trace result state, queryResult outcomes queryId (cacheHash outcomes args) ⟨0, none⟩ =
        (trace, result, state) ∧
      state.resultStream = outcomes.consumed (outcomes.cacheRead args) ∧
      EndsAs (afterQuery outcomes queryId args (cacheHash outcomes args) result) state
        (outcomes.endingAfter args (outcomes.cacheRead args)) ∧
      Inner trace ∧ ∀ table, outcomes.cacheRead args = .served table → Quiet trace := by
  obtain ⟨trace, before, hread, hinner, hquiet, hbefore⟩ := readKeyed_run outcomes queryId args
  obtain ⟨asked, awaited, hbackend, hasked, hawaited⟩ := queryBackend_run outcomes queryId
  -- The backend is asked after a read that leaves no table.
  have hlive : readKeyed outcomes queryId (cacheHash outcomes args) ⟨0, none⟩ =
      (trace, .ok none, ⟨before, none⟩) →
      ∃ later, queryResult outcomes queryId (cacheHash outcomes args) ⟨0, none⟩ =
        (trace ++ later, (outcomes.live.mapError Prod.fst).map fun table => (table, false),
          ⟨awaited, outcomes.stream⟩) ∧ Inner (trace ++ later) := by
    intro hnone
    have hrun := hbackend before
    cases hlive : outcomes.live with
    | error e =>
      rw [hlive] at hrun
      exact ⟨_, bind_run hnone (bind_run_error hrun), hinner.append hasked⟩
    | ok table =>
      rw [hlive] at hrun
      exact ⟨_, bind_run hnone (bind_run hrun (pure_run _ _)),
        hinner.append (hasked.append inner_nil)⟩
  have hends := fun key =>
    afterQuery_ends outcomes queryId args key ⟨awaited, outcomes.stream⟩ hawaited
  unfold QueryOutcomes.cacheRead at hread hbefore ⊢
  cases hkey : cacheHash outcomes args with
  | none =>
    rw [hkey] at hread hlive
    obtain ⟨later, hquery, hinner'⟩ := hlive hread
    have hended := hends none
    rw [saved_unkeyed] at hended
    exact ⟨_, _, _, hquery, rfl, hended, hinner', fun _ h => by cases h⟩
  | some key =>
    rw [hkey] at hread hlive hbefore
    dsimp only at hread hbefore ⊢
    rcases outcomes.keyedRead_cases key with hkeyed | hkeyed | ⟨e, hkeyed⟩ | ⟨table, hkeyed⟩
    · rw [hkeyed] at hread hbefore ⊢
      have hthrown :=
        afterQuery_thrown outcomes queryId args (some key) library.abortError ⟨before, none⟩
      rw [outcomes.thrown_abortError] at hthrown
      exact ⟨_, _, _, bind_run_error hread, rfl, hthrown, hinner, fun _ h => by cases h⟩
    · rw [hkeyed] at hread ⊢
      obtain ⟨later, hquery, hinner'⟩ := hlive hread
      exact ⟨_, _, _, hquery, rfl, hends (some key), hinner', fun _ h => by cases h⟩
    · rw [hkeyed] at hread hbefore ⊢
      have hthrown := afterQuery_thrown outcomes queryId args (some key) e ⟨before, none⟩
      rw [hbefore e rfl] at hthrown hread
      exact ⟨_, _, _, bind_run_error hread, rfl, hthrown, hinner, fun _ h => by cases h⟩
    · rw [hkeyed] at hread ⊢
      have hfinished :=
        finishQuery_ends outcomes queryId args (some key) table true ⟨before, none⟩
      rw [saved_served] at hfinished
      refine ⟨_, _, _, bind_run hread (pure_run _ _), rfl, hfinished,
        hinner.append inner_nil, fun _ _ => hquiet.append quiet_nil⟩

/-- A run of the executor on a computation database: it starts the query and ends it. -/
theorem executeImpl_run (hready : outcomes.computeDbReady = true) :
    ∃ trace result awaited, executeImpl outcomes queryId args ⟨0, none⟩ =
        (.dispatched (.executeQuery queryId (initialState queryId)) :: trace, result,
          ⟨awaited, outcomes.consumed (outcomes.cacheRead args)⟩) ∧
      Closes (outcomes.endingAfter args (outcomes.cacheRead args)).1 trace ∧
      resolves result = (outcomes.endingAfter args (outcomes.cacheRead args)).2 ∧
      ∀ table, outcomes.cacheRead args = .served table → Quiet trace := by
  obtain ⟨trace, result, state, hquery, hstream, hends, hinner, hquiet⟩ :=
    queryResult_ends outcomes queryId args
  obtain ⟨later, settled, awaited, hafter, hcloses, hresolves, hlast⟩ := hends
  rw [hstream] at hafter
  refine ⟨trace ++ later, settled, awaited, ?_, hcloses.after hinner, hresolves, ?_⟩
  · unfold executeImpl
    rw [if_pos hready]
    exact bind_run (await_run _ _ _) (bind_run (emit_run _ _)
      (bind_run (attempt_run hquery) hafter))
  · intro table hserved
    exact (hquiet table hserved).append hlast

/-! ## What the executor promises -/

/-- How a query ends for those who watch it: the statuses that its terminal actions give, and the
table that the promise resolves with, if it resolves. -/
def settled (run : List (ExecutorEvent V) × Except V.LoggableException (Option V.Table)) :
    List QueryExecutionStatus × Option (Option V.Table) :=
  ((dispatchedActions run.1).filterMap QueryExecutionAction.finishes, resolves run.2)

/-- An operation of the cache that the run performs fails, by how the read of the cache ends. -/
def QueryOutcomes.failsCache : CacheRead V → Prop
  | .skipped => args.cacheable = true ∧ ∃ e, outcomes.cacheKey = .error e
  | .cancelled => ∃ e, outcomes.load = .error e
  | .missed _ => (∃ e, outcomes.load = .error e) ∨
      ∃ table, outcomes.ending args = (.succeeded, some (some table)) ∧
        ((∃ e, library.tableToIPC table = .error e) ∨ ∃ e, outcomes.save = .error e)
  | .undecodable _ => True
  | .served _ => ∃ e, outcomes.touch = .error e

/-- The promise about the cache.  What a run with a failing operation of the cache is compared with
is the run without caching, or for a result that was served the run in which its entry is
touched. -/
structure Unaffected : Prop where
  dispatched : ∃ middle terminal bookkeeping,
    dispatchedActions (execute outcomes queryId args).1 =
        .executeQuery queryId (initialState queryId) :: (middle ++ terminal :: bookkeeping) ∧
      (∀ action ∈ middle, QueryExecutionAction.inner action = true) ∧
      (QueryExecutionAction.finishes terminal).isSome = true ∧
      ∀ action ∈ bookkeeping, QueryExecutionAction.bookkeeping action = true
  uncontacted : ∀ table, outcomes.cacheRead args = .served table →
    Quiet (execute outcomes queryId args).1
  unchanged : outcomes.failsCache args (outcomes.cacheRead args) →
    (∀ table, outcomes.cacheRead args ≠ .served table) →
      settled (execute outcomes queryId args) =
        settled (execute outcomes queryId { args with cacheable := false })
  untouched : ∀ table, outcomes.cacheRead args = .served table →
    settled (execute outcomes queryId args) =
      settled (execute { outcomes with touch := .ok () } queryId args)

/-- The query comes to the same without the cache, if an operation of the cache fails. -/
def QueryOutcomes.sameWithout : CacheRead V → Prop
  | .skipped => True
  | .cancelled => (∃ e, outcomes.load = .error e) → outcomes.ending args = (.cancelled, some none)
  | .missed _ => ∀ table, outcomes.ending args = (.succeeded, some (some table)) →
      ∃ bytes, library.tableToIPC table = .ok bytes
  | .undecodable e => outcomes.ending args = (outcomes.thrown e 1, some none)
  | .served _ => True

/-- The computation database is there, a stream that is used delivers nothing after the end of the
query, and the bytes of results decode and encode or the query comes to the same as without. -/
structure Unharmed : Prop where
  computeDbReady : outcomes.computeDbReady = true
  noneLate : ∀ run, outcomes.consumed (outcomes.cacheRead args) = some run → run.late = []
  sameWithout : outcomes.sameWithout args (outcomes.cacheRead args)

variable {outcomes} {queryId} {args}

variable {actions : List (QueryExecutionAction V)}

theorem finishes_none_of_inner (h : ∀ action ∈ actions, QueryExecutionAction.inner action = true) :
    actions.filterMap QueryExecutionAction.finishes = [] := by
  refine filterMap_eq_nil_iff.mpr fun action haction => ?_
  have hinner := h action haction
  unfold QueryExecutionAction.inner at hinner
  rw [Bool.and_eq_true, isNone_iff_eq_none] at hinner
  exact hinner.1

theorem finishes_none_of_bookkeeping
    (h : ∀ action ∈ actions, QueryExecutionAction.bookkeeping action = true) :
    actions.filterMap QueryExecutionAction.finishes = [] := by
  refine filterMap_eq_nil_iff.mpr fun action haction => ?_
  have hbookkeeping := h action haction
  cases action <;> first | rfl | cases hbookkeeping

section

variable (hready : outcomes.computeDbReady = true)

include hready

theorem execute_dispatched :
    ∃ middle terminal bookkeeping,
      dispatchedActions (execute outcomes queryId args).1 =
          .executeQuery queryId (initialState queryId) ::
            (middle ++ terminal :: (bookkeeping ++
              (((outcomes.consumed (outcomes.cacheRead args)).map StreamRun.late).getD []).map
                (Delivery.action queryId))) ∧
        (∀ action ∈ middle, QueryExecutionAction.inner action = true) ∧
        QueryExecutionAction.finishes terminal =
          some (outcomes.endingAfter args (outcomes.cacheRead args)).1 ∧
        ∀ action ∈ bookkeeping, QueryExecutionAction.bookkeeping action = true := by
  obtain ⟨trace, result, awaited, hrun, ⟨middle, terminal, bookkeeping, htrace, hrest⟩, -⟩ :=
    executeImpl_run outcomes queryId args hready
  refine ⟨middle, terminal, bookkeeping, ?_, hrest⟩
  unfold execute
  dsimp only
  rw [hrun]
  have hlate := dispatched_deliveries queryId
    (((outcomes.consumed (outcomes.cacheRead args)).map StreamRun.late).getD [])
  unfold deliveries at hlate
  rw [dispatchedActions_append, hlate]
  change .executeQuery queryId (initialState queryId) :: dispatchedActions trace ++ _ = _
  rw [htrace, cons_append, append_assoc, cons_append]

theorem execute_settled :
    settled (execute outcomes queryId args) =
      ([(outcomes.endingAfter args (outcomes.cacheRead args)).1],
        (outcomes.endingAfter args (outcomes.cacheRead args)).2) := by
  obtain ⟨middle, terminal, bookkeeping, hdispatched, hmiddle, hterminal, hbookkeeping⟩ :=
    @execute_dispatched V library outcomes queryId args hready
  obtain ⟨trace, result, awaited, hrun, -, hresolves, -⟩ :=
    executeImpl_run outcomes queryId args hready
  have hlate : ∀ delivered : List (Delivery V),
      (delivered.map (Delivery.action queryId)).filterMap QueryExecutionAction.finishes = [] := by
    intro delivered
    refine finishes_none_of_inner fun action haction => ?_
    obtain ⟨delivery, -, rfl⟩ := mem_map.mp haction
    exact (delivery_inner queryId delivery).1
  unfold settled
  refine Prod.ext ?_ ?_
  · dsimp only
    rw [hdispatched, filterMap_cons_none rfl, filterMap_append,
      finishes_none_of_inner hmiddle, filterMap_cons_some hterminal, filterMap_append,
      finishes_none_of_bookkeeping hbookkeeping, hlate]
    rfl
  · dsimp only
    rw [← hresolves]
    unfold execute
    rw [hrun]

/-- The query without caching comes to the ending that its backend and its processing give. -/
theorem settled_uncached :
    settled (execute outcomes queryId { args with cacheable := false }) =
      ([(outcomes.ending args).1], (outcomes.ending args).2) :=
  @execute_settled V library outcomes queryId { args with cacheable := false } hready

end

theorem late_eq_nil {consumed : Option (StreamRun V)}
    (h : ∀ run, consumed = some run → run.late = []) :
    (consumed.map StreamRun.late).getD [] = [] := by
  cases consumed with
  | none => rfl
  | some run => exact h run rfl

/-- A result that encodes is saved without an effect on the query. -/
theorem saved_of_encodes {cacheHash : String} {ending : Ending V}
    (h : ∀ table, ending = (.succeeded, some (some table)) →
      ∃ bytes, library.tableToIPC table = .ok bytes) :
    ending.saved library (some cacheHash) false = ending := by
  obtain ⟨status, resolved⟩ := ending
  rcases resolved with _ | _ | table
  · cases status <;> rfl
  · exact saved_null _ _ _
  · cases status with
    | succeeded =>
      obtain ⟨bytes, hbytes⟩ := h table rfl
      unfold Ending.saved
      dsimp only
      rw [hbytes]
    | _ => rfl

theorem Unharmed.unaffected (h : Unharmed outcomes args) : Unaffected outcomes queryId args := by
  obtain ⟨hready, hlate, hsame⟩ := h
  refine ⟨?_, ?_, ?_, ?_⟩
  · obtain ⟨middle, terminal, bookkeeping, hdispatched, hmiddle, hterminal, hbookkeeping⟩ :=
      @execute_dispatched V library outcomes queryId args hready
    rw [late_eq_nil hlate, map_nil, append_nil] at hdispatched
    refine ⟨middle, terminal, bookkeeping, hdispatched, hmiddle, ?_, hbookkeeping⟩
    rw [hterminal]
    rfl
  · intro table hserved
    obtain ⟨trace, result, awaited, hrun, -, -, hquiet⟩ :=
      executeImpl_run outcomes queryId args hready
    unfold execute
    dsimp only
    rw [hrun]
    dsimp only
    rw [late_eq_nil hlate, map_nil, append_nil]
    exact (quiet_dispatched _).append (hquiet table hserved)
  · intro hfails hunserved
    rw [execute_settled hready, settled_uncached hready]
    cases hread : outcomes.cacheRead args with
    | skipped => rfl
    | cancelled =>
      rw [hread] at hfails hsame
      rw [hsame hfails]
      rfl
    | missed cacheHash =>
      rw [hread] at hsame
      dsimp only [QueryOutcomes.endingAfter]
      rw [saved_of_encodes hsame]
    | undecodable e =>
      rw [hread] at hsame
      rw [hsame]
      rfl
    | served table => exact (hunserved table hread).elim
  · intro table hserved
    rw [execute_settled hready]
    exact (@execute_settled V library { outcomes with touch := .ok () } queryId args hready).symm

theorem rest_of_dispatched {start terminal : QueryExecutionAction V}
    {middle rest : List (QueryExecutionAction V)}
    (hactions : actions = start :: (middle ++ terminal :: rest))
    (hmiddle : ∀ action ∈ middle, QueryExecutionAction.inner action = true)
    (hterminal : (QueryExecutionAction.finishes terminal).isSome = true) :
    (actions.tail.dropWhile QueryExecutionAction.inner).tail = rest := by
  have hinner : ¬ QueryExecutionAction.inner terminal = true := by
    unfold QueryExecutionAction.inner
    rw [isSome_iff_ne_none] at hterminal
    rw [Bool.and_eq_true, isNone_iff_eq_none]
    exact fun h => hterminal h.1
  rw [hactions, tail_cons, dropWhile_append_of_pos hmiddle, dropWhile_cons_of_neg hinner, tail_cons]

theorem ending_ext {ending ending' : Ending V}
    (h : ([ending.1], ending.2) = ([ending'.1], ending'.2)) : ending = ending' :=
  Prod.ext (singleton_inj.mp (Prod.mk.inj h).1) (Prod.mk.inj h).2

theorem Unaffected.unharmed (h : Unaffected outcomes queryId args) : Unharmed outcomes args := by
  obtain ⟨middle, terminal, bookkeeping, hdispatched, hmiddle, hterminal, hbookkeeping⟩ :=
    h.dispatched
  have hready : outcomes.computeDbReady = true := by
    by_contra hnone
    have hrun : dispatchedActions (execute outcomes queryId args).1 = [] := by
      unfold execute executeImpl
      rw [if_neg hnone]
      rfl
    rw [hrun] at hdispatched
    cases hdispatched
  refine ⟨hready, ?_, ?_⟩
  · intro run hrun
    obtain ⟨middle', terminal', bookkeeping', hdispatched', hmiddle', hterminal', -⟩ :=
      @execute_dispatched V library outcomes queryId args hready
    rw [hrun] at hdispatched'
    have hrest := rest_of_dispatched hdispatched hmiddle hterminal
    rw [rest_of_dispatched hdispatched' hmiddle' (by rw [hterminal']; rfl)] at hrest
    refine eq_nil_iff_forall_not_mem.mpr fun delivery hdelivery => ?_
    have hmem : delivery.action queryId ∈ bookkeeping := by
      rw [← hrest]
      exact mem_append_right _ (mem_map_of_mem hdelivery)
    have hbooked := hbookkeeping _ hmem
    rw [(delivery_inner queryId delivery).2] at hbooked
    cases hbooked
  · have hunchanged := h.unchanged
    rw [execute_settled hready, settled_uncached hready] at hunchanged
    cases hread : outcomes.cacheRead args with
    | skipped => trivial
    | cancelled =>
      intro hload
      rw [hread] at hunchanged
      have hsettled := hunchanged hload fun _ hserved => by cases hserved
      exact (ending_ext hsettled).symm
    | missed cacheHash =>
      intro table hending
      cases hencode : library.tableToIPC table with
      | ok bytes => exact ⟨bytes, rfl⟩
      | error e =>
        rw [hread] at hunchanged
        have hsettled := hunchanged (.inr ⟨table, hending, .inl ⟨e, hencode⟩⟩)
          fun _ hserved => by cases hserved
        have hresolved := congrArg Prod.snd hsettled
        unfold QueryOutcomes.endingAfter Ending.saved at hresolved
        rw [hending] at hresolved
        dsimp only at hresolved
        rw [hencode] at hresolved
        cases hresolved
    | undecodable e =>
      rw [hread] at hunchanged
      have hsettled := hunchanged trivial fun _ hserved => by cases hserved
      exact (ending_ext hsettled).symm
    | served table => trivial

end Runs

/-! ## A cached result that does not decode -/

/-- Tables and batches without content, bytes that do not decode, and errors that are no aborts but
for the one with that name. -/
def plainValues : QueryValues where
  Schema := Unit
  Batch := Unit
  Table := Unit
  ResponseStream := Unit
  LoggableException := Bool
  schema := id

def truncatedCache : QueryLibrary plainValues where
  Bytes := List ℕ
  tableFromIPC := fun bytes => if bytes = [] then .error false else .ok ()
  tableToIPC := fun _ => .ok [0]
  newTable := fun _ _ => ()
  newSchema := ()
  namesAbort := fun _ => false
  saysAbort := id
  abortError := true
  saysAbort_abortError := rfl
  abortReason := false
  cancellationError := id
  processingError := id
  computeDbNotReady := false

/-- The file of the cached result is empty, and the backend would have returned a stream. -/
def truncatedOutcomes : QueryOutcomes truncatedCache where
  computeDbReady := true
  cacheKey := .ok (some "query")
  load := .ok (some ⟨[], 1⟩)
  touch := .ok ()
  connect := .ok (some ⟨(), [.batch () createQueryResponseStreamMetrics], .ok (), [], .ok none, [],
    createQueryResponseStreamMetrics, [], []⟩)
  analyze := .ok ()
  save := .ok ()
  abortAt := none

end DashQL.Connection
