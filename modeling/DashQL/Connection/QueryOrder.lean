import DashQL.Connection.QueryExecution
import DashQL.Library.Replay

/-!
# The maps and the ordered lists of queries

The queries of a connection are kept in two maps, with a list of the ids in order beside each.  The
query actions change a map and its list together; a reset replaces the maps and leaves the lists.

What holds in every run is `Accounted`: the lists have all ids that were ever executed, and the
finished ones keep the status that they finished with.  What a reset breaks is that every listed id
is found in its map.  `inStep_of_run_iff` says in which runs the maps and the lists are in step all
along.
-/

namespace DashQL.Connection

open List Option
open InsertionMap (get?_delete get?_modify get?_set keys_modify mem_keys_delete mem_keys_iff mem_keys_set)

variable {V : QueryValues}

/-! ## Runs -/

inductive ConnectionAction (V : QueryValues) where
  | query (now : ℤ) (action : QueryExecutionAction V)
  | resetConnection

namespace ConnectionAction

def reduce (action : ConnectionAction V) (state : ConnectionState V) : ConnectionState V :=
  match action with
  | .query now action => reduceQueryAction now action state
  | .resetConnection => Connection.resetConnection state

def executes : ConnectionAction V → List (ℕ × QueryExecutionState V)
  | query _ (.executeQuery queryId initialState) => [(queryId, initialState)]
  | _ => []

/-- The active query that an action ends, with the status that it ends with. -/
def finishes (state : ConnectionState V) : ConnectionAction V → List (ℕ × QueryExecutionStatus)
  | query _ action =>
    match action.finishes with
    | some status =>
      if action.queryId ∈ state.queriesActive.keys then [(action.queryId, status)] else []
    | none => []
  | resetConnection => []

def resets : ConnectionAction V → Bool
  | resetConnection => true
  | _ => false

end ConnectionAction

/-- A connection with the ids of the queries that were executed, and of those that finished, in
this order. -/
structure QueryRun (V : QueryValues) where
  state : ConnectionState V
  executed : List ℕ
  finished : List (ℕ × QueryExecutionStatus)

namespace QueryRun

def initial : QueryRun V := { state := createConnectionState, executed := [], finished := [] }

def step (action : ConnectionAction V) (run : QueryRun V) : QueryRun V where
  state := action.reduce run.state
  executed := run.executed ++ action.executes.map Prod.fst
  finished := run.finished ++ action.finishes run.state

/-- A query is executed under its own id, which was never used before. -/
def Fresh (action : ConnectionAction V) (run : QueryRun V) : Prop :=
  ∀ entry ∈ action.executes, entry.1 ∉ run.executed ∧ entry.2.queryId = entry.1

instance (action : ConnectionAction V) (run : QueryRun V) : Decidable (Fresh action run) :=
  inferInstanceAs (Decidable (∀ entry ∈ action.executes, _))

def ResetsUnused (action : ConnectionAction V) (run : QueryRun V) : Prop :=
  action.resets → run.executed = []

instance (action : ConnectionAction V) (run : QueryRun V) : Decidable (ResetsUnused action run) :=
  inferInstanceAs (Decidable (_ → _))

/-- The lists have exactly the keys of their maps, each once, in the order in which the queries were
executed and finished; no id is in both maps, and the finished queries are done. -/
structure InStep (run : QueryRun V) : Prop where
  active : ∀ id, id ∈ run.state.queriesActiveOrdered ↔ id ∈ run.state.queriesActive.keys
  activeNodup : run.state.queriesActiveOrdered.Nodup
  activeOrder : run.state.queriesActiveOrdered.Sublist run.executed
  finished : ∀ id, id ∈ run.state.queriesFinishedOrdered ↔ id ∈ run.state.queriesFinished.keys
  finishedNodup : run.state.queriesFinishedOrdered.Nodup
  finishedOrder : run.state.queriesFinishedOrdered.Sublist (run.finished.map Prod.fst)
  disjoint : ∀ id ∈ run.state.queriesActive.keys, id ∉ run.state.queriesFinished.keys
  done : ∀ id query, run.state.queriesFinished.get? id = some query → queryIsDone query.status

/-! ## What holds in every run -/

/-- All executed queries are listed, each in one place, and the entries of the maps are listed. -/
structure Accounted (run : QueryRun V) : Prop where
  queryId : ∀ id query, run.state.queriesActive.get? id = some query → query.queryId = id
  activeListed : ∀ id ∈ run.state.queriesActive.keys, id ∈ run.state.queriesActiveOrdered
  finishedListed : ∀ id ∈ run.state.queriesFinished.keys, id ∈ run.state.queriesFinishedOrdered
  listed : ∀ id, id ∈ run.executed ↔
    id ∈ run.state.queriesActiveOrdered ∨ id ∈ run.state.queriesFinishedOrdered
  executedNodup : run.executed.Nodup
  activeOrder : run.state.queriesActiveOrdered.Sublist run.executed
  finishedOrder : run.state.queriesFinishedOrdered = run.finished.map Prod.fst
  finishedNodup : run.state.queriesFinishedOrdered.Nodup
  disjoint : ∀ id ∈ run.state.queriesActiveOrdered, id ∉ run.state.queriesFinishedOrdered
  status : ∀ id query, run.state.queriesFinished.get? id = some query →
    (id, query.status) ∈ run.finished
  done : ∀ entry ∈ run.finished, queryIsDone entry.2

/-- What a reset breaks: every listed id is found in its map. -/
structure Found (run : QueryRun V) : Prop where
  active : ∀ id ∈ run.state.queriesActiveOrdered, id ∈ run.state.queriesActive.keys
  finished : ∀ id ∈ run.state.queriesFinishedOrdered, id ∈ run.state.queriesFinished.keys

variable {run : QueryRun V}

theorem inStep_iff (h : run.Accounted) : run.InStep ↔ run.Found := by
  constructor
  · intro hinStep
    exact ⟨fun id => (hinStep.active id).mp, fun id => (hinStep.finished id).mp⟩
  · intro hfound
    exact
      { active := fun id => ⟨hfound.active id, h.activeListed id⟩
        activeNodup := h.activeOrder.nodup h.executedNodup
        activeOrder := h.activeOrder
        finished := fun id => ⟨hfound.finished id, h.finishedListed id⟩
        finishedNodup := h.finishedNodup
        finishedOrder := h.finishedOrder ▸ List.Sublist.refl _
        disjoint := fun id hactive hfinished =>
          h.disjoint id (h.activeListed id hactive) (h.finishedListed id hfinished)
        done := fun id query hget => h.done _ (h.status id query hget) }

theorem accounted_initial : (initial : QueryRun V).Accounted where
  queryId _ _ hget := absurd hget (by simp [initial, createConnectionState])
  activeListed _ hid := absurd hid not_mem_nil
  finishedListed _ hid := absurd hid not_mem_nil
  listed _ := (or_self_iff.symm : _ ∈ [] ↔ _)
  executedNodup := nodup_nil
  activeOrder := List.Sublist.refl _
  finishedOrder := rfl
  finishedNodup := nodup_nil
  disjoint _ hid := absurd hid not_mem_nil
  status _ _ hget := absurd hget (by simp [initial, createConnectionState])
  done _ hentry := absurd hentry not_mem_nil

theorem found_initial : (initial : QueryRun V).Found where
  active _ hid := absurd hid not_mem_nil
  finished _ hid := absurd hid not_mem_nil

/-! ## Executing a query -/

def execute (queryId : ℕ) (query : QueryExecutionState V) (run : QueryRun V) : QueryRun V where
  state := reduceQueryAction 0 (.executeQuery queryId query) run.state
  executed := run.executed ++ [queryId]
  finished := run.finished

variable {queryId : ℕ} {query : QueryExecutionState V}

theorem accounted_execute (h : run.Accounted) (hfresh : queryId ∉ run.executed)
    (hid : query.queryId = queryId) : (run.execute queryId query).Accounted where
  queryId id found hget := by
    change (run.state.queriesActive.set queryId query).get? id = some found at hget
    rw [get?_set] at hget
    split_ifs at hget with heq
    · rw [← some.inj hget, hid, heq]
    · exact h.queryId id found hget
  activeListed id hmem := by
    rcases mem_keys_set.mp hmem with rfl | hmem
    · exact mem_append_right _ mem_cons_self
    · exact mem_append_left _ (h.activeListed id hmem)
  finishedListed := h.finishedListed
  listed id := by
    change id ∈ run.executed ++ [queryId] ↔
      id ∈ run.state.queriesActiveOrdered ++ [queryId] ∨ id ∈ run.state.queriesFinishedOrdered
    rw [mem_append, mem_append, h.listed id]
    tauto
  executedNodup :=
    nodup_append.mpr ⟨h.executedNodup, nodup_singleton _, by
      rintro id hmem other hother rfl
      exact hfresh (mem_singleton.mp hother ▸ hmem)⟩
  activeOrder := h.activeOrder.append_right _
  finishedOrder := h.finishedOrder
  finishedNodup := h.finishedNodup
  disjoint id hmem hfinished := by
    rcases mem_append.mp hmem with hmem | hmem
    · exact h.disjoint id hmem hfinished
    · rw [mem_singleton.mp hmem] at hfinished
      exact hfresh ((h.listed queryId).mpr (.inr hfinished))
  status := h.status
  done := h.done

theorem found_execute (h : run.Found) : (run.execute queryId query).Found where
  active id hmem := by
    refine mem_keys_set.mpr ?_
    rcases mem_append.mp hmem with hmem | hmem
    · exact .inr (h.active id hmem)
    · exact .inl (mem_singleton.mp hmem)
  finished := h.finished

/-! ## Changing a query in its place -/

/-- A run that differs in the values of the maps only; the finished queries keep their status, and
the active ones their id. -/
structure SameOrder (run run' : QueryRun V) : Prop where
  executed : run'.executed = run.executed
  finished : run'.finished = run.finished
  activeOrdered : run'.state.queriesActiveOrdered = run.state.queriesActiveOrdered
  finishedOrdered : run'.state.queriesFinishedOrdered = run.state.queriesFinishedOrdered
  activeKeys : run'.state.queriesActive.keys = run.state.queriesActive.keys
  finishedKeys : run'.state.queriesFinished.keys = run.state.queriesFinished.keys
  queryId : ∀ id query', run'.state.queriesActive.get? id = some query' →
    ∃ query, run.state.queriesActive.get? id = some query ∧ query'.queryId = query.queryId
  status : ∀ id query', run'.state.queriesFinished.get? id = some query' →
    ∃ query, run.state.queriesFinished.get? id = some query ∧ query'.status = query.status

variable {run' : QueryRun V}

theorem SameOrder.accounted (hsame : SameOrder run run') (h : run.Accounted) : run'.Accounted where
  queryId id query' hget := by
    obtain ⟨query, hquery, heq⟩ := hsame.queryId id query' hget
    exact heq.trans (h.queryId id query hquery)
  activeListed := by
    rw [hsame.activeKeys, hsame.activeOrdered]
    exact h.activeListed
  finishedListed := by
    rw [hsame.finishedKeys, hsame.finishedOrdered]
    exact h.finishedListed
  listed := by
    rw [hsame.executed, hsame.activeOrdered, hsame.finishedOrdered]
    exact h.listed
  executedNodup := hsame.executed ▸ h.executedNodup
  activeOrder := by
    rw [hsame.executed, hsame.activeOrdered]
    exact h.activeOrder
  finishedOrder := by
    rw [hsame.finishedOrdered, hsame.finished]
    exact h.finishedOrder
  finishedNodup := hsame.finishedOrdered ▸ h.finishedNodup
  disjoint := by
    rw [hsame.activeOrdered, hsame.finishedOrdered]
    exact h.disjoint
  status id query' hget := by
    obtain ⟨query, hquery, heq⟩ := hsame.status id query' hget
    rw [heq, hsame.finished]
    exact h.status id query hquery
  done := hsame.finished ▸ h.done

theorem SameOrder.found (hsame : SameOrder run run') (h : run.Found) : run'.Found where
  active := by
    rw [hsame.activeOrdered, hsame.activeKeys]
    exact h.active
  finished := by
    rw [hsame.finishedOrdered, hsame.finishedKeys]
    exact h.finished

theorem SameOrder.refl (run : QueryRun V) : SameOrder run run :=
  ⟨rfl, rfl, rfl, rfl, rfl, rfl, fun _ query hget => ⟨query, hget, rfl⟩,
    fun _ query hget => ⟨query, hget, rfl⟩⟩

variable {next : QueryExecutionState V → QueryExecutionState V}

/-- A changed value comes from the value that it was changed from. -/
theorem exists_of_get?_modify {m : InsertionMap ℕ (QueryExecutionState V)} {α : Type}
    {view : QueryExecutionState V → α} (hview : ∀ query, view (next query) = view query) {id : ℕ}
    {query' : QueryExecutionState V} (hget : (m.modify queryId next).get? id = some query') :
    ∃ query, m.get? id = some query ∧ view query' = view query := by
  rw [get?_modify] at hget
  split_ifs at hget with heq
  · obtain ⟨query, hquery, rfl⟩ := map_eq_some_iff.mp hget
    exact ⟨query, heq ▸ hquery, hview query⟩
  · exact ⟨query', hget, rfl⟩

theorem sameOrder_updateCached (hid : ∀ query, (next query).queryId = query.queryId)
    (hstatus : ∀ query, (next query).status = query.status) :
    SameOrder run { run with state := run.state.updateCached queryId next } := by
  unfold ConnectionState.updateCached
  split_ifs with hactive
  · exact
      { SameOrder.refl run with
        activeKeys := keys_modify
        queryId := fun _ _ => exists_of_get?_modify hid }
  · exact
      { SameOrder.refl run with
        finishedKeys := keys_modify
        status := fun _ _ => exists_of_get?_modify hstatus }

theorem sameOrder_updateActive (h : run.Accounted)
    (hid : ∀ query, (next query).queryId = query.queryId) :
    SameOrder run { run with state := run.state.updateActive queryId next } := by
  unfold ConnectionState.updateActive
  split
  next => exact .refl run
  next query hquery =>
    have hqueryId := h.queryId queryId query hquery
    have hmodify : run.state.queriesActive.set query.queryId (next query) =
        run.state.queriesActive.modify queryId next := by
      rw [hqueryId, InsertionMap.modify, hquery]
    exact
      { SameOrder.refl run with
        activeKeys := (congrArg InsertionMap.keys hmodify).trans keys_modify
        queryId := fun id query' hget => by
          change (run.state.queriesActive.set query.queryId (next query)).get? id = _ at hget
          rw [hmodify] at hget
          exact exists_of_get?_modify hid hget }

/-! ## Finishing a query -/

def finish (queryId : ℕ) (next : QueryExecutionState V → QueryExecutionState V)
    (merge : QueryMetrics → ConnectionMetrics → ConnectionMetrics) (status : QueryExecutionStatus)
    (run : QueryRun V) : QueryRun V where
  state := run.state.finishActive queryId next merge
  executed := run.executed
  finished := run.finished ++
    if queryId ∈ run.state.queriesActive.keys then [(queryId, status)] else []

variable {merge : QueryMetrics → ConnectionMetrics → ConnectionMetrics}
  {status : QueryExecutionStatus}

theorem finish_of_not_mem (h : queryId ∉ run.state.queriesActive.keys) :
    run.finish queryId next merge status = run := by
  have hmissing : run.state.queriesActive.get? queryId = none := InsertionMap.get?_eq_none_iff.mpr h
  unfold finish ConnectionState.finishActive
  rw [if_neg h, append_nil, hmissing]

section

variable (h : run.Accounted)

include h

theorem finish_of_get? (hquery : run.state.queriesActive.get? queryId = some query) :
    run.finish queryId next merge status =
      { state := { run.state with
          queriesActive := run.state.queriesActive.delete queryId
          queriesActiveOrdered := run.state.queriesActiveOrdered.erase queryId
          queriesFinished := run.state.queriesFinished.set queryId (next query)
          queriesFinishedOrdered := run.state.queriesFinishedOrdered ++ [queryId]
          snapshotQueriesActiveFinished := run.state.snapshotQueriesActiveFinished + 1
          metrics := merge (next query).metrics run.state.metrics }
        executed := run.executed
        finished := run.finished ++ [(queryId, status)] } := by
  have hactive : queryId ∈ run.state.queriesActive.keys :=
    mem_keys_iff.mpr ⟨query, hquery⟩
  unfold finish ConnectionState.finishActive
  rw [if_pos hactive, hquery]
  dsimp only
  rw [h.queryId queryId query hquery]

theorem accounted_finish (hstatus : ∀ query, (next query).status = status)
    (hdone : queryIsDone status) : (run.finish queryId next merge status).Accounted := by
  by_cases hactive : queryId ∈ run.state.queriesActive.keys
  case neg => rwa [finish_of_not_mem hactive]
  obtain ⟨query, hquery⟩ := mem_keys_iff.mp hactive
  have hlisted := h.activeListed queryId hactive
  have hnodup : run.state.queriesActiveOrdered.Nodup := h.activeOrder.nodup h.executedNodup
  rw [finish_of_get? h hquery]
  exact
    { queryId := fun id found hget => by
        change (run.state.queriesActive.delete queryId).get? id = some found at hget
        rw [get?_delete] at hget
        split_ifs at hget
        exact h.queryId id found hget
      activeListed := fun id hmem => by
        obtain ⟨hne, hmem⟩ := mem_keys_delete.mp hmem
        exact (mem_erase_of_ne hne).mpr (h.activeListed id hmem)
      finishedListed := fun id hmem => by
        rcases mem_keys_set.mp hmem with rfl | hmem
        · exact mem_append_right _ mem_cons_self
        · exact mem_append_left _ (h.finishedListed id hmem)
      listed := fun id => by
        rw [h.listed id]
        simp only [hnodup.mem_erase_iff, mem_append, mem_singleton]
        by_cases heq : id = queryId
        · subst heq
          tauto
        · tauto
      executedNodup := h.executedNodup
      activeOrder := erase_sublist.trans h.activeOrder
      finishedOrder := by
        rw [map_append, ← h.finishedOrder]
        rfl
      finishedNodup := nodup_append.mpr
        ⟨h.finishedNodup, nodup_singleton _, by
          rintro id hmem other hother rfl
          exact h.disjoint queryId hlisted (mem_singleton.mp hother ▸ hmem)⟩
      disjoint := fun id hmem hfinished => by
        obtain ⟨hne, hmem⟩ := hnodup.mem_erase_iff.mp hmem
        rcases mem_append.mp hfinished with hfinished | hfinished
        · exact h.disjoint id hmem hfinished
        · exact hne (mem_singleton.mp hfinished)
      status := fun id found hget => by
        change (run.state.queriesFinished.set queryId (next query)).get? id = some found at hget
        rw [get?_set] at hget
        split_ifs at hget with heq
        · rw [← some.inj hget, hstatus, heq]
          exact mem_append_right _ mem_cons_self
        · exact mem_append_left _ (h.status id found hget)
      done := fun entry hentry => by
        rcases mem_append.mp hentry with hentry | hentry
        · exact h.done entry hentry
        · rw [mem_singleton.mp hentry]
          exact hdone }

theorem found_finish (hfound : run.Found) : (run.finish queryId next merge status).Found := by
  by_cases hactive : queryId ∈ run.state.queriesActive.keys
  case neg => rwa [finish_of_not_mem hactive]
  obtain ⟨query, hquery⟩ := mem_keys_iff.mp hactive
  have hnodup : run.state.queriesActiveOrdered.Nodup := h.activeOrder.nodup h.executedNodup
  rw [finish_of_get? h hquery]
  constructor
  · intro id hmem
    obtain ⟨hne, hmem⟩ := hnodup.mem_erase_iff.mp hmem
    exact mem_keys_delete.mpr ⟨hne, hfound.active id hmem⟩
  · intro id hmem
    refine mem_keys_set.mpr ?_
    rcases mem_append.mp hmem with hmem | hmem
    · exact .inr (hfound.finished id hmem)
    · exact .inl (mem_singleton.mp hmem)

/-! ## Resetting the connection -/

def reset (run : QueryRun V) : QueryRun V := { run with state := resetConnection run.state }

theorem accounted_reset : run.reset.Accounted :=
  { h with
    queryId := fun _ _ hget => absurd hget (by simp [reset, resetConnection])
    activeListed := fun _ hid => absurd hid not_mem_nil
    finishedListed := fun _ hid => absurd hid not_mem_nil
    status := fun _ _ hget => absurd hget (by simp [reset, resetConnection]) }

/-- After a reset the listed ids are found exactly if there are none. -/
theorem found_reset_iff : run.reset.Found ↔ run.executed = [] := by
  rw [eq_nil_iff_forall_not_mem]
  constructor
  · intro hfound id hmem
    rcases (h.listed id).mp hmem with hactive | hfinished
    · exact absurd (hfound.active id hactive) not_mem_nil
    · exact absurd (hfound.finished id hfinished) not_mem_nil
  · intro hnone
    exact ⟨fun id hmem => absurd ((h.listed id).mpr (.inl hmem)) (hnone id),
      fun id hmem => absurd ((h.listed id).mpr (.inr hmem)) (hnone id)⟩

/-! ## Steps -/

end

variable {now : ℤ}

theorem step_of_none {action : QueryExecutionAction V}
    (hexecutes : ConnectionAction.executes (.query now action) = [])
    (hfinishes : action.finishes = none) :
    step (.query now action) run =
      { run with state := reduceQueryAction now action run.state } := by
  unfold step ConnectionAction.finishes
  rw [hexecutes]
  dsimp only
  rw [hfinishes]
  dsimp only
  rw [map_nil, append_nil, append_nil]
  rfl

theorem sameOrder_step_of_active {action : QueryExecutionAction V} (h : run.Accounted)
    (hexecutes : ConnectionAction.executes (.query now action) = [])
    (hfinishes : action.finishes = none)
    (hreduce : reduceQueryAction now action run.state = run.state.updateActive action.queryId next)
    (hid : ∀ query, (next query).queryId = query.queryId) :
    SameOrder run (step (.query now action) run) := by
  rw [step_of_none hexecutes hfinishes, hreduce]
  exact sameOrder_updateActive h hid

theorem sameOrder_step_of_cached {action : QueryExecutionAction V}
    (hexecutes : ConnectionAction.executes (.query now action) = [])
    (hfinishes : action.finishes = none)
    (hreduce : reduceQueryAction now action run.state = run.state.updateCached action.queryId next)
    (hid : ∀ query, (next query).queryId = query.queryId)
    (hstatus : ∀ query, (next query).status = query.status) :
    SameOrder run (step (.query now action) run) := by
  rw [step_of_none hexecutes hfinishes, hreduce]
  exact sameOrder_updateCached hid hstatus

theorem step_of_finishes {action : QueryExecutionAction V}
    (hexecutes : ConnectionAction.executes (.query now action) = [])
    (hfinishes : action.finishes = some status) (hreduce : reduceQueryAction now action run.state =
      run.state.finishActive action.queryId next merge) :
    step (.query now action) run = run.finish action.queryId next merge status := by
  unfold step finish ConnectionAction.finishes
  rw [hexecutes]
  dsimp only
  rw [hfinishes, map_nil, append_nil]
  exact congrArg (fun state => QueryRun.mk state _ _) hreduce

/-- What an action does to a run. -/
inductive Effect (run : QueryRun V) (run' : QueryRun V) (resets : Bool) : Prop
  | executed (queryId : ℕ) (query : QueryExecutionState V) (hfresh : queryId ∉ run.executed)
      (hid : query.queryId = queryId) (hresets : resets = false)
      (heq : run' = run.execute queryId query)
  | changed (hresets : resets = false) (hsame : SameOrder run run')
  | finished (queryId : ℕ) (next : QueryExecutionState V → QueryExecutionState V)
      (merge : QueryMetrics → ConnectionMetrics → ConnectionMetrics)
      (status : QueryExecutionStatus) (hstatus : ∀ query, (next query).status = status)
      (hdone : queryIsDone status) (hresets : resets = false)
      (heq : run' = run.finish queryId next merge status)
  | reset (hresets : resets = true) (heq : run' = run.reset)

theorem queryId_progressUpdated {progress : QueryExecutionProgress} :
    (progressUpdated now progress query).queryId = query.queryId := by
  unfold progressUpdated
  dsimp only
  split_ifs <;> rfl

theorem effect_step (action : ConnectionAction V) (h : run.Accounted) (hfresh : Fresh action run) :
    Effect run (step action run) action.resets := by
  cases action with
  | resetConnection => exact .reset rfl (by simp [step, ConnectionAction.executes,
      ConnectionAction.finishes, ConnectionAction.reduce, QueryRun.reset])
  | query now action =>
    cases action with
    | executeQuery queryId query =>
      obtain ⟨hunused, hid⟩ := hfresh (queryId, query) mem_cons_self
      refine .executed queryId query hunused hid rfl ?_
      change QueryRun.mk _ (run.executed ++ [queryId]) (run.finished ++ []) = _
      rw [append_nil]
      rfl
    | queryPreparing => exact .changed rfl (sameOrder_step_of_active h rfl rfl rfl fun _ => rfl)
    | querySending => exact .changed rfl (sameOrder_step_of_active h rfl rfl rfl fun _ => rfl)
    | queryRunning => exact .changed rfl (sameOrder_step_of_active h rfl rfl rfl fun _ => rfl)
    | queryProgressUpdated =>
      exact .changed rfl (sameOrder_step_of_active h rfl rfl rfl fun _ => queryId_progressUpdated)
    | queryReceivedBatch =>
      exact .changed rfl (sameOrder_step_of_active h rfl rfl rfl fun _ => rfl)
    | queryReceivedAllBatches =>
      exact .changed rfl (sameOrder_step_of_active h rfl rfl rfl fun _ => rfl)
    | queryProcessingResults =>
      exact .changed rfl (sameOrder_step_of_active h rfl rfl rfl fun _ => rfl)
    | queryProcessedResults =>
      exact .changed rfl (sameOrder_step_of_active h rfl rfl rfl fun _ => rfl)
    | querySucceeded queryId =>
      have hstep : step (.query now (.querySucceeded queryId)) run =
          run.finish queryId (Connection.succeeded now) mergeSuccessful .succeeded :=
        step_of_finishes rfl rfl rfl
      refine .finished _ _ _ _ ?_ rfl rfl hstep
      exact fun _ => rfl
    | queryFailed queryId error metrics =>
      have hstep : step (.query now (.queryFailed queryId error metrics)) run =
          run.finish queryId (Connection.failed now error metrics) mergeFailed .failed :=
        step_of_finishes rfl rfl rfl
      refine .finished _ _ _ _ ?_ rfl rfl hstep
      exact fun _ => rfl
    | queryCancelled queryId error metrics =>
      have hstep : step (.query now (.queryCancelled queryId error metrics)) run =
          run.finish queryId (Connection.cancelled now error metrics) mergeCanceled .cancelled :=
        step_of_finishes rfl rfl rfl
      refine .finished _ _ _ _ ?_ rfl rfl hstep
      exact fun _ => rfl
    | queryCacheRecorded =>
      exact .changed rfl (sameOrder_step_of_cached rfl rfl rfl (fun _ => rfl) fun _ => rfl)
    | queryCacheDeleted =>
      exact .changed rfl (sameOrder_step_of_cached rfl rfl rfl (fun _ => rfl) fun _ => rfl)

theorem accounted_step (action : ConnectionAction V) (h : run.Accounted)
    (hfresh : Fresh action run) : (step action run).Accounted := by
  rcases effect_step action h hfresh with
    ⟨queryId, query, hunused, hid, -, heq⟩ | ⟨-, hsame⟩ |
    ⟨queryId, next, merge, status, hstatus, hdone, -, heq⟩ | ⟨-, heq⟩
  · rw [heq]
    exact accounted_execute h hunused hid
  · exact hsame.accounted h
  · rw [heq]
    exact accounted_finish h hstatus hdone
  · rw [heq]
    exact accounted_reset h

theorem found_step_iff (action : ConnectionAction V) (h : run.Accounted)
    (hfresh : Fresh action run) (hfound : run.Found) :
    (step action run).Found ↔ ResetsUnused action run := by
  unfold ResetsUnused
  rcases effect_step action h hfresh with
    ⟨queryId, query, -, -, hresets, heq⟩ | ⟨hresets, hsame⟩ |
    ⟨queryId, next, merge, status, -, -, hresets, heq⟩ | ⟨hresets, heq⟩
  · rw [heq, hresets]
    exact iff_of_true (found_execute hfound) (fun hfalse => absurd hfalse (by decide))
  · rw [hresets]
    exact iff_of_true (hsame.found hfound) (fun hfalse => absurd hfalse (by decide))
  · rw [heq, hresets]
    exact iff_of_true (found_finish h hfound) (fun hfalse => absurd hfalse (by decide))
  · rw [heq, hresets, found_reset_iff h]
    exact ⟨fun hnone _ => hnone, fun hnone => hnone rfl⟩

/-! ## Runs -/

section Runs

variable {actions : List (ConnectionAction V)}

theorem accounted_of_run (hfresh : ReplayMeets step Fresh actions (initial : QueryRun V)) :
    (replay step actions (initial : QueryRun V)).Accounted :=
  replay_invariant Accounted (fun action _ => accounted_step action) accounted_initial hfresh

/-- What finished earlier is remembered. -/
theorem finished_prefix (actions : List (ConnectionAction V)) (run : QueryRun V) :
    ∃ later, (replay step actions run).finished = run.finished ++ later := by
  induction actions generalizing run with
  | nil => exact ⟨[], (append_nil _).symm⟩
  | cons action actions ih =>
    obtain ⟨later, hlater⟩ := ih (step action run)
    exact ⟨action.finishes run.state ++ later, by rw [replay_cons, hlater, step, append_assoc]⟩

theorem status_of_later {front middle : List (ConnectionAction V)} {id : ℕ}
    {query query' : QueryExecutionState V}
    (hfront : (replay step front (initial : QueryRun V)).Accounted)
    (hmiddle : (replay step (front ++ middle) (initial : QueryRun V)).Accounted)
    (hget : (replay step front (initial : QueryRun V)).state.queriesFinished.get? id = some query)
    (hget' : (replay step (front ++ middle) (initial : QueryRun V)).state.queriesFinished.get? id =
      some query') : query'.status = query.status := by
  have hstatus := hfront.status id query hget
  have hstatus' := hmiddle.status id query' hget'
  have hnodup := hmiddle.finishedNodup
  obtain ⟨later, hlater⟩ := finished_prefix middle (replay step front (initial : QueryRun V))
  rw [← replay_append] at hlater
  have hearlier : (id, query.status) ∈
      (replay step (front ++ middle) (initial : QueryRun V)).finished := by
    rw [hlater]
    exact mem_append_left _ hstatus
  rw [hmiddle.finishedOrder] at hnodup
  have hentry := inj_on_of_nodup_map hnodup hstatus' hearlier rfl
  exact congrArg Prod.snd hentry

/-- In a run where ids are never used twice, the maps and the lists are in step in all states, and
no action changes the status of a finished query, exactly if every reset comes before the first
query. -/
theorem inStep_of_run_iff (hfresh : ReplayMeets step Fresh actions (initial : QueryRun V)) :
    ((∀ front back, actions = front ++ back → (replay step front (initial : QueryRun V)).InStep) ∧
      ∀ front middle back, actions = front ++ middle ++ back → ∀ id query query',
        (replay step front (initial : QueryRun V)).state.queriesFinished.get? id = some query →
        (replay step (front ++ middle) (initial : QueryRun V)).state.queriesFinished.get? id =
          some query' → query'.status = query.status) ↔
      ReplayMeets step ResetsUnused actions (initial : QueryRun V) := by
  have haccounted : ∀ front back, actions = front ++ back →
      (replay step front (initial : QueryRun V)).Accounted := by
    intro front back hsplit
    exact accounted_of_run (ReplayMeets.left (hsplit ▸ hfresh))
  have hstatus : ∀ front middle back, actions = front ++ middle ++ back → ∀ id query query',
      (replay step front (initial : QueryRun V)).state.queriesFinished.get? id = some query →
      (replay step (front ++ middle) (initial : QueryRun V)).state.queriesFinished.get? id =
        some query' → query'.status = query.status := by
    intro front middle back hsplit id query query'
    exact status_of_later (haccounted front (middle ++ back) (by rw [hsplit, append_assoc]))
      (haccounted (front ++ middle) back hsplit)
  rw [and_iff_left hstatus, ← replay_invariant_iff_of_allowed Accounted Found
    (fun action _ => accounted_step action) (fun action _ => found_step_iff action) hfresh
    accounted_initial found_initial]
  refine forall_congr' fun front => forall_congr' fun back => forall_congr' fun hsplit => ?_
  exact inStep_iff (haccounted front back hsplit)

end Runs

/-! ## A run with a reset -/

/-- Queries without values. -/
def unitValues : QueryValues where
  Schema := Unit
  Batch := Unit
  Table := Unit
  ResponseStream := Unit
  LoggableException := Unit
  schema := id

def requested (queryId : ℕ) : QueryExecutionState V where
  queryId
  status := .requested
  metrics :=
    { queryPreparingStartedAt := none, querySendingStartedAt := none, queryQueuedStartedAt := none
      queryRunningStartedAt := none, receivedFirstBatchAt := none, receivedLastBatchAt := none
      receivedAllBatchesAt := none, processingResultsStartedAt := none, processedResultsAt := none
      querySucceededAt := none, queryFailedAt := none, queryCancelledAt := none
      lastUpdatedAt := none, progressUpdatesReceived := 0, queryDurationMs := none
      streamMetrics := createQueryResponseStreamMetrics }
  resultStream := none
  error := none
  latestProgressUpdate := none
  resultSchema := none
  resultBatches := []
  resultMetadata := none
  resultTable := none
  cacheKey := none
  servedFromCache := false
  cacheDeleted := false
  cachedAt := none

/-- A reset after a query leaves its id in the list. -/
theorem listed_after_reset :
    ¬ (replay step [.query 0 (.executeQuery 1 (requested 1)), .resetConnection]
      (initial : QueryRun unitValues)).InStep := by
  intro hinStep
  have hmem := (hinStep.active 1).mp (by decide)
  exact absurd hmem (by decide)

/-- A query that finishes, with a late action behind. -/
theorem inStep_of_run_iff_late :
    ((∀ front back, [ConnectionAction.query 0 (.executeQuery 1 (requested 1)),
        .query 5 (.querySucceeded 1), .query 6 (.queryPreparing 1)] = front ++ back →
        (replay step front (initial : QueryRun unitValues)).InStep) ∧
      ∀ front middle back, [ConnectionAction.query 0 (.executeQuery 1 (requested 1)),
        .query 5 (.querySucceeded 1), .query 6 (.queryPreparing 1)] = front ++ middle ++ back →
        ∀ id query query',
        (replay step front (initial : QueryRun unitValues)).state.queriesFinished.get? id =
          some query →
        (replay step (front ++ middle) (initial : QueryRun unitValues)).state.queriesFinished.get? id =
          some query' → query'.status = query.status) ↔
      ReplayMeets step ResetsUnused [.query 0 (.executeQuery 1 (requested 1)),
        .query 5 (.querySucceeded 1), .query 6 (.queryPreparing 1)]
        (initial : QueryRun unitValues) :=
  inStep_of_run_iff (by decide)

end QueryRun

end DashQL.Connection
