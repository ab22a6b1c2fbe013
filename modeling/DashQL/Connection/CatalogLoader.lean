import DashQL.Connection.CatalogUpdates
import DashQL.Library.Replay

/-!
# The catalog loader

Requests to refresh the catalog of a notebook are put into a queue.  An effect looks at the queue
whenever there is a new state of it, starts refreshes, and takes the requests that it has
processed out of the queue.  Changes of the queue and actions on connections are not applied at
once: they wait until React renders, or until the pending actions are flushed.

What the effect remembers of its own updates is lost, since the set is never stored in the ref.
A request is skipped without leaving the queue if a task is running or if there is a last full
refresh: the time since that one is subtracted the wrong way round.  Where requests do not run
into this, the loader does what is asked of it (`loader_sound_of_run`).
-/

namespace DashQL.Connection

open List

def catalogRefreshAfter : ℤ := 60 * 1000

/-! ## State -/

/-- A refresh that the loader has started and that has not completed. -/
structure CatalogRefresh where
  updateId : ℕ
  notebookId : String
  aborted : Bool
  deriving DecidableEq

/-- The updaters that are given to `setQueueState`. -/
inductive QueueUpdater where
  | enqueue (notebookId : String) (force : Bool)
  | remove (processed : List String)

/-- The provider with the connections and with what is still to be applied. -/
structure CatalogLoader where
  queue : InsertionMap String Bool
  updaters : List QueueUpdater
  connections : InsertionMap String CatalogState
  pendingActions : List (String × CatalogAction)
  nextCatalogUpdateId : ℕ
  refreshes : List CatalogRefresh
  updatesInProgress : Option (List String)
  executorConfigured : Bool

def CatalogLoader.initial (connections : InsertionMap String CatalogState)
    (executorConfigured : Bool) : CatalogLoader where
  queue := .empty
  updaters := []
  connections := connections
  pendingActions := []
  nextCatalogUpdateId := 1
  refreshes := []
  updatesInProgress := none
  executorConfigured := executorConfigured

/-! ## The effect -/

/-- What the effect does with a request. -/
inductive RequestDecision where
  | alreadyUpdating
  | unresolved
  | redundant
  | restored
  | recent
  | start
  deriving DecidableEq

def lastRefresh (updates : CatalogUpdates) : Option CatalogUpdateTaskState :=
  updates.lastFullRefresh.bind fun id =>
    (updates.tasksRunning.get? id).or (updates.tasksFinished.get? id)

/-- The time that is compared with `CATALOG_REFRESH_AFTER`. -/
def elapsedSince (now : ℤ) (refresh : CatalogUpdateTaskState) : ℤ :=
  refresh.finishedAt.getD now - now

/-- Whether there was a recent refresh, as the effect sees it. -/
def skipsAsRecent (now : ℤ) (updates : CatalogUpdates) : Bool :=
  match lastRefresh updates with
  | some refresh => decide (elapsedSince now refresh < catalogRefreshAfter)
  | none => false

/-- The checks of the loop over the queue. -/
def decideRequest (now : ℤ) (inProgress : List String)
    (connections : InsertionMap String CatalogState) (notebookId : String) (force : Bool) :
    RequestDecision :=
  if notebookId ∈ inProgress then .alreadyUpdating
  else
    match connections.get? notebookId with
    | none => .unresolved
    | some connState =>
      if connState.catalogUpdates.tasksRunning.entries ≠ [] ∧ force = false then .redundant
      else if force = false ∧ connState.catalogUpdates.restoredAt.isSome then .restored
      else if force = false ∧ skipsAsRecent now connState.catalogUpdates = true then .recent
      else .start

def startedTask (updateId : ℕ) (now : ℤ) : CatalogUpdateTaskState where
  taskId := updateId
  taskVariant := .fullCatalogRefresh
  status := .started
  queries := []
  error := none
  startedAt := some now
  finishedAt := none
  lastUpdateAt := some now

namespace CatalogLoader

def abortTasks (updateIds : List ℕ) (loader : CatalogLoader) : CatalogLoader :=
  { loader with
    refreshes := loader.refreshes.map fun refresh =>
      { refresh with aborted := refresh.aborted || decide (refresh.updateId ∈ updateIds) } }

/-- `update`, up to where it waits.  Without an executor it fails before the connection hears of
it. -/
def update (now : ℤ) (notebookId : String) (loader : CatalogLoader) : CatalogLoader :=
  let updateId := loader.nextCatalogUpdateId
  let allocated := { loader with nextCatalogUpdateId := updateId + 1 }
  if loader.executorConfigured then
    { allocated with
      refreshes := allocated.refreshes ++ [⟨updateId, notebookId, false⟩]
      pendingActions := allocated.pendingActions ++
        [(notebookId, .updateCatalog updateId (startedTask updateId now))] }
  else allocated

end CatalogLoader

/-- The variables of the effect, with the requests that it has decided. -/
structure EffectState where
  loader : CatalogLoader
  inProgress : List String
  processed : List String
  started : List String
  skipped : List String

/-- A round of the loop over the queue. -/
def effectRound (now : ℤ) (state : EffectState) (request : String × Bool) : EffectState :=
  let notebookId := request.1
  match decideRequest now state.inProgress state.loader.connections notebookId request.2 with
  | .alreadyUpdating => state
  | .unresolved => state
  | .redundant => { state with skipped := state.skipped ++ [notebookId] }
  | .restored =>
    { state with
      skipped := state.skipped ++ [notebookId]
      processed := state.processed ++ [notebookId] }
  | .recent => { state with skipped := state.skipped ++ [notebookId] }
  | .start =>
    let updateIds := ((state.loader.connections.get? notebookId).map fun connState =>
      connState.catalogUpdates.tasksRunning.keys).getD []
    { state with
      loader := (state.loader.abortTasks updateIds).update now notebookId
      inProgress := state.inProgress ++ [notebookId]
      started := state.started ++ [notebookId]
      processed := state.processed ++ [notebookId] }

def effectLoop (now : ℤ) (loader : CatalogLoader) : EffectState :=
  loader.queue.entries.foldl (effectRound now)
    { loader := loader
      inProgress := loader.updatesInProgress.getD []
      processed := []
      started := []
      skipped := [] }

/-- The requests that the effect starts or skips. -/
def EffectState.decided (state : EffectState) : List String := state.started ++ state.skipped

namespace CatalogLoader

def runEffect (now : ℤ) (loader : CatalogLoader) : CatalogLoader :=
  let state := effectLoop now loader
  if state.processed = [] then state.loader
  else { state.loader with updaters := state.loader.updaters ++ [.remove state.processed] }

/-! ## Runs -/

/-- An updater is applied to the map, which is changed in place. -/
def applyUpdater (queue : InsertionMap String Bool) : QueueUpdater → InsertionMap String Bool
  | .enqueue notebookId force => queue.set notebookId force
  | .remove processed => processed.foldl InsertionMap.delete queue

/-- The queue once everything that waits is applied. -/
def followingQueue (loader : CatalogLoader) : InsertionMap String Bool :=
  loader.updaters.foldl applyUpdater loader.queue

/-- An action is reduced if its connection is registered. -/
def applyAction (now : ℤ) (connections : InsertionMap String CatalogState)
    (action : String × CatalogAction) : InsertionMap String CatalogState :=
  match connections.get? action.1 with
  | none => connections
  | some connState => connections.set action.1 (reduceCatalogAction now action.2 connState).1

end CatalogLoader

/-- How a refresh ends. -/
inductive RefreshOutcome where
  | succeeded
  | failed (error : String)
  | cancelled (error : String)

/-- The action that tells the connection of it. -/
def RefreshOutcome.action (updateId : ℕ) : RefreshOutcome → CatalogAction
  | .succeeded => .catalogUpdateSucceeded updateId
  | .failed error => .catalogUpdateFailed updateId error
  | .cancelled error => .catalogUpdateCancelled updateId error

inductive LoaderEvent where
  /-- A request is put into the queue. -/
  | enqueue (notebookId : String) (force : Bool)
  /-- The updaters are applied, and there is a new queue state. -/
  | renderQueue
  /-- The effect runs. -/
  | effect (now : ℤ)
  /-- A running refresh completes. -/
  | complete (updateId : ℕ) (outcome : RefreshOutcome)
  /-- The pending actions are reduced. -/
  | flushActions (now : ℤ)

namespace CatalogLoader

/-- A refresh that completes dispatches its last action. -/
def complete (updateId : ℕ) (outcome : RefreshOutcome) (loader : CatalogLoader) : CatalogLoader :=
  match loader.refreshes.find? fun refresh => refresh.updateId = updateId with
  | none => loader
  | some refresh =>
    { loader with
      refreshes := loader.refreshes.filter fun refresh => refresh.updateId ≠ updateId
      pendingActions := loader.pendingActions ++ [(refresh.notebookId, outcome.action updateId)] }

def step (event : LoaderEvent) (loader : CatalogLoader) : CatalogLoader :=
  match event with
  | .enqueue notebookId force =>
    { loader with updaters := loader.updaters ++ [.enqueue notebookId force] }
  | .renderQueue => { loader with queue := loader.followingQueue, updaters := [] }
  | .effect now => loader.runEffect now
  | .complete updateId outcome => loader.complete updateId outcome
  | .flushActions now =>
    { loader with
      connections := loader.pendingActions.foldl (applyAction now) loader.connections
      pendingActions := [] }

/-! ## What is asked of the loader -/

/-- The last full refresh finished less than `CATALOG_REFRESH_AFTER` before now. -/
def RecentlyRefreshed (now : ℤ) (updates : CatalogUpdates) : Prop :=
  ∃ id ∈ updates.lastFullRefresh, ∃ refresh ∈ updates.tasksFinished.get? id,
    ∃ finishedAt ∈ refresh.finishedAt, now - finishedAt < catalogRefreshAfter

/-- The effect starts a refresh for a request on a known connection without a refresh of its own,
unless the request is not forced and a task is running, the catalog was restored, or there was a
recent refresh. -/
def StartsRequests (now : ℤ) (loader : CatalogLoader) : Prop :=
  ∀ request ∈ loader.queue.entries, ∀ connState ∈ loader.connections.get? request.1,
    (∀ refresh ∈ loader.refreshes, refresh.notebookId ≠ request.1) →
    request.1 ∈ (effectLoop now loader).started ∨
      request.2 = false ∧ (connState.catalogUpdates.tasksRunning.entries ≠ [] ∨
        connState.catalogUpdates.restoredAt.isSome ∨
        RecentlyRefreshed now connState.catalogUpdates)

/-- What the effect has decided has left the queue in the following queue state. -/
def DecidedLeave (now : ℤ) (loader : CatalogLoader) : Prop :=
  ∀ notebookId ∈ (effectLoop now loader).decided,
    notebookId ∉ (loader.runEffect now).followingQueue.keys

/-- No notebook has two refreshes running that are not aborted. -/
def OneRefresh (loader : CatalogLoader) : Prop :=
  loader.refreshes.Pairwise fun refresh other =>
    refresh.notebookId = other.notebookId → refresh.aborted = true ∨ other.aborted = true

/-- A request that the effect gets right.  An unforced one finds no running task and no full
refresh that it takes for recent, and if a refresh is started, the connection knows of all that
are running and not aborted. -/
def Manageable (now : ℤ) (loader : CatalogLoader) (notebookId : String) (force : Bool)
    (connState : CatalogState) : Prop :=
  (force = false → connState.catalogUpdates.tasksRunning.entries = [] ∧
    (connState.catalogUpdates.restoredAt.isSome ∨
      skipsAsRecent now connState.catalogUpdates = false)) ∧
  ((force = true ∨ connState.catalogUpdates.restoredAt = none) →
    ∀ refresh ∈ loader.refreshes, refresh.notebookId = notebookId →
      refresh.aborted = true ∨ refresh.updateId ∈ connState.catalogUpdates.tasksRunning.keys)

/-- The effect gets all requests on known connections right. -/
def AllManageable (now : ℤ) (loader : CatalogLoader) : Prop :=
  ∀ request ∈ loader.queue.entries, ∀ connState ∈ loader.connections.get? request.1,
    Manageable now loader request.1 request.2 connState

/-- The effect runs only when it gets all requests on known connections right. -/
def Condition (event : LoaderEvent) (loader : CatalogLoader) : Prop :=
  match event with
  | .effect now => loader.AllManageable now
  | _ => True

instance (now : ℤ) (updates : CatalogUpdates) : Decidable (RecentlyRefreshed now updates) :=
  inferInstanceAs (Decidable (∃ id ∈ updates.lastFullRefresh, ∃ refresh ∈ _,
    ∃ finishedAt ∈ _, _ < _))

instance (now : ℤ) (loader : CatalogLoader) : Decidable (loader.StartsRequests now) :=
  inferInstanceAs (Decidable (∀ request ∈ loader.queue.entries, ∀ connState ∈ _, _ → _))

instance (now : ℤ) (loader : CatalogLoader) (notebookId : String) (force : Bool)
    (connState : CatalogState) : Decidable (Manageable now loader notebookId force connState) :=
  inferInstanceAs (Decidable (_ ∧ _))

instance (now : ℤ) (loader : CatalogLoader) : Decidable (loader.AllManageable now) :=
  inferInstanceAs (Decidable (∀ request ∈ loader.queue.entries, ∀ connState ∈ _, _))

instance (event : LoaderEvent) (loader : CatalogLoader) : Decidable (loader.Condition event) :=
  match event with
  | .effect now => inferInstanceAs (Decidable (loader.AllManageable now))
  | .enqueue _ _ => isTrue trivial
  | .renderQueue => isTrue trivial
  | .complete _ _ => isTrue trivial
  | .flushActions _ => isTrue trivial

end CatalogLoader

/-! ## The loop over the queue -/

/-- The requests that are taken out of the queue. -/
def RequestDecision.processes (decision : RequestDecision) : Prop :=
  decision = .start ∨ decision = .restored

/-- The requests that are skipped. -/
def RequestDecision.skips (decision : RequestDecision) : Prop :=
  decision = .redundant ∨ decision = .restored ∨ decision = .recent

instance (decision : RequestDecision) : Decidable decision.processes :=
  inferInstanceAs (Decidable (_ ∨ _))

instance (decision : RequestDecision) : Decidable decision.skips :=
  inferInstanceAs (Decidable (_ ∨ _))

section Loop

variable {now : ℤ} {state : EffectState} {request : String × Bool}
  {requests : List (String × Bool)}

theorem effectRound_spec {decision : RequestDecision}
    (hdecision : decideRequest now state.inProgress state.loader.connections request.1 request.2 =
      decision) :
    (effectRound now state request).started =
        state.started ++ (if decision = .start then [request.1] else []) ∧
      (effectRound now state request).inProgress =
        state.inProgress ++ (if decision = .start then [request.1] else []) ∧
      (effectRound now state request).processed =
        state.processed ++ (if decision.processes then [request.1] else []) ∧
      (effectRound now state request).skipped =
        state.skipped ++ (if decision.skips then [request.1] else []) := by
  unfold effectRound
  dsimp only
  rw [hdecision]
  cases decision <;> simp [RequestDecision.processes, RequestDecision.skips]

/-- The loader changes only when a refresh is started. -/
theorem effectRound_loader (now : ℤ) (state : EffectState) (request : String × Bool) :
    (effectRound now state request).loader.queue = state.loader.queue ∧
      (effectRound now state request).loader.updaters = state.loader.updaters ∧
      (effectRound now state request).loader.connections = state.loader.connections := by
  unfold effectRound
  dsimp only
  cases decideRequest now state.inProgress state.loader.connections request.1 request.2 with
  | start =>
    dsimp only
    unfold CatalogLoader.update
    dsimp only
    split_ifs <;> exact ⟨rfl, rfl, rfl⟩
  | alreadyUpdating => exact ⟨rfl, rfl, rfl⟩
  | unresolved => exact ⟨rfl, rfl, rfl⟩
  | redundant => exact ⟨rfl, rfl, rfl⟩
  | restored => exact ⟨rfl, rfl, rfl⟩
  | recent => exact ⟨rfl, rfl, rfl⟩

/-- The decision on a request that the effect has not started in the same run. -/
def decisionOf (now : ℤ) (connections : InsertionMap String CatalogState)
    (request : String × Bool) : RequestDecision :=
  decideRequest now [] connections request.1 request.2

theorem decideRequest_of_not_mem (now : ℤ) {inProgress : List String}
    (connections : InsertionMap String CatalogState) (h : request.1 ∉ inProgress) :
    decideRequest now inProgress connections request.1 request.2 =
      decisionOf now connections request := by
  unfold decisionOf decideRequest
  rw [if_neg h, if_neg not_mem_nil]

theorem loop_spec (now : ℤ) (state : EffectState) (hnodup : (requests.map Prod.fst).Nodup)
    (hfresh : ∀ request ∈ requests, request.1 ∉ state.inProgress) :
    (requests.foldl (effectRound now) state).started = state.started ++
        (requests.filter fun request =>
          decide (decisionOf now state.loader.connections request = .start)).map Prod.fst ∧
      (requests.foldl (effectRound now) state).processed = state.processed ++
        (requests.filter fun request =>
          decide (decisionOf now state.loader.connections request).processes).map Prod.fst ∧
      (requests.foldl (effectRound now) state).skipped = state.skipped ++
        (requests.filter fun request =>
          decide (decisionOf now state.loader.connections request).skips).map Prod.fst ∧
      (requests.foldl (effectRound now) state).loader.queue = state.loader.queue ∧
      (requests.foldl (effectRound now) state).loader.updaters = state.loader.updaters ∧
      (requests.foldl (effectRound now) state).loader.connections = state.loader.connections := by
  induction requests generalizing state with
  | nil => simp
  | cons request requests ih =>
    rw [map_cons, nodup_cons] at hnodup
    have hdecision := decideRequest_of_not_mem now state.loader.connections
      (hfresh request (by simp))
    obtain ⟨hstarted, hprogress, hprocessed, hskipped⟩ := effectRound_spec hdecision
    obtain ⟨hqueue, hupdaters, hconnections⟩ := effectRound_loader now state request
    have hnext : ∀ other ∈ requests, other.1 ∉ (effectRound now state request).inProgress := by
      intro other hother hmem
      rw [hprogress, mem_append] at hmem
      obtain hmem | hmem := hmem
      · exact hfresh other (mem_cons_of_mem _ hother) hmem
      · split_ifs at hmem
        · rw [mem_singleton] at hmem
          exact hnodup.1 (hmem ▸ mem_map_of_mem hother)
        · exact absurd hmem not_mem_nil
    obtain ⟨h₁, h₂, h₃, h₄, h₅, h₆⟩ := ih _ hnodup.2 hnext
    rw [hconnections] at h₁ h₂ h₃ h₆
    refine ⟨?_, ?_, ?_, h₄.trans hqueue, h₅.trans hupdaters, h₆⟩
    · rw [foldl_cons, h₁, hstarted, filter_cons]
      split_ifs <;> simp_all
    · rw [foldl_cons, h₂, hprocessed, filter_cons]
      split_ifs <;> simp_all
    · rw [foldl_cons, h₃, hskipped, filter_cons]
      split_ifs <;> simp_all

end Loop

/-! ## The effect -/

section Effect

variable {now : ℤ} {loader : CatalogLoader} {notebookId : String}

theorem mem_map_fst_filter {queue : InsertionMap String Bool} {p : String × Bool → Bool} :
    notebookId ∈ (queue.entries.filter p).map Prod.fst ↔
      ∃ force, queue.get? notebookId = some force ∧ p (notebookId, force) = true := by
  simp only [mem_map, mem_filter, InsertionMap.get?_eq_some_iff]
  constructor
  · rintro ⟨request, ⟨hmem, hp⟩, rfl⟩
    exact ⟨request.2, hmem, hp⟩
  · rintro ⟨force, hmem, hp⟩
    exact ⟨(notebookId, force), ⟨hmem, hp⟩, rfl⟩

/-- The loop of the effect, as long as the ref is not assigned. -/
theorem effectLoop_spec (now : ℤ) (h : loader.updatesInProgress = none) :
    (effectLoop now loader).started = (loader.queue.entries.filter fun request =>
        decide (decisionOf now loader.connections request = .start)).map Prod.fst ∧
      (effectLoop now loader).processed = (loader.queue.entries.filter fun request =>
        decide (decisionOf now loader.connections request).processes).map Prod.fst ∧
      (effectLoop now loader).skipped = (loader.queue.entries.filter fun request =>
        decide (decisionOf now loader.connections request).skips).map Prod.fst ∧
      (effectLoop now loader).loader.queue = loader.queue ∧
      (effectLoop now loader).loader.updaters = loader.updaters := by
  obtain ⟨h₁, h₂, h₃, h₄, h₅, -⟩ := loop_spec now
    ⟨loader, loader.updatesInProgress.getD [], [], [], []⟩ loader.queue.nodup (by
      rw [h]
      exact fun _ _ => not_mem_nil)
  exact ⟨h₁, h₂, h₃, h₄, h₅⟩

theorem mem_keys_foldl_delete {queue : InsertionMap String Bool} {processed : List String} :
    notebookId ∈ (processed.foldl InsertionMap.delete queue).keys ↔
      notebookId ∉ processed ∧ notebookId ∈ queue.keys := by
  induction processed generalizing queue with
  | nil => simp
  | cons first processed ih =>
    rw [foldl_cons, ih, InsertionMap.mem_keys_delete, mem_cons, not_or]
    tauto

theorem not_mem_followingQueue
    (hprocessed : notebookId ∈ (effectLoop now loader).processed) :
    notebookId ∉ (loader.runEffect now).followingQueue.keys := by
  have hne : (effectLoop now loader).processed ≠ [] := ne_nil_of_mem hprocessed
  unfold CatalogLoader.runEffect
  dsimp only
  rw [if_neg hne]
  unfold CatalogLoader.followingQueue
  dsimp only
  rw [foldl_append, foldl_cons, foldl_nil]
  show notebookId ∉ ((effectLoop now loader).processed.foldl InsertionMap.delete _).keys
  rw [mem_keys_foldl_delete]
  exact fun hmem => hmem.1 hprocessed

theorem decisionOf_of_manageable {force : Bool} {connState : CatalogState}
    (hconnection : loader.connections.get? notebookId = some connState)
    (h : loader.Manageable now notebookId force connState) :
    decisionOf now loader.connections (notebookId, force) =
      if force = false ∧ connState.catalogUpdates.restoredAt.isSome then .restored else .start := by
  unfold decisionOf decideRequest
  rw [if_neg not_mem_nil]
  dsimp only
  rw [hconnection]
  dsimp only
  cases force with
  | true => simp
  | false =>
    obtain ⟨hrunning, hrecent⟩ := h.1 rfl
    rw [if_neg (fun hne => hne.1 hrunning)]
    by_cases hrestored : connState.catalogUpdates.restoredAt.isSome
    · rw [if_pos ⟨rfl, hrestored⟩, if_pos ⟨rfl, hrestored⟩]
    · have hnot : ¬ (false = false ∧ connState.catalogUpdates.restoredAt.isSome) :=
        fun h => hrestored h.2
      rw [if_neg hnot, if_neg hnot, hrecent.resolve_left hrestored]
      simp

theorem exists_connection_of_decision {request : String × Bool}
    (h : (decisionOf now loader.connections request).processes ∨
      (decisionOf now loader.connections request).skips) :
    ∃ connState, loader.connections.get? request.1 = some connState := by
  unfold decisionOf decideRequest at h
  rw [if_neg not_mem_nil] at h
  cases hget : loader.connections.get? request.1 with
  | some connState => exact ⟨connState, rfl⟩
  | none =>
    rw [hget] at h
    simp [RequestDecision.processes, RequestDecision.skips] at h

theorem startsRequests_of_condition (h : loader.updatesInProgress = none)
    (hcondition : loader.AllManageable now) : loader.StartsRequests now := by
  intro request hrequest connState hconnection _
  have hdecision := decisionOf_of_manageable hconnection
    (hcondition request hrequest connState hconnection)
  by_cases hrestored : request.2 = false ∧ connState.catalogUpdates.restoredAt.isSome
  · exact Or.inr ⟨hrestored.1, Or.inr (Or.inl hrestored.2)⟩
  · rw [if_neg hrestored] at hdecision
    refine Or.inl ?_
    rw [(effectLoop_spec now h).1]
    exact mem_map_of_mem (mem_filter.mpr ⟨hrequest, decide_eq_true hdecision⟩)

theorem decidedLeave_of_condition (h : loader.updatesInProgress = none)
    (hcondition : loader.AllManageable now) : loader.DecidedLeave now := by
  obtain ⟨hstarted, hprocessed, hskipped, -⟩ := effectLoop_spec now h
  intro notebookId hdecided
  apply not_mem_followingQueue
  rw [EffectState.decided, mem_append, hstarted, hskipped, mem_map_fst_filter,
    mem_map_fst_filter] at hdecided
  rw [hprocessed, mem_map_fst_filter]
  have hfound : ∃ force, loader.queue.get? notebookId = some force ∧
      ((decisionOf now loader.connections (notebookId, force)).processes ∨
        (decisionOf now loader.connections (notebookId, force)).skips) := by
    obtain ⟨force, hqueue, hstart⟩ | ⟨force, hqueue, hskip⟩ := hdecided
    · exact ⟨force, hqueue, Or.inl (Or.inl (of_decide_eq_true hstart))⟩
    · exact ⟨force, hqueue, Or.inr (of_decide_eq_true hskip)⟩
  obtain ⟨force, hqueue, hdecision⟩ := hfound
  obtain ⟨connState, hconnection⟩ := exists_connection_of_decision hdecision
  refine ⟨force, hqueue, decide_eq_true ?_⟩
  have hmem := InsertionMap.get?_eq_some_iff.mp hqueue
  rw [decisionOf_of_manageable hconnection (hcondition _ hmem connState hconnection)]
  split_ifs
  · exact Or.inr rfl
  · exact Or.inl rfl

/-! ## Refreshes that run at once -/

/-- Aborting what the connection knows of before starting leaves one refresh. -/
theorem oneRefresh_update {updateIds : List ℕ} (h : loader.OneRefresh)
    (hknown : ∀ refresh ∈ loader.refreshes, refresh.notebookId = notebookId →
      refresh.aborted = true ∨ refresh.updateId ∈ updateIds) :
    ((loader.abortTasks updateIds).update now notebookId).OneRefresh := by
  have haborted : (loader.abortTasks updateIds).OneRefresh := by
    unfold CatalogLoader.OneRefresh CatalogLoader.abortTasks
    rw [pairwise_map]
    refine h.imp ?_
    intro refresh other hone hsame
    rw [Bool.or_eq_true, Bool.or_eq_true]
    exact (hone hsame).imp Or.inl Or.inl
  unfold CatalogLoader.update
  dsimp only
  split_ifs
  · refine pairwise_append.mpr ⟨haborted, pairwise_singleton _ _, ?_⟩
    intro refresh hrefresh other hother hsame
    rw [mem_singleton.mp hother] at hsame
    obtain ⟨earlier, hearlier, rfl⟩ := mem_map.mp hrefresh
    refine Or.inl ?_
    rw [Bool.or_eq_true, decide_eq_true_eq]
    exact hknown earlier hearlier hsame
  · exact haborted

theorem mem_refreshes_update {updateIds : List ℕ} {refresh : CatalogRefresh}
    (h : refresh ∈ ((loader.abortTasks updateIds).update now notebookId).refreshes) :
    refresh.notebookId = notebookId ∨ ∃ earlier ∈ loader.refreshes,
      refresh.notebookId = earlier.notebookId ∧ refresh.updateId = earlier.updateId ∧
        (earlier.aborted = true → refresh.aborted = true) := by
  have hearlier : ∀ refresh ∈ (loader.abortTasks updateIds).refreshes, ∃ earlier ∈ loader.refreshes,
      refresh.notebookId = earlier.notebookId ∧ refresh.updateId = earlier.updateId ∧
        (earlier.aborted = true → refresh.aborted = true) := by
    intro refresh hrefresh
    obtain ⟨earlier, hmem, rfl⟩ := mem_map.mp hrefresh
    refine ⟨earlier, hmem, rfl, rfl, ?_⟩
    intro haborted
    rw [Bool.or_eq_true]
    exact Or.inl haborted
  unfold CatalogLoader.update at h
  dsimp only at h
  split_ifs at h
  · obtain hold | hnew := mem_append.mp h
    · exact Or.inr (hearlier refresh hold)
    · rw [mem_singleton.mp hnew]
      exact Or.inl rfl
  · exact Or.inr (hearlier refresh h)

theorem oneRefresh_loop {requests : List (String × Bool)} {state : EffectState}
    (hnodup : (requests.map Prod.fst).Nodup)
    (hfresh : ∀ request ∈ requests, request.1 ∉ state.inProgress) (h : state.loader.OneRefresh)
    (hknown : ∀ request ∈ requests, ∀ connState,
      state.loader.connections.get? request.1 = some connState →
      decisionOf now state.loader.connections request = .start →
      ∀ refresh ∈ state.loader.refreshes, refresh.notebookId = request.1 →
        refresh.aborted = true ∨ refresh.updateId ∈ connState.catalogUpdates.tasksRunning.keys) :
    (requests.foldl (effectRound now) state).loader.OneRefresh := by
  induction requests generalizing state with
  | nil => exact h
  | cons request requests ih =>
    rw [map_cons, nodup_cons] at hnodup
    have hdecision := decideRequest_of_not_mem now state.loader.connections
      (hfresh request (by simp))
    obtain ⟨-, hprogress, -, -⟩ := effectRound_spec hdecision
    obtain ⟨-, -, hconnections⟩ := effectRound_loader now state request
    have hother : ∀ other ∈ requests, other.1 ≠ request.1 := by
      intro other hmem heq
      exact hnodup.1 (heq ▸ mem_map_of_mem hmem)
    have hnext : ∀ other ∈ requests, other.1 ∉ (effectRound now state request).inProgress := by
      intro other hmem
      rw [hprogress, mem_append, not_or]
      refine ⟨hfresh other (mem_cons_of_mem _ hmem), ?_⟩
      split_ifs
      · rw [mem_singleton]
        exact hother other hmem
      · exact not_mem_nil
    rw [foldl_cons]
    by_cases hstart : decisionOf now state.loader.connections request = .start
    · obtain ⟨connState, hconnection⟩ :=
        exists_connection_of_decision (Or.inl (Or.inl hstart))
      have hround : (effectRound now state request).loader = (state.loader.abortTasks
          connState.catalogUpdates.tasksRunning.keys).update now request.1 := by
        unfold effectRound
        dsimp only
        rw [hdecision, hstart, hconnection]
        rfl
      apply ih hnodup.2 hnext
      · rw [hround]
        exact oneRefresh_update h (hknown request (by simp) connState hconnection hstart)
      · rw [hconnections]
        intro other hmem connState' hconnection' hstart' refresh hrefresh hnotebook
        rw [hround] at hrefresh
        obtain hsame | ⟨earlier, hearlier, hsame, hid, haborted⟩ := mem_refreshes_update hrefresh
        · exact absurd (hnotebook.symm.trans hsame) (hother other hmem)
        · rw [hid]
          exact (hknown other (mem_cons_of_mem _ hmem) connState' hconnection' hstart'
            earlier hearlier (hsame.symm.trans hnotebook)).imp_left haborted
    · have hround : (effectRound now state request).loader = state.loader := by
        unfold effectRound
        dsimp only
        rw [hdecision]
        cases hcase : decisionOf now state.loader.connections request with
        | start => exact absurd hcase hstart
        | alreadyUpdating => rfl
        | unresolved => rfl
        | redundant => rfl
        | restored => rfl
        | recent => rfl
      apply ih hnodup.2 hnext
      · rw [hround]
        exact h
      · rw [hround]
        exact fun other hmem => hknown other (mem_cons_of_mem _ hmem)

/-- Where all requests are manageable, the effect leaves one refresh for each notebook. -/
theorem oneRefresh_of_condition (h : loader.updatesInProgress = none)
    (hone : loader.OneRefresh) (hcondition : loader.AllManageable now) :
    (loader.runEffect now).OneRefresh := by
  have hloop : (effectLoop now loader).loader.OneRefresh := by
    apply oneRefresh_loop loader.queue.nodup
    · rw [h]
      exact fun _ _ => not_mem_nil
    · exact hone
    · intro request hrequest connState hconnection hstart refresh hrefresh hnotebook
      have hmanageable := hcondition request hrequest connState hconnection
      refine hmanageable.2 ?_ refresh hrefresh hnotebook
      have hdecision := decisionOf_of_manageable hconnection hmanageable
      rw [hstart] at hdecision
      by_contra hnot
      rw [not_or, Bool.not_eq_true] at hnot
      rw [if_pos ⟨hnot.1, Option.isSome_iff_ne_none.mpr hnot.2⟩] at hdecision
      cases hdecision
  unfold CatalogLoader.runEffect
  dsimp only
  split_ifs
  · exact hloop
  · exact hloop

end Effect

/-! ## Runs of the loader -/

namespace CatalogLoader

variable {loader : CatalogLoader}

theorem updatesInProgress_effectRound (now : ℤ) (state : EffectState) (request : String × Bool) :
    (effectRound now state request).loader.updatesInProgress = state.loader.updatesInProgress := by
  unfold effectRound
  dsimp only
  cases decideRequest now state.inProgress state.loader.connections request.1 request.2 with
  | start =>
    dsimp only
    unfold CatalogLoader.update
    dsimp only
    split_ifs <;> rfl
  | alreadyUpdating => rfl
  | unresolved => rfl
  | redundant => rfl
  | restored => rfl
  | recent => rfl

/-- The ref is never assigned. -/
theorem updatesInProgress_step (event : LoaderEvent) (loader : CatalogLoader) :
    (loader.step event).updatesInProgress = loader.updatesInProgress := by
  cases event with
  | enqueue notebookId force => rfl
  | renderQueue => rfl
  | flushActions now => rfl
  | complete updateId outcome =>
    show (loader.complete updateId outcome).updatesInProgress = _
    unfold complete
    cases loader.refreshes.find? fun refresh => refresh.updateId = updateId with
    | none => rfl
    | some refresh => rfl
  | effect now =>
    have hloop : ∀ (requests : List (String × Bool)) (state : EffectState),
        (requests.foldl (effectRound now) state).loader.updatesInProgress =
          state.loader.updatesInProgress := by
      intro requests
      induction requests with
      | nil => exact fun _ => rfl
      | cons request requests ih =>
        intro state
        rw [foldl_cons, ih, updatesInProgress_effectRound]
    show (loader.runEffect now).updatesInProgress = _
    unfold runEffect
    dsimp only
    split_ifs
    · exact hloop _ _
    · exact hloop _ _

theorem oneRefresh_step (event : LoaderEvent) (loader : CatalogLoader)
    (h : loader.OneRefresh ∧ loader.updatesInProgress = none)
    (hcondition : loader.Condition event) :
    (loader.step event).OneRefresh ∧ (loader.step event).updatesInProgress = none := by
  refine ⟨?_, (updatesInProgress_step event loader).trans h.2⟩
  cases event with
  | enqueue notebookId force => exact h.1
  | renderQueue => exact h.1
  | flushActions now => exact h.1
  | effect now => exact oneRefresh_of_condition h.2 h.1 hcondition
  | complete updateId outcome =>
    show (loader.complete updateId outcome).OneRefresh
    unfold complete
    cases loader.refreshes.find? fun refresh => refresh.updateId = updateId with
    | none => exact h.1
    | some refresh => exact List.Pairwise.filter _ h.1

/-- In a run in which the effect finds only requests that it gets right, no notebook ever has two
refreshes running that are not aborted, and every run of the effect starts what it has to and takes
out of the queue what it has decided. -/
theorem loader_sound_of_run (connections : InsertionMap String CatalogState)
    (executorConfigured : Bool) (events : List LoaderEvent)
    (hcondition : ReplayMeets step (fun event loader => loader.Condition event) events
      (initial connections executorConfigured)) :
    (∀ front back, events = front ++ back →
        (replay step front (initial connections executorConfigured)).OneRefresh) ∧
      ∀ front now back, events = front ++ .effect now :: back →
        (replay step front (initial connections executorConfigured)).StartsRequests now ∧
          (replay step front (initial connections executorConfigured)).DecidedLeave now := by
  have hinvariant : ∀ front back, events = front ++ back →
      (replay step front (initial connections executorConfigured)).OneRefresh ∧
        (replay step front (initial connections executorConfigured)).updatesInProgress = none := by
    intro front back hsplit
    rw [hsplit] at hcondition
    exact replay_invariant _ oneRefresh_step ⟨List.Pairwise.nil, rfl⟩ hcondition.left
  refine ⟨fun front back hsplit => (hinvariant front back hsplit).1, ?_⟩
  intro front now back hsplit
  have hnone := (hinvariant front _ hsplit).2
  rw [hsplit] at hcondition
  have heffect := hcondition.right.1
  exact ⟨startsRequests_of_condition hnone heffect, decidedLeave_of_condition hnone heffect⟩

/-! ## A request that comes late -/

/-- One connection without refreshes, whose catalog was not restored. -/
def oneConnection : InsertionMap String CatalogState :=
  InsertionMap.empty.set "notebook"
    { notebookId := "notebook"
      active := true
      catalogUpdates := createCatalogUpdates
      catalogRelationScript := ""
      catalogFunctionScript := "" }

/-- A forced refresh supersedes another one, which ends later. -/
def supersede : List LoaderEvent :=
  [.enqueue "notebook" true, .renderQueue, .effect 0, .flushActions 0, .renderQueue,
    .enqueue "notebook" true, .renderQueue, .effect 500, .flushActions 500, .renderQueue,
    .complete 1 (.cancelled "superseded by forced catalog refresh"), .flushActions 600]

theorem loader_sound_of_run_supersede :
    (∀ front back, supersede = front ++ back →
        (replay step front (initial oneConnection true)).OneRefresh) ∧
      ∀ front now back, supersede = front ++ .effect now :: back →
        (replay step front (initial oneConnection true)).StartsRequests now ∧
          (replay step front (initial oneConnection true)).DecidedLeave now :=
  loader_sound_of_run oneConnection true supersede (by decide +kernel)

/-- A refresh that has finished long ago, and then an unforced request. -/
def refreshedLongAgo : List LoaderEvent :=
  [.enqueue "notebook" true, .renderQueue, .effect 0, .flushActions 0, .renderQueue,
    .complete 1 .succeeded, .flushActions 1000, .enqueue "notebook" false, .renderQueue]

/-- A quarter of an hour after the last refresh, a request is skipped as if it was recent. -/
theorem late_request_skipped :
    ¬ (replay step refreshedLongAgo (initial oneConnection true)).StartsRequests 901000 := by
  decide +kernel

end CatalogLoader

end DashQL.Connection
