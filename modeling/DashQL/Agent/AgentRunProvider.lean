import DashQL.Agent.AgentRunState
import DashQL.Library.Replay

/-!
# The agent run provider

The provider (`agent_run_provider.tsx`) keeps the states of all runs in a registry.
Actions are reduced into it as they are dispatched, but `run` and `cancel` read the
snapshot of the last render.  They find the live run of a notebook, and abort it, if
the snapshot has it as the latest run of the notebook; a call before the next render
finds an older run or none (`exclusive_of_run_iff`).
-/

namespace DashQL.Agent

open Function Option

/-! ## The registry -/

structure RegistryState where
  runs : ℕ → Option AgentRunState
  latestRunByNotebook : String → Option ℕ

def INITIAL_REGISTRY : RegistryState := ⟨fun _ => none, fun _ => none⟩

structure RegistryAction where
  notebookId : String
  runId : ℕ
  action : AgentRunAction

def reduceRegistry (prev : RegistryState) (mapAction : RegistryAction) : RegistryState where
  runs := Function.update prev.runs mapAction.runId
    (reduceAgentRun (prev.runs mapAction.runId) mapAction.action)
  latestRunByNotebook :=
    match mapAction.action with
    | .start _ =>
      Function.update prev.latestRunByNotebook mapAction.notebookId (some mapAction.runId)
    | _ => prev.latestRunByNotebook

/-! ## The provider and its drivers -/

structure StartAgentRunArgs where
  notebookId : String
  prompt : String
  contextScriptKey : Option ℕ
  intentOverride : Option AgentIntent

/-- The provider, its drivers and their abort signals.  A controller is named by its run.
`owner` has the notebook of every run that was started, `ended` the runs that have dispatched a
terminal action, and `cancelledUpTo` the last run before the last cancel call of a notebook. -/
structure ProviderWorld where
  registry : RegistryState
  rendered : RegistryState
  runIdRef : ℕ
  owner : ℕ → Option String
  ended : ℕ → Bool
  aborted : ℕ → Bool
  cancelledUpTo : String → ℕ

namespace ProviderWorld

def initial : ProviderWorld where
  registry := INITIAL_REGISTRY
  rendered := INITIAL_REGISTRY
  runIdRef := 0
  owner _ := none
  ended _ := false
  aborted _ := false
  cancelledUpTo _ := 0

variable (world : ProviderWorld)

/-- `latestRunForNotebook`: the snapshot's latest run of a notebook. -/
def latestRunForNotebook (notebookId : String) : Option AgentRunState :=
  (world.rendered.latestRunByNotebook notebookId).bind world.rendered.runs

/-- The first lines of `run` and the whole of `cancel`. -/
def abortLatest (notebookId : String) : ProviderWorld :=
  match world.latestRunForNotebook notebookId with
  | some state =>
    if agentRunIsActive state.phase then
      { world with aborted := Function.update world.aborted state.abort true }
    else world
  | none => world

def dispatchRegistry (mapAction : RegistryAction) : ProviderWorld :=
  { world with registry := reduceRegistry world.registry mapAction }

/-- The driver dispatches `AGENT_START` before it first waits. -/
def start (args : StartAgentRunArgs) (runId traceId : ℕ) (timestamp : ℤ) : ProviderWorld :=
  { world.dispatchRegistry ⟨args.notebookId, runId, .start
      ⟨runId, traceId, args.prompt, args.contextScriptKey, args.intentOverride,
        DEFAULT_MAX_ATTEMPTS, runId, timestamp⟩⟩ with
    owner := Function.update world.owner runId (some args.notebookId) }

/-- `run` with an AI client; the driver starts unless `registerRun` throws. -/
def run (args : StartAgentRunArgs) (registers : Bool) (traceId : ℕ) (timestamp : ℤ) :
    ProviderWorld :=
  let world := world.abortLatest args.notebookId
  let runId := world.runIdRef + 1
  let world := { world with runIdRef := runId }
  if registers then world.start args runId traceId timestamp else world

def cancel (notebookId : String) : ProviderWorld :=
  { world.abortLatest notebookId with
    cancelledUpTo := Function.update world.cancelledUpTo notebookId world.runIdRef }

def render : ProviderWorld := { world with rendered := world.registry }

/-- The driver of a run dispatches an action. -/
def drive (runId : ℕ) (action : AgentRunAction) : ProviderWorld :=
  match world.owner runId with
  | some notebookId =>
    { world.dispatchRegistry ⟨notebookId, runId, action⟩ with
      ended := Function.update world.ended runId (world.ended runId || action.terminal) }
  | none => world

end ProviderWorld

/-- What happens to a provider.  Without an AI client `run` only logs. -/
inductive ProviderEvent
  | run (args : StartAgentRunArgs) (aiClient registers : Bool) (traceId : ℕ) (timestamp : ℤ)
  | cancel (notebookId : String)
  | render
  | drive (runId : ℕ) (action : AgentRunAction)

def ProviderEvent.act : ProviderEvent → ProviderWorld → ProviderWorld
  | .run args aiClient registers traceId timestamp, world =>
    if aiClient then world.run args registers traceId timestamp else world
  | .cancel notebookId, world => world.cancel notebookId
  | .render, world => world.render
  | .drive runId action, world => world.drive runId action

/-- A driver dispatches actions of a running run and then one terminal action. -/
def ProviderEvent.Allowed : ProviderEvent → ProviderWorld → Prop
  | .drive runId action, world =>
    (world.owner runId).isSome ∧ world.ended runId = false ∧
      (action.progress = true ∨ action.terminal = true)
  | _, _ => True

/-! ## One run per notebook -/

namespace ProviderWorld

variable (world : ProviderWorld)

/-- The run was started for the notebook, has not dispatched a terminal action, and its signal has
not been raised. -/
structure Live (notebookId : String) (runId : ℕ) : Prop where
  owned : world.owner runId = some notebookId
  running : world.ended runId = false
  unaborted : world.aborted runId = false

/-- A notebook has one live run at most, and none from before its last cancel call. -/
structure Exclusive : Prop where
  unique : ∀ notebookId runId runId', world.Live notebookId runId →
    world.Live notebookId runId' → runId = runId'
  cancelled : ∀ notebookId runId, world.Live notebookId runId →
    world.cancelledUpTo notebookId < runId

/-- The snapshot has every live run of the notebook as the latest one. -/
def Shown (notebookId : String) : Prop :=
  ∀ runId, world.Live notebookId runId → world.rendered.latestRunByNotebook notebookId = some runId

end ProviderWorld

/-- A call of `run` that starts a run and a call of `cancel` find the live run of the notebook in
the snapshot. -/
def ProviderEvent.Finds : ProviderEvent → ProviderWorld → Prop
  | .run args aiClient registers _ _, world =>
    aiClient = true → registers = true → world.Shown args.notebookId
  | .cancel notebookId, world => world.Shown notebookId
  | _, _ => True

/-! ## What the provider knows -/

namespace ProviderWorld

/-- A registry and the runs: it has only runs that were started, under their own controllers, and
shows a run as done only if it has ended. -/
structure Describes (world : ProviderWorld) (registry : RegistryState) : Prop where
  run : ∀ runId state, registry.runs runId = some state →
    (world.owner runId).isSome ∧ state.abort = runId ∧
      (agentRunIsActive state.phase = false → world.ended runId = true)
  latest : ∀ notebookId runId, registry.latestRunByNotebook notebookId = some runId →
    world.owner runId = some notebookId ∧ (registry.runs runId).isSome

/-- Run ids are fresh, and the registry and its last snapshot describe the runs. -/
structure Accounted (world : ProviderWorld) : Prop where
  fresh : ∀ runId, world.runIdRef < runId →
    world.owner runId = none ∧ world.ended runId = false ∧ world.aborted runId = false
  cancelled : ∀ notebookId, world.cancelledUpTo notebookId ≤ world.runIdRef
  registered : ∀ runId, (world.owner runId).isSome → (world.registry.runs runId).isSome
  registry : world.Describes world.registry
  rendered : world.Describes world.rendered

theorem accounted_initial : Accounted initial where
  fresh _ _ := ⟨rfl, rfl, rfl⟩
  cancelled _ := le_refl 0
  registered _ h := by cases h
  registry := ⟨fun _ _ h => (by cases h), fun _ _ h => (by cases h)⟩
  rendered := ⟨fun _ _ h => (by cases h), fun _ _ h => (by cases h)⟩

variable {world : ProviderWorld}

variable {runId : ℕ}

theorem Accounted.le_of_owned (h : Accounted world) (howned : (world.owner runId).isSome) :
    runId ≤ world.runIdRef := by
  by_contra hlarge
  rw [(h.fresh runId (by omega)).1] at howned
  cases howned

/-! ## Aborting -/

/-- Aborting changes signals only. -/
theorem abortLatest_eq (world : ProviderWorld) (notebookId : String) :
    ∃ aborted, world.abortLatest notebookId = { world with aborted := aborted } := by
  unfold abortLatest
  cases world.latestRunForNotebook notebookId with
  | none => exact ⟨world.aborted, rfl⟩
  | some state =>
    by_cases hactive : agentRunIsActive state.phase = true
    · exact ⟨_, if_pos hactive⟩
    · exact ⟨world.aborted, if_neg hactive⟩

theorem live_abortLatest (h : Accounted world) (notebookId notebookId' : String) (runId : ℕ) :
    (world.abortLatest notebookId).Live notebookId' runId ↔
      world.Live notebookId' runId ∧
        world.rendered.latestRunByNotebook notebookId ≠ some runId := by
  unfold abortLatest latestRunForNotebook
  cases hlatest : world.rendered.latestRunByNotebook notebookId with
  | none => exact (and_iff_left (by simp)).symm
  | some latest =>
    obtain ⟨state, hstate⟩ := isSome_iff_exists.mp (h.rendered.latest _ _ hlatest).2
    obtain ⟨-, habort, hended⟩ := h.rendered.run latest state hstate
    rw [bind_some, hstate]
    dsimp only
    by_cases hactive : agentRunIsActive state.phase = true
    · rw [if_pos hactive, habort]
      constructor
      · intro hlive
        have hunaborted : Function.update world.aborted latest true runId = false :=
          hlive.unaborted
        by_cases hsame : latest = runId
        · subst hsame
          rw [update_self] at hunaborted
          cases hunaborted
        · rw [update_of_ne (Ne.symm hsame)] at hunaborted
          exact ⟨⟨hlive.owned, hlive.running, hunaborted⟩, fun heq => hsame (some.inj heq)⟩
      · intro hlive
        have hother : runId ≠ latest := fun hsame => hlive.2 (congrArg some hsame.symm)
        refine ⟨hlive.1.owned, hlive.1.running, ?_⟩
        change Function.update world.aborted latest true runId = false
        rw [update_of_ne hother]
        exact hlive.1.unaborted
    · rw [if_neg hactive]
      refine (and_iff_left_of_imp ?_).symm
      intro hlive hsame
      obtain rfl := some.inj hsame
      have hrunning := hlive.running
      rw [hended (Bool.eq_false_iff.mpr hactive)] at hrunning
      cases hrunning

theorem Accounted.abortLatest (h : Accounted world) (notebookId : String) :
    Accounted (world.abortLatest notebookId) := by
  have hfresh : ∀ runId, world.runIdRef < runId →
      (world.abortLatest notebookId).aborted runId = false := by
    intro runId hrunId
    unfold ProviderWorld.abortLatest latestRunForNotebook
    cases hlatest : world.rendered.latestRunByNotebook notebookId with
    | none => exact (h.fresh runId hrunId).2.2
    | some latest =>
      obtain ⟨state, hstate⟩ := isSome_iff_exists.mp (h.rendered.latest _ _ hlatest).2
      obtain ⟨howned, habort, -⟩ := h.rendered.run latest state hstate
      have hle := h.le_of_owned howned
      rw [bind_some, hstate]
      dsimp only
      by_cases hactive : agentRunIsActive state.phase = true
      · rw [if_pos hactive]
        change Function.update world.aborted state.abort true runId = false
        rw [habort, update_of_ne (by omega)]
        exact (h.fresh runId hrunId).2.2
      · rw [if_neg hactive]
        exact (h.fresh runId hrunId).2.2
  obtain ⟨aborted, heq⟩ := world.abortLatest_eq notebookId
  rw [heq] at hfresh ⊢
  exact ⟨fun runId hrunId => ⟨(h.fresh runId hrunId).1, (h.fresh runId hrunId).2.1,
    hfresh runId hrunId⟩, h.cancelled, h.registered, ⟨h.registry.run, h.registry.latest⟩,
    ⟨h.rendered.run, h.rendered.latest⟩⟩

/-! ## Starting and driving -/

theorem Describes.start {registry : RegistryState} (h : world.Describes registry)
    (howner : world.owner runId = none) (notebookId : String) {after : ProviderWorld}
    (hafter : after.owner = Function.update world.owner runId (some notebookId))
    (hended : after.ended = world.ended) : after.Describes registry := by
  have hother : ∀ {other : ℕ}, (world.owner other).isSome → other ≠ runId := by
    rintro other hsome rfl
    rw [howner] at hsome
    cases hsome
  refine ⟨fun other state hstate => ?_, fun notebook other hlatest => ?_⟩
  · obtain ⟨hsome, hrest⟩ := h.run other state hstate
    rw [hafter, hended, update_of_ne (hother hsome)]
    exact ⟨hsome, hrest⟩
  · obtain ⟨howned, hsome⟩ := h.latest notebook other hlatest
    rw [hafter, update_of_ne (hother (by rw [howned]; rfl))]
    exact ⟨howned, hsome⟩

/-- A registry describes the runs also after an action of a started run that leaves it with its
controller, and shows it as done only if it has ended. -/
theorem Describes.reduce {registry : RegistryState} (h : world.Describes registry)
    (mapAction : RegistryAction) (howned : world.owner mapAction.runId = some mapAction.notebookId)
    {state : AgentRunState}
    (hstate : reduceAgentRun (registry.runs mapAction.runId) mapAction.action = some state)
    (habort : state.abort = mapAction.runId)
    (hdone : agentRunIsActive state.phase = false → world.ended mapAction.runId = true) :
    world.Describes (reduceRegistry registry mapAction) := by
  have hruns : (reduceRegistry registry mapAction).runs =
      Function.update registry.runs mapAction.runId (some state) := by
    rw [← hstate]
    rfl
  have hkept : ∀ runId, (registry.runs runId).isSome = true →
      ((reduceRegistry registry mapAction).runs runId).isSome = true := by
    intro runId hsome
    rw [hruns]
    by_cases hsame : runId = mapAction.runId
    · rw [hsame, update_self]
      rfl
    · rw [update_of_ne hsame]
      exact hsome
  refine ⟨?_, ?_⟩
  · intro runId found hfound
    rw [hruns] at hfound
    by_cases hsame : runId = mapAction.runId
    · subst hsame
      rw [update_self] at hfound
      obtain rfl := some.inj hfound
      exact ⟨by rw [howned]; rfl, habort, hdone⟩
    · rw [update_of_ne hsame] at hfound
      exact h.run runId found hfound
  · intro notebookId runId hlatest
    have hold : registry.latestRunByNotebook notebookId = some runId →
        world.owner runId = some notebookId ∧
          ((reduceRegistry registry mapAction).runs runId).isSome = true := fun hlatest =>
      ⟨(h.latest notebookId runId hlatest).1, hkept runId (h.latest notebookId runId hlatest).2⟩
    unfold reduceRegistry at hlatest
    cases haction : mapAction.action with
    | start payload =>
      rw [haction] at hlatest
      dsimp only at hlatest
      by_cases hsame : notebookId = mapAction.notebookId
      · subst hsame
        rw [update_self] at hlatest
        obtain rfl := some.inj hlatest
        refine ⟨howned, ?_⟩
        rw [hruns, update_self]
        rfl
      · rw [update_of_ne hsame] at hlatest
        exact hold hlatest
    | _ =>
      rw [haction] at hlatest
      exact hold hlatest

theorem Accounted.start (h : Accounted world) (args : StartAgentRunArgs) (traceId : ℕ)
    (timestamp : ℤ) :
    Accounted ({ world with runIdRef := world.runIdRef + 1 }.start args (world.runIdRef + 1) traceId
      timestamp) := by
  have howner := (h.fresh (world.runIdRef + 1) (Nat.lt_succ_self _)).1
  refine ⟨?_, fun notebookId => (h.cancelled notebookId).trans (Nat.le_succ _), ?_, ?_,
    h.rendered.start howner args.notebookId rfl rfl⟩
  · intro runId hrunId
    change world.runIdRef + 1 < runId at hrunId
    obtain ⟨hnone, hrest⟩ := h.fresh runId (by omega)
    refine ⟨?_, hrest⟩
    change Function.update world.owner _ _ runId = none
    rw [update_of_ne (by omega)]
    exact hnone
  · intro runId hsome
    change (Function.update world.owner _ _ runId).isSome = true at hsome
    change (Function.update world.registry.runs _ _ runId).isSome = true
    by_cases hsame : runId = world.runIdRef + 1
    · subst hsame
      rw [update_self]
      rfl
    · rw [update_of_ne hsame] at hsome ⊢
      exact h.registered runId hsome
  · have hbase : Describes ({ world with runIdRef := world.runIdRef + 1 }.start args
        (world.runIdRef + 1) traceId timestamp) world.registry :=
      h.registry.start howner args.notebookId rfl rfl
    have hnew : ({ world with runIdRef := world.runIdRef + 1 }.start args (world.runIdRef + 1)
        traceId timestamp).owner (world.runIdRef + 1) = some args.notebookId :=
      update_self _ _ _
    exact hbase.reduce ⟨args.notebookId, world.runIdRef + 1, .start _⟩ hnew rfl rfl
      fun hdone => (by cases hdone)

theorem Accounted.drive (h : Accounted world) {action : AgentRunAction}
    (howned : (world.owner runId).isSome)
    (haction : action.progress = true ∨ action.terminal = true)
    (hrunning : world.ended runId = false) : Accounted (world.drive runId action) := by
  obtain ⟨notebookId, howner⟩ := isSome_iff_exists.mp howned
  obtain ⟨state, hstate⟩ := isSome_iff_exists.mp (h.registered runId howned)
  have hgrows : ∀ other, world.ended other = true →
      Function.update world.ended runId (world.ended runId || action.terminal) other = true := by
    intro other hended
    by_cases hsame : other = runId
    · subst hsame
      rw [hrunning] at hended
      cases hended
    · rw [update_of_ne hsame]
      exact hended
  have hdescribes : ∀ {registry : RegistryState} {after : ProviderWorld},
      after.owner = world.owner →
      after.ended = Function.update world.ended runId (world.ended runId || action.terminal) →
        world.Describes registry → after.Describes registry := by
    intro registry after hafter hended hregistry
    refine ⟨fun other found hfound => ?_, fun notebook other hlatest => ?_⟩
    · obtain ⟨hsome, habort, hdone⟩ := hregistry.run other found hfound
      rw [hafter, hended]
      exact ⟨hsome, habort, fun hinactive => hgrows other (hdone hinactive)⟩
    · rw [hafter]
      exact hregistry.latest notebook other hlatest
  have hreduced := @reduceAgentRun_some state action haction
  obtain ⟨hsome, habort, hdone⟩ := h.registry.run runId state hstate
  unfold ProviderWorld.drive
  rw [howner]
  refine ⟨?_, h.cancelled, ?_, ?_, hdescribes rfl rfl h.rendered⟩
  · intro other hother
    obtain ⟨hnone, hended, haborted⟩ := h.fresh other hother
    refine ⟨hnone, ?_, haborted⟩
    change Function.update world.ended runId _ other = false
    rw [update_of_ne]
    · exact hended
    · rintro rfl
      rw [howner] at hnone
      cases hnone
  · intro other hother
    change (Function.update world.registry.runs runId _ other).isSome = true
    by_cases hsame : other = runId
    · subst hsame
      rw [update_self]
      change (reduceAgentRun (world.registry.runs other) action).isSome = true
      rw [hstate, hreduced]
      rfl
    · rw [update_of_ne hsame]
      exact h.registered other hother
  · have hbase : Describes { world.dispatchRegistry ⟨notebookId, runId, action⟩ with
        ended := Function.update world.ended runId (world.ended runId || action.terminal) }
        world.registry := hdescribes rfl rfl h.registry
    have hafter : reduceAgentRun (world.registry.runs runId) action =
        some (state.reduce action) := by rw [hstate, hreduced]
    refine hbase.reduce ⟨notebookId, runId, action⟩ howner hafter ?_ ?_
    · rw [reduce_abort]
      exact habort
    · intro hinactive
      change Function.update world.ended runId _ runId = true
      rw [update_self, hrunning, Bool.false_or]
      rcases haction with hprogress | hterminal
      · by_contra _
        have hactive : agentRunIsActive state.phase = true := by
          by_contra hnot
          rw [hdone (Bool.eq_false_iff.mpr hnot)] at hrunning
          cases hrunning
        rw [reduceAgentRun_progress_active hprogress hactive] at hinactive
        cases hinactive
      · exact hterminal

theorem Accounted.step (h : Accounted world) {event : ProviderEvent} (hallowed : event.Allowed world) :
    Accounted (event.act world) := by
  cases event with
  | run args aiClient registers traceId timestamp =>
    cases aiClient with
    | false => exact h
    | true =>
      have habort := h.abortLatest args.notebookId
      cases registers with
      | true => exact habort.start args traceId timestamp
      | false =>
        refine ⟨fun runId hrunId => ?_, fun notebookId => ?_, habort.registered,
          ⟨habort.registry.run, habort.registry.latest⟩,
          ⟨habort.rendered.run, habort.rendered.latest⟩⟩
        · exact habort.fresh runId (Nat.lt_of_succ_lt hrunId)
        · exact (habort.cancelled notebookId).trans (Nat.le_succ _)
  | cancel notebookId =>
    have habort := h.abortLatest notebookId
    refine ⟨?_, fun notebook => ?_, habort.registered,
      ⟨habort.registry.run, habort.registry.latest⟩,
      ⟨habort.rendered.run, habort.rendered.latest⟩⟩
    · exact habort.fresh
    · have hle := habort.cancelled notebook
      obtain ⟨aborted, heq⟩ := world.abortLatest_eq notebookId
      change Function.update world.cancelledUpTo notebookId world.runIdRef notebook ≤
        (world.abortLatest notebookId).runIdRef
      rw [heq] at hle ⊢
      by_cases hsame : notebook = notebookId
      · rw [hsame, update_self]
      · rw [update_of_ne hsame]
        exact hle
  | render =>
    exact ⟨h.fresh, h.cancelled, h.registered, ⟨h.registry.run, h.registry.latest⟩,
      ⟨h.registry.run, h.registry.latest⟩⟩
  | drive runId action => exact h.drive hallowed.1 hallowed.2.2 hallowed.2.1

/-! ## Which calls keep a notebook to one run -/

theorem cancelledUpTo_abortLatest (notebookId notebookId' : String) :
    (world.abortLatest notebookId).cancelledUpTo notebookId' = world.cancelledUpTo notebookId' := by
  obtain ⟨aborted, heq⟩ := world.abortLatest_eq notebookId
  rw [heq]

theorem runIdRef_abortLatest (notebookId : String) :
    (world.abortLatest notebookId).runIdRef = world.runIdRef := by
  obtain ⟨aborted, heq⟩ := world.abortLatest_eq notebookId
  rw [heq]

theorem Exclusive.abortLatest (h : Exclusive world) (haccount : Accounted world)
    (notebookId : String) : Exclusive (world.abortLatest notebookId) := by
  refine ⟨fun notebook runId runId' hlive hlive' => ?_, fun notebook runId hlive => ?_⟩
  · exact h.unique notebook runId runId' ((live_abortLatest haccount _ _ _).mp hlive).1
      ((live_abortLatest haccount _ _ _).mp hlive').1
  · rw [cancelledUpTo_abortLatest]
    exact h.cancelled notebook runId ((live_abortLatest haccount _ _ _).mp hlive).1

section

variable (haccount : Accounted world)

include haccount

theorem not_live_of_shown {notebookId : String} (hshown : world.Shown notebookId) :
    ¬ (world.abortLatest notebookId).Live notebookId runId := by
  intro hlive
  obtain ⟨hbefore, hother⟩ := (live_abortLatest haccount _ _ _).mp hlive
  exact hother (hshown runId hbefore)

/-- After a cancel call the promise holds exactly if the snapshot showed the live run. -/
theorem exclusive_cancel_iff (h : Exclusive world) (notebookId : String) :
    Exclusive (world.cancel notebookId) ↔ world.Shown notebookId := by
  have hlive : ∀ notebook runId, (world.cancel notebookId).Live notebook runId ↔
      (world.abortLatest notebookId).Live notebook runId := fun notebook runId =>
    ⟨fun hlive => ⟨hlive.owned, hlive.running, hlive.unaborted⟩,
      fun hlive => ⟨hlive.owned, hlive.running, hlive.unaborted⟩⟩
  have habort := h.abortLatest haccount notebookId
  constructor
  · intro hafter runId hbefore
    by_contra hother
    have hkept : (world.abortLatest notebookId).Live notebookId runId :=
      (live_abortLatest haccount _ _ _).mpr ⟨hbefore, hother⟩
    have hnew := hafter.cancelled notebookId runId ((hlive _ _).mpr hkept)
    change Function.update world.cancelledUpTo notebookId world.runIdRef notebookId < runId at hnew
    rw [update_self] at hnew
    have hle := haccount.le_of_owned (by rw [hbefore.owned]; rfl : (world.owner runId).isSome)
    omega
  · intro hshown
    refine ⟨fun notebook runId runId' hfirst hsecond => ?_, fun notebook runId hfound => ?_⟩
    · exact habort.unique notebook runId runId' ((hlive _ _).mp hfirst) ((hlive _ _).mp hsecond)
    · have hlived := (hlive _ _).mp hfound
      change Function.update world.cancelledUpTo notebookId world.runIdRef notebook < runId
      by_cases hsame : notebook = notebookId
      · subst hsame
        exact absurd hlived (not_live_of_shown haccount hshown)
      · rw [update_of_ne hsame]
        have hold := habort.cancelled notebook runId hlived
        rwa [cancelledUpTo_abortLatest] at hold

theorem live_start_iff (args : StartAgentRunArgs) (traceId : ℕ) (timestamp : ℤ)
    (notebookId : String) (runId : ℕ) :
    ({ world with runIdRef := world.runIdRef + 1 }.start args (world.runIdRef + 1) traceId
        timestamp).Live notebookId runId ↔
      world.Live notebookId runId ∨ args.notebookId = notebookId ∧ runId = world.runIdRef + 1 := by
  obtain ⟨hnone, hended, haborted⟩ := haccount.fresh (world.runIdRef + 1) (Nat.lt_succ_self _)
  by_cases hsame : runId = world.runIdRef + 1
  · subst hsame
    constructor
    · intro hlive
      have howned : Function.update world.owner (world.runIdRef + 1) (some args.notebookId)
          (world.runIdRef + 1) = some notebookId := hlive.owned
      rw [update_self] at howned
      exact .inr ⟨some.inj howned, rfl⟩
    · intro hlive
      rcases hlive with hold | ⟨rfl, -⟩
      · have howned := hold.owned
        rw [hnone] at howned
        cases howned
      · exact ⟨update_self _ _ _, hended, haborted⟩
  · have hother : Function.update world.owner (world.runIdRef + 1) (some args.notebookId) runId =
        world.owner runId := update_of_ne hsame _ _
    rw [or_iff_left fun hnew => hsame hnew.2]
    exact ⟨fun hlive => ⟨hother.symm.trans hlive.owned, hlive.running, hlive.unaborted⟩,
      fun hlive => ⟨hother.trans hlive.owned, hlive.running, hlive.unaborted⟩⟩

/-- After a run was started the promise holds exactly if the snapshot showed the live run. -/
theorem exclusive_run_iff (h : Exclusive world) (args : StartAgentRunArgs) (traceId : ℕ)
    (timestamp : ℤ) :
    Exclusive (world.run args true traceId timestamp) ↔ world.Shown args.notebookId := by
  have haccount' := haccount.abortLatest args.notebookId
  have habort := h.abortLatest haccount args.notebookId
  have hlive := live_start_iff haccount' args traceId timestamp
  have hrun : world.run args true traceId timestamp =
      { world.abortLatest args.notebookId with
        runIdRef := (world.abortLatest args.notebookId).runIdRef + 1 }.start args
          ((world.abortLatest args.notebookId).runIdRef + 1) traceId timestamp := rfl
  rw [hrun]
  constructor
  · intro hafter runId hbefore
    by_contra hother
    have hkept : (world.abortLatest args.notebookId).Live args.notebookId runId :=
      (live_abortLatest haccount _ _ _).mpr ⟨hbefore, hother⟩
    have hsame := hafter.unique args.notebookId runId _ ((hlive _ _).mpr (.inl hkept))
      ((hlive _ _).mpr (.inr ⟨rfl, rfl⟩))
    have hle := haccount.le_of_owned (by rw [hbefore.owned]; rfl : (world.owner runId).isSome)
    rw [runIdRef_abortLatest] at hsame
    omega
  · intro hshown
    have hnone : ∀ runId, ¬ (world.abortLatest args.notebookId).Live args.notebookId runId :=
      fun runId => not_live_of_shown haccount hshown
    refine ⟨fun notebook runId runId' hfirst hsecond => ?_, fun notebook runId hfound => ?_⟩
    · rcases (hlive _ _).mp hfirst with hold | ⟨rfl, rfl⟩
      · rcases (hlive _ _).mp hsecond with hold' | ⟨rfl, rfl⟩
        · exact habort.unique notebook runId runId' hold hold'
        · exact absurd hold (hnone runId)
      · rcases (hlive _ _).mp hsecond with hold' | ⟨-, rfl⟩
        · exact absurd hold' (hnone runId')
        · rfl
    · change (world.abortLatest args.notebookId).cancelledUpTo notebook < runId
      rcases (hlive _ _).mp hfound with hold | ⟨rfl, rfl⟩
      · exact habort.cancelled notebook runId hold
      · exact Nat.lt_succ_of_le (haccount'.cancelled _)

end

theorem live_of_drive {notebookId : String} {other : ℕ} {action : AgentRunAction}
    (h : (world.drive runId action).Live notebookId other) : world.Live notebookId other := by
  unfold drive at h
  cases howner : world.owner runId with
  | none =>
    rw [howner] at h
    exact h
  | some owner =>
    rw [howner] at h
    refine ⟨h.owned, ?_, h.unaborted⟩
    have hrunning : Function.update world.ended runId (world.ended runId || action.terminal)
        other = false := h.running
    by_cases hsame : other = runId
    · subst hsame
      rw [update_self] at hrunning
      exact (Bool.or_eq_false_iff.mp hrunning).1
    · rwa [update_of_ne hsame] at hrunning

theorem exclusive_drive (h : Exclusive world) (runId : ℕ) (action : AgentRunAction) :
    Exclusive (world.drive runId action) := by
  have hcancelled : (world.drive runId action).cancelledUpTo = world.cancelledUpTo := by
    unfold drive
    cases world.owner runId <;> rfl
  refine ⟨fun notebook other other' hlive hlive' => ?_, fun notebook other hlive => ?_⟩
  · exact h.unique notebook other other' (live_of_drive hlive) (live_of_drive hlive')
  · rw [hcancelled]
    exact h.cancelled notebook other (live_of_drive hlive)

/-- One event keeps the promise exactly if the call finds the live run of its notebook. -/
theorem exclusive_step_iff (haccount : Accounted world) (h : Exclusive world)
    (event : ProviderEvent) : Exclusive (event.act world) ↔ event.Finds world := by
  cases event with
  | run args aiClient registers traceId timestamp =>
    cases aiClient with
    | false => exact iff_of_true h fun hnever => (by cases hnever)
    | true =>
      cases registers with
      | true =>
        refine (exclusive_run_iff haccount h args traceId timestamp).trans ?_
        exact ⟨fun hshown _ _ => hshown, fun hfinds => hfinds rfl rfl⟩
      | false =>
        have habort := h.abortLatest haccount args.notebookId
        refine iff_of_true ⟨fun notebook runId runId' hlive hlive' => ?_,
          fun notebook runId hlive => ?_⟩ fun _ hnever => (by cases hnever)
        · exact habort.unique notebook runId runId'
            ⟨hlive.owned, hlive.running, hlive.unaborted⟩
            ⟨hlive'.owned, hlive'.running, hlive'.unaborted⟩
        · exact habort.cancelled notebook runId ⟨hlive.owned, hlive.running, hlive.unaborted⟩
  | cancel notebookId => exact exclusive_cancel_iff haccount h notebookId
  | render =>
    refine iff_of_true ⟨fun notebook runId runId' hlive hlive' => ?_,
      fun notebook runId hlive => ?_⟩ trivial
    · exact h.unique notebook runId runId' ⟨hlive.owned, hlive.running, hlive.unaborted⟩
        ⟨hlive'.owned, hlive'.running, hlive'.unaborted⟩
    · exact h.cancelled notebook runId ⟨hlive.owned, hlive.running, hlive.unaborted⟩
  | drive runId action => exact iff_of_true (exclusive_drive h runId action) trivial

theorem exclusive_initial : Exclusive initial := by
  refine ⟨fun notebook runId runId' hlive _ => ?_, fun notebook runId hlive => ?_⟩ <;>
    cases hlive.owned

/-- In every run of the provider, every notebook has one live run at most and none from before its
last cancel call, at every moment, exactly if every call of `run` and `cancel` finds the live run
of its notebook in the snapshot of the last render. -/
theorem exclusive_of_run_iff (events : List ProviderEvent)
    (hallowed : ReplayMeets ProviderEvent.act ProviderEvent.Allowed events initial) :
    (∀ front back, events = front ++ back → Exclusive (replay ProviderEvent.act front initial)) ↔
      ReplayMeets ProviderEvent.act ProviderEvent.Finds events initial :=
  replay_invariant_iff_of_allowed Accounted Exclusive (fun _ _ h hstep => h.step hstep)
    (fun event _ haccount _ h => exclusive_step_iff haccount h event) hallowed accounted_initial
    exclusive_initial

def runOfNotebook : ProviderEvent := .run ⟨"n", "chart it", none, some .sql⟩ true true 0 0

/-- Two runs one after the other stay one at a time if a render comes in between. -/
theorem exclusive_of_run_iff_rendered :
    Exclusive (replay ProviderEvent.act [runOfNotebook, .render, runOfNotebook] initial) := by
  refine (exclusive_of_run_iff [runOfNotebook, .render, runOfNotebook]
    ⟨trivial, trivial, trivial, trivial⟩).mpr ⟨?_, trivial, ?_, trivial⟩ _ [] rfl
  · intro _ _ runId hlive
    cases hlive.owned
  · intro _ _ runId hlive
    have howned : Function.update (fun _ => none) 1 (some "n") runId = some "n" := hlive.owned
    by_cases hsame : runId = 1
    · rw [hsame]
      rfl
    · rw [update_of_ne hsame] at howned
      cases howned

/-- Without a render in between two runs of one notebook are live at once. -/
theorem not_exclusive_unrendered :
    ReplayMeets ProviderEvent.act ProviderEvent.Allowed [runOfNotebook, runOfNotebook] initial ∧
      ¬ Exclusive (replay ProviderEvent.act [runOfNotebook, runOfNotebook] initial) := by
  refine ⟨⟨trivial, trivial, trivial⟩, fun h => ?_⟩
  have hsame : 1 = 2 := h.unique "n" 1 2 ⟨rfl, rfl, rfl⟩ ⟨rfl, rfl, rfl⟩
  cases hsame

end ProviderWorld

end DashQL.Agent
