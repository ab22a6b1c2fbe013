import Mathlib.Data.Int.Basic
import Mathlib.Data.List.Basic

/-!
# The state of an agent run

The phases of an agent run, the actions that its driver dispatches and the reducer
that turns them into the observable state (`agent_run_state.ts`).  A run is active
from `AGENT_START` to its first terminal action, whatever progress is dispatched in
between (`reduceAgentRun_progress_active`, `reduceAgentRun_terminal_done`).
-/

namespace DashQL.Agent

inductive AgentIntent
  | sql
  | visualize
  deriving DecidableEq, Repr

/-- The literal type `'sql' | 'visualize'` as text. -/
def AgentIntent.text : AgentIntent → String
  | .sql => "sql"
  | .visualize => "visualize"

def DEFAULT_MAX_ATTEMPTS : ℤ := 3

inductive AgentRunPhase
  | idle
  | classifying
  | generating
  | verifying
  | repairing
  | applying
  | succeeded
  | failed
  | cancelled
  deriving DecidableEq, Repr

def agentRunIsDone (phase : AgentRunPhase) : Bool :=
  phase = .succeeded || phase = .failed || phase = .cancelled

def agentRunIsActive (phase : AgentRunPhase) : Bool :=
  phase ≠ .idle && !agentRunIsDone phase

structure AgentStep where
  phase : AgentRunPhase
  attempt : ℕ
  message : String
  timestamp : ℤ
  deriving DecidableEq, Repr

/-- `abort` is a handle of the controller of the run. -/
structure AgentRunState where
  runId : ℕ
  traceId : ℕ
  phase : AgentRunPhase
  intent : AgentIntent
  intentOverride : Option AgentIntent
  prompt : String
  contextScriptKey : Option ℕ
  attempt : ℕ
  maxAttempts : ℤ
  candidateText : Option String
  lastErrors : List String
  vegaLiteSpec : Option String
  log : List AgentStep
  error : Option String
  abort : ℕ
  deriving DecidableEq, Repr

structure AgentStartPayload where
  runId : ℕ
  traceId : ℕ
  prompt : String
  contextScriptKey : Option ℕ
  intentOverride : Option AgentIntent
  maxAttempts : ℤ
  abort : ℕ
  timestamp : ℤ
  deriving DecidableEq, Repr

structure AgentPhasePayload where
  phase : AgentRunPhase
  attempt : ℕ
  message : String
  timestamp : ℤ
  deriving DecidableEq, Repr

/-- `vegaLiteSpec` may be left out of the payload, and may be null. -/
structure AgentAttemptResultPayload where
  attempt : ℕ
  candidateText : Option String
  vegaLiteSpec : Option (Option String)
  errors : List String
  timestamp : ℤ
  deriving DecidableEq, Repr

inductive AgentRunAction
  | start (value : AgentStartPayload)
  | setIntent (intent : AgentIntent) (override : Bool) (timestamp : ℤ)
  | phase (value : AgentPhasePayload)
  | attemptResult (value : AgentAttemptResultPayload)
  | succeeded (message : String) (timestamp : ℤ)
  | failed (error : String) (expected : Option Bool) (timestamp : ℤ)
  | cancelled (timestamp : ℤ)
  | reset
  deriving DecidableEq, Repr

namespace AgentRunAction

def terminal : AgentRunAction → Bool
  | .succeeded _ _ | .failed _ _ _ | .cancelled _ => true
  | _ => false

/-- An action inside a run: the intent, an attempt's result, or a change to a phase in which
the run is active. -/
def progress : AgentRunAction → Bool
  | .setIntent _ _ _ | .attemptResult _ => true
  | .phase value => agentRunIsActive value.phase
  | _ => false

end AgentRunAction

def startState (payload : AgentStartPayload) : AgentRunState where
  runId := payload.runId
  traceId := payload.traceId
  phase := .classifying
  intent := payload.intentOverride.getD .sql
  intentOverride := payload.intentOverride
  prompt := payload.prompt
  contextScriptKey := payload.contextScriptKey
  attempt := 0
  maxAttempts := payload.maxAttempts
  candidateText := none
  lastErrors := []
  vegaLiteSpec := none
  log := [⟨.classifying, 0, "Starting agent run", payload.timestamp⟩]
  error := none
  abort := payload.abort

def appendStep (state : AgentRunState) (step : AgentStep) : List AgentStep :=
  state.log ++ [step]

/-- The second `switch` of `reduceAgentRun`, on an existing run. -/
def AgentRunState.reduce (state : AgentRunState) : AgentRunAction → AgentRunState
  | .setIntent intent override timestamp =>
    { state with
      intent := intent
      intentOverride := if override then some intent else state.intentOverride
      log := appendStep state ⟨state.phase, state.attempt,
        if override then "Intent overridden to " ++ intent.text
        else "Classified as " ++ intent.text, timestamp⟩ }
  | .phase value =>
    { state with
      phase := value.phase
      attempt := value.attempt
      log := appendStep state ⟨value.phase, value.attempt, value.message, value.timestamp⟩ }
  | .attemptResult value =>
    { state with
      attempt := value.attempt
      candidateText := value.candidateText
      vegaLiteSpec := value.vegaLiteSpec.getD state.vegaLiteSpec
      lastErrors := value.errors
      log := appendStep state ⟨state.phase, value.attempt,
        if value.errors.length = 0 then "Attempt " ++ toString value.attempt ++ " verified clean"
        else "Attempt " ++ toString value.attempt ++ " had " ++ toString value.errors.length ++
          " error(s)", value.timestamp⟩ }
  | .succeeded message timestamp =>
    { state with
      phase := .succeeded
      error := none
      log := appendStep state ⟨.succeeded, state.attempt, message, timestamp⟩ }
  | .failed error _ timestamp =>
    { state with
      phase := .failed
      error := some error
      log := appendStep state ⟨.failed, state.attempt, error, timestamp⟩ }
  | .cancelled timestamp =>
    { state with
      phase := .cancelled
      log := appendStep state ⟨.cancelled, state.attempt, "Run cancelled", timestamp⟩ }
  | _ => state

def reduceAgentRun (state : Option AgentRunState) : AgentRunAction → Option AgentRunState
  | .start value => some (startState value)
  | .reset => none
  | action => state.map fun state => state.reduce action

/-! ## Phases along a run -/

variable {state : AgentRunState} {action : AgentRunAction}

/-- An existing run takes an action inside a run or at its end by the second `switch`. -/
theorem reduceAgentRun_some (h : action.progress = true ∨ action.terminal = true) :
    reduceAgentRun (some state) action = some (state.reduce action) := by
  cases action with
  | start value => rcases h with h | h <;> cases h
  | reset => rcases h with h | h <;> cases h
  | _ => rfl

theorem reduceAgentRun_progress_active (h : action.progress = true)
    (hactive : agentRunIsActive state.phase = true) :
    agentRunIsActive (state.reduce action).phase = true := by
  cases action with
  | setIntent intent override timestamp => exact hactive
  | phase value => exact h
  | attemptResult value => exact hactive
  | _ => cases h

/-- A run keeps its controller. -/
theorem reduce_abort (state : AgentRunState) (action : AgentRunAction) :
    (state.reduce action).abort = state.abort := by
  cases action <;> rfl

end DashQL.Agent
