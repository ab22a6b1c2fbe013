import DashQL.Library.TracedRuns
import DashQL.Agent.AgentRunState

/-!
# The driver of an agent run

`startAgentRun` (`agent_run_driver.ts`) asks the model for a candidate, verifies it,
asks again with the errors, and commits the first candidate that verifies clean.
The model, the host and the moments at which the abort signal is raised are
arbitrary: each is a function of the number of steps the run has taken, so any
sequence of answers and of thrown errors is one of them.

A run leaves a trace of what it asked and dispatched.  The functions of
`agent_prompts.ts` that word the prompts and cut a candidate out of a completion are
parameters; the mirror of the actions in the trace log is left out.
-/

namespace DashQL.Agent

/-! ## What the driver talks to -/

structure VerifyResult where
  ok : Bool
  parserErrors : List String
  analyzerErrors : List String
  visualizationSpecs : ℕ
  deriving DecidableEq, Repr

/-- A thrown value: its `name` and `message`, if it has them, and what `String` makes of it. -/
structure Thrown where
  name : Option String
  message : Option String
  text : String
  deriving DecidableEq, Repr

def Thrown.abortError : Thrown := ⟨some "AbortError", some "aborted", "AbortError: aborted"⟩

def Thrown.describe (e : Thrown) : String :=
  match e.message with
  | some message => if message = "" then e.text else message
  | none => e.text

structure AgentApplyPlan where
  inPlace : Bool
  targetName : Option String
  commit : ℕ → Except Thrown Unit

/-- `AgentHost`.  Every call is told how many steps the run has taken. -/
structure AgentHost where
  buildContext : ℕ → AgentIntent → Except Thrown String
  isEditingChart : ℕ → Except Thrown Bool
  transcodeVegaLite : ℕ → String → Except Thrown String
  verify : ℕ → String → Except Thrown VerifyResult
  planApply : ℕ → AgentIntent → String → Except Thrown AgentApplyPlan
  hasRegisterRun : Bool

structure GenerationPromptInput where
  context : String
  userPrompt : String
  previousCandidate : Option String
  errors : List String
  editingChart : Bool

structure AgentPrompts where
  buildClassifyPrompt : String → String
  parseIntent : String → AgentIntent
  buildSqlPrompt : GenerationPromptInput → String
  buildVisualizePrompt : GenerationPromptInput → String
  extractJsonObject : String → String
  extractSql : String → String
  diagnoseVegaLiteSpec : String → List String

/-- A limit that is not an integer counts as its floor. -/
structure AgentRunParams where
  runId : ℕ
  prompt : String
  contextScriptKey : Option ℕ
  intentOverride : Option AgentIntent
  maxAttempts : Option ℤ

/-- `AgentRunDeps`, with the prompts and the moments at which the abort signal is raised. -/
structure AgentRunDeps where
  generate : ℕ → String → Except Thrown String
  host : AgentHost
  prompts : AgentPrompts
  now : ℕ → ℤ
  raises : ℕ → Bool

inductive PromptKind
  | classify
  | generate
  | repair
  deriving DecidableEq, Repr

/-- What a run does to the outside, in the order in which it does it. -/
inductive DriverEvent
  | registered (runId : ℕ)
  | dispatched (action : AgentRunAction)
  | prompted (kind : PromptKind) (prompt : String)
  | verified (candidateText : String) (verdict : VerifyResult)
  | commitCalled (intent : AgentIntent) (candidateText : String)
  | commitReturned
  | abortObserved
  deriving DecidableEq, Repr

/-- The number of steps so far, and whether the abort signal is raised. -/
structure DriverState where
  time : ℕ
  aborted : Bool

abbrev Run (α : Type) : Type := Traced DriverState DriverEvent Thrown α

/-- A step begins; the signal may have been raised since the last one. -/
def moment (deps : AgentRunDeps) : Run ℕ :=
  Traced.update fun state => (state.time, ⟨state.time + 1, state.aborted || deps.raises state.time⟩)

def dispatchAgent (deps : AgentRunDeps) (action : ℤ → AgentRunAction) : Run Unit := do
  let time ← moment deps
  Traced.emit (.dispatched (action (deps.now time)))

/-- A call of the model or of the host. -/
def call {α : Type} (deps : AgentRunDeps) (answer : ℕ → Except Thrown α) : Run α := do
  let time ← moment deps
  Traced.lift (answer time)

def throwIfAborted : Run Unit := do
  let aborted ← Traced.update fun state => (state.aborted, state)
  if aborted then do
    Traced.emit .abortObserved
    Traced.lift (.error Thrown.abortError)
  else pure ()

/-! ## Texts -/

/-- The characters that `\s` matches and `trim` removes. -/
def isSpace (c : Char) : Bool :=
  c.toNat ∈ [9, 10, 11, 12, 13, 32, 0xa0, 0x1680, 0x2028, 0x2029, 0x202f, 0x205f, 0x3000, 0xfeff] ||
    (0x2000 ≤ c.toNat && c.toNat ≤ 0x200a)

/-- `text.trim().length === 0`. -/
def isBlank (text : String) : Bool := text.toList.all isSpace

/-- Every run of spaces as one blank; `inRun` says that the last character was one. -/
def collapseSpaces (inRun : Bool) : List Char → List Char
  | [] => []
  | c :: rest =>
    if isSpace c then
      if inRun then collapseSpaces true rest else ' ' :: collapseSpaces true rest
    else c :: collapseSpaces false rest

/-- `truncateForLog`, with lengths in characters. -/
def truncateForLog (text : String) (max : ℕ) : String :=
  let collapsed := (((collapseSpaces false text.toList).dropWhile isSpace).reverse.dropWhile
    isSpace).reverse
  if max < collapsed.length then String.ofList (collapsed.take (max - 1)) ++ "…"
  else String.ofList collapsed

def summarizeErrors : List String → String
  | [] => ""
  | [error] => truncateForLog error 200
  | error :: rest => truncateForLog error 200 ++ s!" (+{rest.length} more)"

def intentNoun : AgentIntent → String
  | .visualize => "chart"
  | .sql => "SQL query"

/-- The target of a plan in a message. -/
def targetText (targetName : Option String) : String :=
  match targetName with
  | some name => if name = "" then "the focused target" else "\"" ++ name ++ "\""
  | none => "the focused target"

def withSpecDiagnosis (prompts : AgentPrompts) (intent : AgentIntent)
    (vegaLiteRaw : Option String) (errors : List String) : List String :=
  match intent, vegaLiteRaw with
  | .visualize, some raw =>
    (prompts.diagnoseVegaLiteSpec raw).filter (fun hint => hint ∉ errors) ++ errors
  | _, _ => errors

/-! ## The run -/

section Driver

variable (deps : AgentRunDeps)

def loggedGenerate (kind : PromptKind) (prompt : String) : Run String := do
  Traced.emit (.prompted kind prompt)
  call deps fun time => deps.generate time prompt

def classify (params : AgentRunParams) : Run AgentIntent :=
  match params.intentOverride with
  | some intent => do
      dispatchAgent deps fun timestamp => .setIntent intent true timestamp
      pure intent
  | none => do
      let classification ← loggedGenerate deps .classify
        (deps.prompts.buildClassifyPrompt params.prompt)
      throwIfAborted
      let intent := deps.prompts.parseIntent classification
      dispatchAgent deps fun timestamp => .setIntent intent false timestamp
      pure intent

structure LoopState where
  candidateText : Option String
  errors : List String
  previousCandidate : Option String
  succeeded : Bool
  finalAttempt : ℕ
  deriving DecidableEq, Repr

/-- What the loop of a run reads besides its variables. -/
structure LoopInput where
  params : AgentRunParams
  maxAttempts : ℤ
  intent : AgentIntent
  context : String

variable (input : LoopInput)

/-- The prompt of an attempt. -/
def buildPrompt (loop : LoopState) : Run String :=
  match input.intent with
  | .visualize => do
      let editingChart ← call deps fun time => deps.host.isEditingChart time
      pure (deps.prompts.buildVisualizePrompt
        ⟨input.context, input.params.prompt, loop.previousCandidate, loop.errors, editingChart⟩)
  | .sql => pure (deps.prompts.buildSqlPrompt
      ⟨input.context, input.params.prompt, loop.previousCandidate, loop.errors, false⟩)

/-- The body of the inner `try`: the raw specification of a chart, and the candidate or what was
thrown. -/
def extract (completion : String) : Run (Option String × Except Thrown String) :=
  match input.intent with
  | .visualize => do
      let raw := deps.prompts.extractJsonObject completion
      let transcoded ← Traced.attempt (call deps fun time => deps.host.transcodeVegaLite time raw)
      pure (some raw, transcoded)
  | .sql => pure (none, .ok (deps.prompts.extractSql completion))

/-- The end of an attempt: the candidate and its errors are dispatched and kept for the next
attempt. -/
def recordAttempt (attempt : ℕ) (candidateText : String) (vegaLiteRaw : Option String)
    (errors : List String) (succeeded : Bool) : Run LoopState := do
  dispatchAgent deps fun timestamp =>
    .attemptResult ⟨attempt, some candidateText, some vegaLiteRaw, errors, timestamp⟩
  pure ⟨some candidateText, errors, some candidateText, succeeded, attempt⟩

/-- The errors of a verdict; a chart needs a specification besides. -/
def verifyErrors (intent : AgentIntent) (verdict : VerifyResult) : List String :=
  verdict.parserErrors ++ verdict.analyzerErrors ++
    if verdict.ok && intent = .visualize && verdict.visualizationSpecs = 0 then
      ["The statement did not resolve into a visualization. Check the source and channels."]
    else []

/-- The part of an attempt after the candidate was extracted. -/
def verifyCandidate (attempt : ℕ) (vegaLiteRaw : Option String) (candidateText : String) :
    Run LoopState := do
  dispatchAgent deps fun timestamp => .phase ⟨.verifying, attempt,
    "Verifying the generated " ++ intentNoun input.intent ++
      " by parsing and analyzing it against the catalog", timestamp⟩
  if isBlank candidateText then
    recordAttempt deps attempt candidateText vegaLiteRaw ["The model returned an empty result."] false
  else do
    let verdict ← call deps fun time => deps.host.verify time candidateText
    Traced.emit (.verified candidateText verdict)
    throwIfAborted
    let errors := withSpecDiagnosis deps.prompts input.intent vegaLiteRaw
      (verifyErrors input.intent verdict)
    recordAttempt deps attempt candidateText vegaLiteRaw errors (errors.length = 0)

def attemptMessage (attempt : ℕ) : String :=
  let noun := intentNoun input.intent
  let limit := input.maxAttempts
  if 1 < attempt then
    s!"Repairing the {noun} after verification errors (attempt {attempt} of {limit})"
  else s!"Generating a {noun} from your request (attempt {attempt} of {limit})"

def runAttempt (attempt : ℕ) (loop : LoopState) : Run LoopState := do
  dispatchAgent deps fun timestamp =>
    .phase ⟨if 1 < attempt then .repairing else .generating, attempt,
      attemptMessage input attempt, timestamp⟩
  let prompt ← buildPrompt deps input loop
  let completion ← loggedGenerate deps (if 1 < attempt then .repair else .generate) prompt
  throwIfAborted
  let extracted ← extract deps input completion
  match extracted.2 with
  | .error e =>
    recordAttempt deps attempt (extracted.1.getD completion) extracted.1
      (withSpecDiagnosis deps.prompts input.intent extracted.1 [e.describe]) false
  | .ok candidateText => verifyCandidate deps input attempt extracted.1 candidateText

/-- The loop, with `remaining` attempts left, of which `attempt` is the first. -/
def runAttempts : (remaining attempt : ℕ) → LoopState → Run LoopState
  | 0, _, loop => pure loop
  | remaining + 1, attempt, loop => do
      let loop ← runAttempt deps input attempt loop
      if loop.succeeded then pure loop else runAttempts remaining (attempt + 1) loop

def applyCandidate (finalAttempt : ℕ) (candidateText : String) : Run Unit := do
  let plan ← call deps fun time => deps.host.planApply time input.intent candidateText
  let noun := intentNoun input.intent
  dispatchAgent deps fun timestamp => .phase ⟨.applying, finalAttempt,
    if plan.inPlace then "Applying the " ++ noun ++ " to " ++ targetText plan.targetName
    else "Adding a new entry with the generated " ++ noun, timestamp⟩
  Traced.emit (.commitCalled input.intent candidateText)
  call deps fun time => plan.commit time
  Traced.emit .commitReturned
  dispatchAgent deps fun timestamp => .succeeded
    (if plan.inPlace then
      "Done — updated " ++ targetText plan.targetName ++ " with the new " ++ noun
    else "Done — created a new entry with the " ++ noun) timestamp

def finishRun (loop : LoopState) : Run Unit :=
  match loop.succeeded, loop.candidateText with
  | true, some candidateText => applyCandidate deps input loop.finalAttempt candidateText
  | _, _ =>
    let noun := intentNoun input.intent
    let limit := input.maxAttempts
    let summary := summarizeErrors loop.errors
    dispatchAgent deps fun timestamp => .failed
      (if 0 < loop.errors.length then
        s!"Gave up after {limit} attempts — the generated {noun} still had errors: {summary}"
      else s!"Gave up after {limit} attempts without producing a valid {noun}")
      (some true) timestamp

variable (params : AgentRunParams)

def AgentRunParams.limit : ℤ := params.maxAttempts.getD DEFAULT_MAX_ATTEMPTS

/-- The body of the outer `try`. -/
def runBody : Run Unit := do
  let intent ← classify deps params
  let context ← call deps fun time => deps.host.buildContext time intent
  let input : LoopInput := ⟨params, params.limit, intent, context⟩
  let loop ← runAttempts deps input params.limit.toNat 1 ⟨none, [], none, false, 0⟩
  finishRun deps input loop

/-- The outer `catch`. -/
def catchRun (e : Thrown) : Run Unit := do
  let aborted ← Traced.update fun state => (state.aborted, state)
  if aborted || e.name = some "AbortError" then do
    Traced.emit .abortObserved
    dispatchAgent deps fun timestamp => .cancelled timestamp
  else dispatchAgent deps fun timestamp => .failed e.describe none timestamp

/-- The run is attached to its context, if it has one; `registerRun` does not throw. -/
def registerRun : Run Unit :=
  if params.contextScriptKey.isSome && deps.host.hasRegisterRun then
    Traced.emit (.registered params.runId)
  else pure ()

/-- `startAgentRun`, with the trace and the abort controller that it creates. -/
def startAgentRun (traceId abort : ℕ) : Run Unit := do
  registerRun deps params
  dispatchAgent deps fun timestamp => .start
    ⟨params.runId, traceId, params.prompt, params.contextScriptKey, params.intentOverride,
      params.limit, abort, timestamp⟩
  Traced.handle (runBody deps params) (catchRun deps)

/-- What the run does, from a signal that is not raised. -/
def agentTrace (traceId abort : ℕ) : List DriverEvent :=
  (startAgentRun deps params traceId abort ⟨0, false⟩).1

end Driver

end DashQL.Agent
