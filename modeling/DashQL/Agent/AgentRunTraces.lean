import Mathlib.Data.List.Infix
import Mathlib.Tactic.Ring
import DashQL.Agent.AgentRunDriver

/-!
# What an agent run does

The loop of `startAgentRun` only makes progress (`Progress`): it dispatches actions
of a running run, asks the model and verifies.  It is left in one of three ways: with
a candidate that the last attempt has just verified clean, without one, or by
something thrown.  The rest of the run commits such a candidate and dispatches one
terminal action (`startAgentRun_shape`).
-/

namespace DashQL.Agent

open List

open Traced

/-! ## Steps -/

section Steps

variable {α : Type} (deps : AgentRunDeps)

theorem dispatch_ensures (action : ℤ → AgentRunAction) :
    (dispatchAgent deps action).Ensures
      (fun _ trace => ∃ timestamp, trace = [.dispatched (action timestamp)])
      fun _ _ => False := by
  refine Ensures.bind (P := fun _ trace => trace = []) (ensures_update fun _ => rfl) ?_
  intro time trace htrace
  subst htrace
  exact ensures_emit ⟨_, rfl⟩

theorem call_ensures (answer : ℕ → Except Thrown α) :
    (call deps answer).Ensures (fun a trace => trace = [] ∧ ∃ time, answer time = .ok a)
      fun _ trace => trace = [] := by
  refine Ensures.bind (P := fun _ trace => trace = []) (ensures_update fun _ => rfl) ?_
  intro time trace htrace
  subst htrace
  exact ensures_lift (fun a ha => ⟨rfl, time, ha⟩) fun _ _ => rfl

end Steps

/-! ## Progress -/

/-- Asking the model, verifying, or dispatching an action of a running run. -/
def DriverEvent.progress : DriverEvent → Bool
  | .dispatched action => action.progress
  | .prompted _ _ | .verified _ _ => true
  | _ => false

def DriverEvent.asks : DriverEvent → Bool
  | .prompted .generate _ | .prompted .repair _ => true
  | _ => false

/-- A part of a run with the given number of generate and repair calls that neither ends the run
nor applies anything. -/
structure Progress (count : ℕ) (trace : List DriverEvent) : Prop where
  all : ∀ event ∈ trace, event.progress = true
  asked : trace.countP DriverEvent.asks = count

/-- Progress that something thrown has cut short. -/
def Stopped (limit : ℕ) (trace : List DriverEvent) : Prop :=
  ∃ count progress observed, count ≤ limit ∧ Progress count progress ∧
    (observed = [] ∨ observed = [.abortObserved]) ∧ trace = progress ++ observed

theorem Progress.nil : Progress 0 [] := ⟨fun event h => absurd h (by simp), rfl⟩

theorem progress_dispatched {action : AgentRunAction} (h : action.progress = true) :
    Progress 0 [.dispatched action] := by
  refine ⟨fun event hevent => ?_, rfl⟩
  rw [mem_singleton.mp hevent]
  exact h

variable {trace : List DriverEvent}

theorem Progress.append {count count' : ℕ} {trace' : List DriverEvent} (h : Progress count trace)
    (h' : Progress count' trace') : Progress (count + count') (trace ++ trace') := by
  refine ⟨?_, ?_⟩
  · intro event hevent
    rcases mem_append.mp hevent with hleft | hright
    · exact h.all event hleft
    · exact h'.all event hright
  · rw [countP_append, h.asked, h'.asked]

theorem Progress.stopped {count limit : ℕ} (h : Progress count trace) (hlimit : count ≤ limit) :
    Stopped limit trace :=
  ⟨count, trace, [], hlimit, h, .inl rfl, (append_nil _).symm⟩

theorem Stopped.mono {limit limit' : ℕ} (h : Stopped limit trace) (hle : limit ≤ limit') :
    Stopped limit' trace := by
  obtain ⟨count, progress, observed, hcount, hrest⟩ := h
  exact ⟨count, progress, observed, hcount.trans hle, hrest⟩

theorem Stopped.after {count limit : ℕ} {trace' : List DriverEvent} (h : Progress count trace)
    (h' : Stopped limit trace') : Stopped (count + limit) (trace ++ trace') := by
  obtain ⟨count', progress, observed, hcount, hprogress, hobserved, rfl⟩ := h'
  exact ⟨count + count', trace ++ progress, observed, by omega, h.append hprogress, hobserved,
    (append_assoc _ _ _).symm⟩

/-- A computation of the loop makes progress with the given number of calls, and what it returns
is as stated; one that throws has made at most as many. -/
def Advances {α : Type} (m : Run α) (count : ℕ) (P : α → List DriverEvent → Prop) : Prop :=
  m.Ensures (fun a trace => Progress count trace ∧ P a trace) fun _ trace => Stopped count trace

section Rules

variable {α β : Type} {m : Run α} {next : α → Run β} {count count' : ℕ}
  {P P' : α → List DriverEvent → Prop} {Q : β → List DriverEvent → Prop}

theorem Advances.mono (h : Advances m count P)
    (hpost : ∀ a trace, P a trace → P' a trace) : Advances m count P' :=
  Ensures.mono h (fun a trace hkept => ⟨hkept.1, hpost a trace hkept.2⟩) fun _ _ hkept => hkept

theorem Advances.andThen (h : Advances m count P)
    (hnext : ∀ a trace, P a trace → Advances (next a) count' fun b later => Q b (trace ++ later)) :
    Advances (m >>= next) (count + count') Q := by
  have hstopped : m.Ensures (fun a trace => Progress count trace ∧ P a trace)
      fun _ trace => Stopped (count + count') trace :=
    Ensures.mono h (fun _ _ hkept => hkept) fun _ _ hkept => hkept.mono (Nat.le_add_right _ _)
  refine hstopped.bind ?_
  intro a trace hkept
  refine Ensures.mono (hnext a trace hkept.2) ?_ ?_
  · intro b later hlater
    exact ⟨hkept.1.append hlater.1, hlater.2⟩
  · intro e later hlater
    exact Stopped.after hkept.1 hlater

/-- A first part without a call. -/
theorem Advances.bind (h : Advances m 0 P)
    (hnext : ∀ a trace, P a trace → Advances (next a) count fun b later => Q b (trace ++ later)) :
    Advances (m >>= next) count Q := by
  have hboth := h.andThen hnext
  rwa [Nat.zero_add] at hboth

/-- A last part without a call. -/
theorem Advances.followed (h : Advances m count P)
    (hnext : ∀ a trace, P a trace → Advances (next a) 0 fun b later => Q b (trace ++ later)) :
    Advances (m >>= next) count Q :=
  h.andThen hnext

theorem advances_pure {a : α} (h : P a []) : Advances (pure a : Run α) 0 P :=
  ensures_pure ⟨Progress.nil, h⟩

theorem advances_emit {event : DriverEvent} {P : Unit → List DriverEvent → Prop}
    (hprogress : event.progress = true) (hcount : [event].countP DriverEvent.asks = count)
    (h : P () [event]) : Advances (emit event : Run Unit) count P :=
  ensures_emit ⟨⟨fun _ hfound => mem_singleton.mp hfound ▸ hprogress, hcount⟩, h⟩

theorem advances_dispatch (deps : AgentRunDeps) {action : ℤ → AgentRunAction}
    (h : ∀ timestamp, (action timestamp).progress = true) :
    Advances (dispatchAgent deps action) 0
      fun _ trace => ∃ timestamp, trace = [.dispatched (action timestamp)] := by
  refine (dispatch_ensures deps action).mono ?_ fun _ _ hnever => hnever.elim
  intro _ trace htrace
  obtain ⟨timestamp, rfl⟩ := htrace
  exact ⟨progress_dispatched (h timestamp), timestamp, rfl⟩

theorem advances_call (deps : AgentRunDeps) (answer : ℕ → Except Thrown α) :
    Advances (call deps answer) 0 fun a trace => trace = [] ∧ ∃ time, answer time = .ok a := by
  refine (call_ensures deps answer).mono ?_ ?_
  · intro a trace htrace
    exact ⟨htrace.1 ▸ Progress.nil, htrace⟩
  · intro _ trace htrace
    exact htrace ▸ Progress.nil.stopped (Nat.zero_le _)

theorem advances_throwIfAborted : Advances throwIfAborted 0 fun _ trace => trace = [] := by
  refine Ensures.bind (P := fun _ trace => trace = []) (ensures_update fun _ => rfl) ?_
  intro aborted trace htrace
  subst htrace
  cases aborted with
  | false => exact advances_pure rfl
  | true =>
    refine Ensures.bind (P := fun _ trace => trace = [.abortObserved]) (ensures_emit rfl) ?_
    intro _ trace htrace
    subst htrace
    exact ensures_lift (fun a ha => by cases ha) fun e he =>
      ⟨0, [], [.abortObserved], le_refl 0, Progress.nil, .inr rfl, rfl⟩

end Rules

/-! ## One attempt -/

/-- The verdicts of the host are ok exactly when they list no error. -/
def AgentHost.VerdictsAgree (host : AgentHost) : Prop :=
  ∀ time candidateText verdict, host.verify time candidateText = .ok verdict →
    (verdict.ok = true ↔ verdict.parserErrors = [] ∧ verdict.analyzerErrors = [])

/-- A verdict without errors that has, for a chart, a specification. -/
structure VerifyResult.Clean (intent : AgentIntent) (verdict : VerifyResult) : Prop where
  parser : verdict.parserErrors = []
  analyzer : verdict.analyzerErrors = []
  charted : intent = .visualize → 0 < verdict.visualizationSpecs

/-- A trace ends with the clean verdict on a candidate and the result of the attempt. -/
def VerifiedBy (intent : AgentIntent) (attempt : ℕ) (candidateText : String)
    (trace : List DriverEvent) : Prop :=
  ∃ verdict raw timestamp, verdict.Clean intent ∧
    [.verified candidateText verdict,
      .dispatched (.attemptResult ⟨attempt, some candidateText, raw, [], timestamp⟩)] <:+ trace

def Attempted (intent : AgentIntent) (attempt : ℕ) (loop : LoopState)
    (trace : List DriverEvent) : Prop :=
  loop.finalAttempt = attempt ∧
    (loop.succeeded = true →
      ∃ candidateText, loop.candidateText = some candidateText ∧
        VerifiedBy intent attempt candidateText trace)

variable {intent : AgentIntent}

theorem VerifiedBy.after {attempt : ℕ} {candidateText : String} {later : List DriverEvent}
    (h : VerifiedBy intent attempt candidateText later) (trace : List DriverEvent) :
    VerifiedBy intent attempt candidateText (trace ++ later) := by
  obtain ⟨verdict, raw, timestamp, hclean, hsuffix⟩ := h
  exact ⟨verdict, raw, timestamp, hclean, hsuffix.trans (suffix_append _ _)⟩

theorem Attempted.after {attempt : ℕ} {loop : LoopState} {later : List DriverEvent}
    (h : Attempted intent attempt loop later) (trace : List DriverEvent) :
    Attempted intent attempt loop (trace ++ later) := by
  refine ⟨h.1, fun hsucceeded => ?_⟩
  obtain ⟨candidateText, hcandidate, hverified⟩ := h.2 hsucceeded
  exact ⟨candidateText, hcandidate, hverified.after trace⟩

section Attempt

variable {deps : AgentRunDeps} {input : LoopInput}

theorem errors_of_withSpecDiagnosis {prompts : AgentPrompts} {raw : Option String}
    {errors : List String} (h : withSpecDiagnosis prompts intent raw errors = []) :
    errors = [] := by
  cases intent with
  | sql => exact h
  | visualize =>
    cases raw with
    | none => exact h
    | some raw => exact (append_eq_nil_iff.mp h).2

theorem clean_of_verifyErrors {verdict : VerifyResult}
    (hok : verdict.ok = true ↔ verdict.parserErrors = [] ∧ verdict.analyzerErrors = [])
    (h : verifyErrors intent verdict = []) : verdict.Clean intent := by
  unfold verifyErrors at h
  obtain ⟨hlists, hcharted⟩ := append_eq_nil_iff.mp h
  obtain ⟨hparser, hanalyzer⟩ := append_eq_nil_iff.mp hlists
  refine ⟨hparser, hanalyzer, fun hintent => ?_⟩
  have hverdict := hok.mpr ⟨hparser, hanalyzer⟩
  by_contra hnone
  have hzero : verdict.visualizationSpecs = 0 := by omega
  simp [hverdict, hintent, hzero] at hcharted

theorem recordAttempt_advances (attempt : ℕ) (candidateText : String) (raw : Option String)
    (errors : List String) (succeeded : Bool) :
    Advances (recordAttempt deps attempt candidateText raw errors succeeded) 0
      fun loop trace => loop = ⟨some candidateText, errors, some candidateText, succeeded, attempt⟩ ∧
        ∃ timestamp, trace = [.dispatched (.attemptResult
          ⟨attempt, some candidateText, some raw, errors, timestamp⟩)] := by
  refine (advances_dispatch deps fun _ => rfl).bind fun _ trace htrace => ?_
  obtain ⟨timestamp, rfl⟩ := htrace
  exact advances_pure ⟨rfl, timestamp, rfl⟩

/-- The result of an attempt that did not succeed. -/
theorem recordAttempt_attempted (attempt : ℕ) (candidateText : String) (raw : Option String)
    (errors : List String) :
    Advances (recordAttempt deps attempt candidateText raw errors false) 0
      (Attempted input.intent attempt) := by
  refine (recordAttempt_advances attempt candidateText raw errors false).mono ?_
  intro loop trace hloop
  rw [hloop.1]
  exact ⟨rfl, fun hsucceeded => absurd hsucceeded Bool.false_ne_true⟩

/-- An extracted candidate succeeds only if it was verified clean. -/
theorem verifyCandidate_advances (hverdicts : deps.host.VerdictsAgree) (attempt : ℕ)
    (raw : Option String) (candidateText : String) :
    Advances (verifyCandidate deps input attempt raw candidateText) 0
      (Attempted input.intent attempt) := by
  refine (advances_dispatch deps fun _ => rfl).bind fun _ phase _ => ?_
  cases hblank : isBlank candidateText with
  | true => exact (recordAttempt_attempted _ _ _ _).mono fun _ _ h => h.after phase
  | false =>
    refine (advances_call deps _).bind fun verdict called hcalled => ?_
    obtain ⟨rfl, time, hverdict⟩ := hcalled
    refine Advances.bind (P := fun _ trace => trace = [.verified candidateText verdict])
      (advances_emit rfl rfl rfl) fun _ verified hverified => ?_
    subst hverified
    refine advances_throwIfAborted.bind fun _ quiet hquiet => ?_
    subst hquiet
    refine (recordAttempt_advances attempt candidateText raw _ _).mono ?_
    intro loop recorded hrecorded
    obtain ⟨rfl, timestamp, rfl⟩ := hrecorded
    refine ⟨rfl, fun hsucceeded => ⟨candidateText, rfl, ?_⟩⟩
    have herrors := length_eq_zero_iff.mp (of_decide_eq_true hsucceeded)
    refine VerifiedBy.after ?_ phase
    refine ⟨verdict, some raw, timestamp, ?_, ?_⟩
    · exact clean_of_verifyErrors (hverdicts time candidateText verdict hverdict)
        (errors_of_withSpecDiagnosis herrors)
    · rw [herrors]
      exact suffix_refl _

theorem loggedGenerate_advances {kind : PromptKind} (prompt : String) {count : ℕ}
    (hcount : [DriverEvent.prompted kind prompt].countP DriverEvent.asks = count) :
    Advances (loggedGenerate deps kind prompt) count fun _ _ => True :=
  (advances_emit (P := fun _ _ => True) rfl hcount trivial).followed
    fun _ _ _ => (advances_call deps _).mono fun _ _ _ => trivial

theorem buildPrompt_advances (loop : LoopState) :
    Advances (buildPrompt deps input loop) 0 fun _ _ => True := by
  unfold buildPrompt
  cases input.intent with
  | sql => exact advances_pure trivial
  | visualize => exact (advances_call deps _).bind fun _ _ _ => advances_pure trivial

theorem extract_advances (completion : String) :
    Advances (extract deps input completion) 0 fun _ _ => True := by
  unfold extract
  cases input.intent with
  | sql => exact advances_pure trivial
  | visualize =>
    refine Advances.bind (P := fun _ _ => True) ?_ fun _ _ _ => advances_pure trivial
    refine (call_ensures deps _).attempt ?_ ?_
    · intro _ trace htrace
      exact ⟨htrace.1 ▸ Progress.nil, trivial⟩
    · intro _ trace htrace
      exact ⟨htrace ▸ Progress.nil, trivial⟩

theorem attemptPhase_active (attempt : ℕ) (timestamp : ℤ) (message : String) :
    (AgentRunAction.phase ⟨if 1 < attempt then .repairing else .generating, attempt, message,
      timestamp⟩).progress = true := by
  by_cases hattempt : 1 < attempt
  · rw [if_pos hattempt]
    rfl
  · rw [if_neg hattempt]
    rfl

/-- An attempt asks the model once. -/
theorem runAttempt_advances (hverdicts : deps.host.VerdictsAgree) (attempt : ℕ) (loop : LoopState) :
    Advances (runAttempt deps input attempt loop) 1 (Attempted input.intent attempt) := by
  refine (advances_dispatch deps fun _ => attemptPhase_active _ _ _).bind fun _ phase _ => ?_
  refine (buildPrompt_advances loop).bind fun prompt built _ => ?_
  have hkind : [DriverEvent.prompted (if 1 < attempt then .repair else .generate)
      prompt].countP DriverEvent.asks = 1 := by
    by_cases hattempt : 1 < attempt
    · rw [if_pos hattempt]
      rfl
    · rw [if_neg hattempt]
      rfl
  refine (loggedGenerate_advances prompt hkind).followed fun completion asked _ => ?_
  refine advances_throwIfAborted.bind fun _ quiet _ => ?_
  refine (extract_advances completion).bind fun extracted called _ => ?_
  refine Advances.mono (P := Attempted input.intent attempt) ?_ fun _ later hlater =>
    ((((hlater.after called).after quiet).after asked).after built).after phase
  cases extracted.2 with
  | error e => exact recordAttempt_attempted _ _ _ _
  | ok candidateText => exact verifyCandidate_advances hverdicts attempt _ candidateText

/-! ## The loop -/

/-- The end of the loop: with the candidate that the last attempt has verified, if one
succeeded. -/
def LoopEnded (intent : AgentIntent) (limit attempt : ℕ) (loop : LoopState)
    (trace : List DriverEvent) : Prop :=
  ∃ count, count ≤ limit ∧ Progress count trace ∧
    (loop.succeeded = true → ∃ candidateText, loop.candidateText = some candidateText ∧
      loop.finalAttempt + 1 = attempt + count ∧
        VerifiedBy intent loop.finalAttempt candidateText trace)

theorem runAttempts_ensures (hverdicts : deps.host.VerdictsAgree) (remaining attempt : ℕ)
    (loop : LoopState) (hloop : loop.succeeded = false) :
    (runAttempts deps input remaining attempt loop).Ensures
      (LoopEnded input.intent remaining attempt) fun _ trace => Stopped remaining trace := by
  induction remaining generalizing attempt loop with
  | zero =>
    refine ensures_pure ⟨0, le_refl 0, Progress.nil, fun hsucceeded => ?_⟩
    rw [hloop] at hsucceeded
    exact absurd hsucceeded Bool.false_ne_true
  | succ remaining ih =>
    have hattempt : (runAttempt deps input attempt loop).Ensures
        (fun attempted trace => Progress 1 trace ∧ Attempted input.intent attempt attempted trace)
        fun _ trace => Stopped (remaining + 1) trace :=
      Ensures.mono (runAttempt_advances hverdicts attempt loop) (fun _ _ h => h)
        fun _ _ h => h.mono (Nat.le_add_left 1 remaining)
    refine hattempt.bind fun attempted trace htrace => ?_
    obtain ⟨hprogress, hfinal, hverified⟩ := htrace
    cases hsucceeded : attempted.succeeded with
    | true =>
      refine ensures_pure ⟨1, Nat.le_add_left 1 remaining, ?_, fun _ => ?_⟩
      · rw [append_nil]
        exact hprogress
      · obtain ⟨candidateText, hcandidate, hclean⟩ := hverified hsucceeded
        rw [append_nil, hfinal]
        exact ⟨candidateText, hcandidate, rfl, hclean⟩
    | false =>
      refine (ih (attempt + 1) attempted hsucceeded).mono ?_ ?_
      · intro ended later hlater
        obtain ⟨count, hcount, hlaterProgress, hended⟩ := hlater
        refine ⟨1 + count, by omega, hprogress.append hlaterProgress, fun hlast => ?_⟩
        obtain ⟨candidateText, hcandidate, hnumber, hclean⟩ := hended hlast
        exact ⟨candidateText, hcandidate, by omega, hclean.after trace⟩
      · intro e later hlater
        exact (Stopped.after hprogress hlater).mono (by omega)

/-! ## The end of a run -/

def AgentRunAction.unapplied : AgentRunAction → Bool
  | .failed _ _ _ | .cancelled _ => true
  | _ => false

/-- A candidate is about to be applied: the last attempt verified it clean, and only the phase of
the run has changed since. -/
def Ready (intent : AgentIntent) (candidateText : String) (progress : List DriverEvent) : Prop :=
  ∃ attempt verifying phase, progress = verifying ++ [.dispatched (.phase phase)] ∧
    verifying.countP DriverEvent.asks = attempt ∧ VerifiedBy intent attempt candidateText verifying

/-- What is applied after the progress of a run that ends with the given action. -/
inductive Ending (progress : List DriverEvent) : List DriverEvent → AgentRunAction → Prop
  | stopped {final : AgentRunAction} (hfinal : final.unapplied = true) : Ending progress [] final
  | commitThrew {intent : AgentIntent} {candidateText : String} {final : AgentRunAction}
      (hready : Ready intent candidateText progress) (hfinal : final.unapplied = true) :
      Ending progress [.commitCalled intent candidateText] final
  | applied {intent : AgentIntent} {candidateText message : String} {timestamp : ℤ}
      (hready : Ready intent candidateText progress) :
      Ending progress [.commitCalled intent candidateText, .commitReturned]
        (.succeeded message timestamp)

/-- Progress, what is applied, possibly a look at the raised signal, and one last action. -/
def RunEnded (limit : ℕ) (trace : List DriverEvent) : Prop :=
  ∃ count progress applied observed final, count ≤ limit ∧ Progress count progress ∧
    Ending progress applied final ∧ (∀ event ∈ observed, event = .abortObserved) ∧
      trace = progress ++ applied ++ observed ++ [.dispatched final]

/-- The same before the last action, which is one that does not report success. -/
def RunThrew (limit : ℕ) (trace : List DriverEvent) : Prop :=
  ∃ count progress applied observed, count ≤ limit ∧ Progress count progress ∧
    (∀ final : AgentRunAction, final.unapplied = true → Ending progress applied final) ∧
      (∀ event ∈ observed, event = .abortObserved) ∧ trace = progress ++ applied ++ observed

theorem Stopped.threw {limit : ℕ} (h : Stopped limit trace) : RunThrew limit trace := by
  obtain ⟨count, progress, observed, hcount, hprogress, hobserved, rfl⟩ := h
  refine ⟨count, progress, [], observed, hcount, hprogress, fun _ hfinal => .stopped hfinal, ?_, ?_⟩
  · intro event hevent
    rcases hobserved with rfl | rfl
    · cases hevent
    · exact mem_singleton.mp hevent
  · rw [append_nil]

/-- Applying a candidate dispatches a phase, calls `commit` and reports success; anything that is
thrown leaves a part of this. -/
theorem applyCandidate_ensures (finalAttempt : ℕ) (candidateText : String) :
    (applyCandidate deps input finalAttempt candidateText).Ensures
      (fun _ trace => ∃ phase message timestamp, (AgentRunAction.phase phase).progress = true ∧
        trace = [.dispatched (.phase phase), .commitCalled input.intent candidateText, .commitReturned,
          .dispatched (.succeeded message timestamp)])
      fun _ trace => trace = [] ∨ ∃ phase, (AgentRunAction.phase phase).progress = true ∧
        trace = [.dispatched (.phase phase), .commitCalled input.intent candidateText] := by
  refine Ensures.bind ((call_ensures deps _).mono (fun _ _ h => h.1) fun _ _ h => .inl h) ?_
  intro plan called hcalled
  subst hcalled
  refine Ensures.bind ((dispatch_ensures deps _).mono (fun _ _ h => h)
    fun _ _ hnever => hnever.elim) ?_
  intro _ phase hphase
  obtain ⟨started, rfl⟩ := hphase
  refine Ensures.bind (P := fun _ trace => trace = [.commitCalled input.intent candidateText])
    (ensures_emit rfl) ?_
  intro _ committed hcommitted
  subst hcommitted
  refine Ensures.bind ((call_ensures deps _).mono (fun _ _ h => h.1) ?_) ?_
  · intro _ thrown hthrown
    subst hthrown
    exact .inr ⟨_, rfl, rfl⟩
  intro _ committed hcommitted
  subst hcommitted
  refine Ensures.bind (P := fun _ trace => trace = [.commitReturned]) (ensures_emit rfl) ?_
  intro _ returned hreturned
  subst hreturned
  refine (dispatch_ensures deps _).mono ?_ fun _ _ hnever => hnever.elim
  intro _ success hsuccess
  obtain ⟨timestamp, rfl⟩ := hsuccess
  exact ⟨_, _, timestamp, rfl, rfl⟩

theorem finishRun_ensures {limit : ℕ} {loop : LoopState}
    (h : LoopEnded input.intent limit 1 loop trace) :
    (finishRun deps input loop).Ensures (fun _ later => RunEnded limit (trace ++ later))
      fun _ later => RunThrew limit (trace ++ later) := by
  obtain ⟨count, hcount, hprogress, hended⟩ := h
  have hfailed : ∀ action : ℤ → AgentRunAction, (∀ timestamp, (action timestamp).unapplied = true) →
      (dispatchAgent deps action).Ensures (fun _ later => RunEnded limit (trace ++ later))
        fun _ later => RunThrew limit (trace ++ later) := by
    intro action hunapplied
    refine (dispatch_ensures deps action).mono ?_ fun _ _ hnever => hnever.elim
    intro _ later hlater
    obtain ⟨timestamp, rfl⟩ := hlater
    exact ⟨count, trace, [], [], _, hcount, hprogress, .stopped (hunapplied timestamp),
      fun event hevent => (not_mem_nil hevent).elim, by rw [append_nil, append_nil]⟩
  cases hsucceeded : loop.succeeded with
  | false =>
    unfold finishRun
    rw [hsucceeded]
    exact hfailed _ fun _ => rfl
  | true =>
    obtain ⟨candidateText, hcandidate, hnumber, hverified⟩ := hended hsucceeded
    have hready : ∀ phase,
        Ready input.intent candidateText (trace ++ [.dispatched (.phase phase)]) :=
      fun phase => ⟨loop.finalAttempt, trace, phase, rfl, by rw [hprogress.asked]; omega, hverified⟩
    unfold finishRun
    rw [hsucceeded, hcandidate]
    refine (applyCandidate_ensures loop.finalAttempt candidateText).mono ?_ ?_
    · intro _ later hlater
      obtain ⟨phase, message, timestamp, hphase, rfl⟩ := hlater
      refine ⟨count, trace ++ [.dispatched (.phase phase)], _, [], .succeeded message timestamp,
        hcount, ?_, .applied (hready phase), fun event hevent => (not_mem_nil hevent).elim, ?_⟩
      · exact hprogress.append (progress_dispatched hphase)
      · simp
    · intro _ later hlater
      rcases hlater with rfl | ⟨phase, hphase, rfl⟩
      · rw [append_nil]
        exact (hprogress.stopped hcount).threw
      · refine ⟨count, trace ++ [.dispatched (.phase phase)], _, [], hcount, ?_,
          fun _ hfinal => .commitThrew (hready phase) hfinal,
          fun event hevent => (not_mem_nil hevent).elim, ?_⟩
        · exact hprogress.append (progress_dispatched hphase)
        · simp

/-! ## The whole run -/

variable {params : AgentRunParams}

theorem classify_advances : Advances (classify deps params) 0 fun _ _ => True := by
  unfold classify
  cases params.intentOverride with
  | some intent =>
    exact (advances_dispatch deps fun _ => rfl).bind fun _ _ _ => advances_pure trivial
  | none =>
    refine (loggedGenerate_advances _ rfl).bind fun classification _ _ => ?_
    refine advances_throwIfAborted.bind fun _ _ _ => ?_
    exact (advances_dispatch deps fun _ => rfl).bind fun _ _ _ => advances_pure trivial

theorem runBody_ensures (hverdicts : deps.host.VerdictsAgree) :
    (runBody deps params).Ensures (fun _ trace => RunEnded params.limit.toNat trace)
      fun _ trace => RunThrew params.limit.toNat trace := by
  refine Ensures.bind (Ensures.mono classify_advances (fun _ _ h => h.1)
    fun _ _ h => (h.mono (Nat.zero_le _)).threw) ?_
  intro intent classified hclassified
  refine Ensures.bind (Ensures.mono (advances_call deps _) (fun _ _ h => h.1)
    fun _ _ h => ((Stopped.after hclassified h).mono (Nat.zero_le _)).threw) ?_
  intro context asked hasked
  have hprefix : Progress 0 (classified ++ asked) := hclassified.append hasked
  refine Ensures.bind (Ensures.mono
    (runAttempts_ensures hverdicts params.limit.toNat 1 ⟨none, [], none, false, 0⟩ rfl)
    (fun _ _ h => h) fun _ looped h => ?_) ?_
  · rw [← append_assoc]
    exact ((Stopped.after hprefix h).mono (by omega)).threw
  · intro loop looped hlooped
    simp only [← append_assoc]
    refine finishRun_ensures ?_
    obtain ⟨count, hcount, hprogress, hended⟩ := hlooped
    refine ⟨count, hcount, ?_, fun hsucceeded => ?_⟩
    · have hboth := hprefix.append hprogress
      rwa [Nat.zero_add] at hboth
    · obtain ⟨candidateText, hcandidate, hnumber, hverified⟩ := hended hsucceeded
      exact ⟨candidateText, hcandidate, hnumber, hverified.after _⟩

/-- Whatever was thrown, the run ends with one action that does not report success. -/
theorem catchRun_ensures (e : Thrown) :
    (catchRun deps e).Ensures
      (fun _ trace => ∃ observed final, (∀ event ∈ observed, event = .abortObserved) ∧
        AgentRunAction.unapplied final = true ∧ trace = observed ++ [.dispatched final])
      fun _ _ => False := by
  refine Ensures.bind (P := fun _ trace => trace = []) (ensures_update fun _ => rfl) ?_
  intro aborted quiet hquiet
  subst hquiet
  cases hcancelled : aborted || decide (e.name = some "AbortError") with
  | false =>
    simp only [Bool.false_eq_true, if_false]
    refine (dispatch_ensures deps _).mono ?_ fun _ _ hnever => hnever
    intro _ trace htrace
    obtain ⟨timestamp, rfl⟩ := htrace
    exact ⟨[], _, fun event hevent => (not_mem_nil hevent).elim, rfl, rfl⟩
  | true =>
    simp only [if_true]
    refine Ensures.bind (P := fun _ trace => trace = [.abortObserved]) (ensures_emit rfl) ?_
    intro _ observed hobserved
    subst hobserved
    refine (dispatch_ensures deps _).mono ?_ fun _ _ hnever => hnever
    intro _ trace htrace
    obtain ⟨timestamp, rfl⟩ := htrace
    exact ⟨[.abortObserved], _, fun event hevent => mem_singleton.mp hevent, rfl, rfl⟩

theorem RunThrew.ended {limit : ℕ} {observed : List DriverEvent} {final : AgentRunAction}
    (h : RunThrew limit trace) (hobserved : ∀ event ∈ observed, event = .abortObserved)
    (hfinal : final.unapplied = true) :
    RunEnded limit (trace ++ (observed ++ [.dispatched final])) := by
  obtain ⟨count, progress, applied, looked, hcount, hprogress, hending, hlooked, rfl⟩ := h
  refine ⟨count, progress, applied, looked ++ observed, final, hcount, hprogress,
    hending final hfinal, ?_, by simp⟩
  intro event hevent
  rcases mem_append.mp hevent with hleft | hright
  · exact hlooked event hleft
  · exact hobserved event hright

/-- A run returns; it starts with `AGENT_START` and then makes progress, applies a candidate or
does not, and ends with one action. -/
theorem startAgentRun_ensures (hverdicts : deps.host.VerdictsAgree) (traceId abort : ℕ) :
    (startAgentRun deps params traceId abort).Ensures
      (fun _ trace => ∃ registered payload ended,
        (registered = [] ∨ registered = [.registered params.runId]) ∧
          RunEnded params.limit.toNat ended ∧
            trace = registered ++ .dispatched (.start payload) :: ended)
      fun _ _ => False := by
  refine Ensures.bind
    (P := fun _ trace => trace = [] ∨ trace = [DriverEvent.registered params.runId]) ?_ ?_
  · unfold registerRun
    cases hregisters : params.contextScriptKey.isSome && deps.host.hasRegisterRun with
    | false =>
      simp only [Bool.false_eq_true, if_false]
      exact ensures_pure (.inl rfl)
    | true =>
      simp only [if_true]
      exact ensures_emit (.inr rfl)
  · intro _ registered hregistered
    refine Ensures.bind ((dispatch_ensures deps _).mono (fun _ _ h => h) fun _ _ h => h) ?_
    intro _ started hstarted
    obtain ⟨timestamp, rfl⟩ := hstarted
    refine Ensures.mono (P := fun _ trace => RunEnded params.limit.toNat trace)
      (E := fun _ _ => False) ?_ ?_ fun _ _ h => h
    · refine (runBody_ensures hverdicts).handle fun e trace hthrew => ?_
      refine (catchRun_ensures e).mono ?_ fun _ _ h => h
      intro _ later hlater
      obtain ⟨observed, final, hobserved, hfinal, rfl⟩ := hlater
      exact hthrew.ended hobserved hfinal
    · intro _ ended hended
      exact ⟨registered, _, ended, hregistered, hended, rfl⟩

end Attempt

end DashQL.Agent
