import DashQL.Agent.AgentRunProvider
import DashQL.Agent.AgentRunTraces

/-!
# The outcome of an agent run

Whatever the model, the host and the user do, a run dispatches one terminal action and
that last, commits at most one candidate, one that the last attempt has verified
clean, and asks the model at most as often as it may (`WellRun`).
-/

namespace DashQL.Agent

open List

open Traced

/-! ## Well-run traces -/

def dispatches (trace : List DriverEvent) : List AgentRunAction :=
  trace.filterMap fun event =>
    match event with
    | .dispatched action => some action
    | _ => none

def DriverEvent.commits : DriverEvent → Bool
  | .commitCalled _ _ => true
  | _ => false

/-- What only an attempt does: ask the model, verify, or dispatch its result. -/
def DriverEvent.attempts : DriverEvent → Bool
  | .prompted _ _ | .verified _ _ | .dispatched (.attemptResult _) => true
  | _ => false

/-- The last attempt of a run has verified a candidate clean before, and no other attempt
follows. -/
def VerifiedLast (intent : AgentIntent) (candidateText : String)
    (before after : List DriverEvent) : Prop :=
  ∃ earlier verdict result later,
    before = earlier ++ .verified candidateText verdict ::
      .dispatched (.attemptResult result) :: later ∧
    verdict.Clean intent ∧ result.candidateText = some candidateText ∧ result.errors = [] ∧
    result.attempt = earlier.countP DriverEvent.asks ∧
    ∀ event ∈ later ++ after, event.attempts = false

/-- What is promised of the trace of a run with a limit on its attempts. -/
structure WellRun (limit : ℤ) (trace : List DriverEvent) : Prop where
  /-- `AGENT_START`, then actions of a running run, then one terminal action. -/
  dispatched : ∃ payload middle final,
    dispatches trace = .start payload :: (middle ++ [final]) ∧
      (∀ action ∈ middle, action.progress = true) ∧ final.terminal = true
  commits : trace.countP DriverEvent.commits ≤ 1
  /-- The committed candidate is the one of the last attempt, and its verdict was clean. -/
  verified : ∀ before after intent candidateText,
    trace = before ++ .commitCalled intent candidateText :: after →
      VerifiedLast intent candidateText before after
  unobserved : ∀ before after intent candidateText,
    trace = before ++ .commitCalled intent candidateText :: after → .abortObserved ∉ before
  committed : ∀ before after message timestamp,
    trace = before ++ .dispatched (.succeeded message timestamp) :: after →
      .commitReturned ∈ before
  asked : (trace.countP DriverEvent.asks : ℤ) ≤ max 0 limit

/-! ## From the shape of a run -/

section Shape

variable {count : ℕ} {progress applied observed : List DriverEvent} {final : AgentRunAction}

theorem Progress.dispatches_progress (h : Progress count progress) :
    ∀ action ∈ dispatches progress, action.progress = true := by
  intro action haction
  obtain ⟨event, hevent, hsome⟩ := mem_filterMap.mp haction
  cases event with
  | dispatched found =>
    obtain rfl := Option.some.inj hsome
    exact h.all _ hevent
  | _ => cases hsome

theorem countP_eq_zero_of_all {p : DriverEvent → Bool} {trace : List DriverEvent}
    (h : ∀ event ∈ trace, p event = false) : trace.countP p = 0 := by
  refine countP_eq_zero.mpr fun event hevent => ?_
  rw [h event hevent]
  exact Bool.false_ne_true

theorem dispatches_append (trace later : List DriverEvent) :
    dispatches (trace ++ later) = dispatches trace ++ dispatches later :=
  filterMap_append

theorem dispatches_observed (h : ∀ event ∈ observed, event = .abortObserved) :
    dispatches observed = [] := by
  refine filterMap_eq_nil_iff.mpr fun event hevent => ?_
  rw [h event hevent]

theorem Ending.dispatches_applied (h : Ending progress applied final) : dispatches applied = [] := by
  cases h <;> rfl

theorem unapplied_terminal (h : final.unapplied = true) : final.terminal = true := by
  cases final with
  | failed error expected timestamp => rfl
  | cancelled timestamp => rfl
  | _ => cases h

theorem Ending.terminal (h : Ending progress applied final) : final.terminal = true := by
  cases h with
  | stopped hfinal => exact unapplied_terminal hfinal
  | commitThrew hready hfinal => exact unapplied_terminal hfinal
  | applied hready => rfl

/-- A run ends without applying anything, or it applies the candidate of its last attempt. -/
theorem Ending.cases_applied (h : Ending progress applied final) :
    applied = [] ∧ final.unapplied = true ∨
      ∃ intent candidateText rest, Ready intent candidateText progress ∧
        applied = .commitCalled intent candidateText :: rest ∧
          (∀ event ∈ rest, event = .commitReturned) ∧
            (final.unapplied = true ∨ .commitReturned ∈ rest) := by
  cases h with
  | stopped hfinal => exact .inl ⟨rfl, hfinal⟩
  | commitThrew hready hfinal =>
    exact .inr ⟨_, _, [], hready, rfl, fun _ hevent => (not_mem_nil hevent).elim, .inl hfinal⟩
  | applied hready =>
    exact .inr ⟨_, _, [.commitReturned], hready, rfl, fun _ hevent => mem_singleton.mp hevent,
      .inr (mem_singleton.mpr rfl)⟩

/-- The events before anything is applied: the run is attached and started, and makes progress. -/
structure Opening (count : ℕ) (before : List DriverEvent) : Prop where
  asked : before.countP DriverEvent.asks = count
  quiet : ∀ event ∈ before, event.commits = false ∧ event ≠ .abortObserved ∧
    ∀ message timestamp, event ≠ .dispatched (.succeeded message timestamp)

theorem Progress.opening (h : Progress count progress) {registered : List DriverEvent}
    {runId : ℕ} {payload : AgentStartPayload}
    (hregistered : registered = [] ∨ registered = [.registered runId]) :
    Opening count (registered ++ .dispatched (.start payload) :: progress) := by
  have hquiet : ∀ event ∈ progress, event.commits = false ∧ event ≠ .abortObserved ∧
      ∀ message timestamp, event ≠ .dispatched (.succeeded message timestamp) := by
    intro event hevent
    have hprogress := h.all event hevent
    refine ⟨?_, ?_, ?_⟩
    · cases event <;> first | rfl | cases hprogress
    · rintro rfl
      cases hprogress
    · rintro message timestamp rfl
      cases hprogress
  refine ⟨?_, ?_⟩
  · rw [countP_append, countP_cons, h.asked]
    rcases hregistered with rfl | rfl <;> exact Nat.zero_add _
  · intro event hevent
    rcases mem_append.mp hevent with hleft | hright
    · rcases hregistered with rfl | rfl
      · cases hleft
      · rw [mem_singleton.mp hleft]
        exact ⟨rfl, by simp, by simp⟩
    · rcases mem_cons.mp hright with rfl | hmem
      · exact ⟨rfl, by simp, by simp⟩
      · exact hquiet event hmem

/-- The events after a candidate is applied. -/
theorem closing_quiet {rest : List DriverEvent} (hrest : ∀ event ∈ rest, event = .commitReturned)
    (hobserved : ∀ event ∈ observed, event = .abortObserved) (hfinal : final.terminal = true) :
    ∀ event ∈ rest ++ observed ++ [.dispatched final],
      event.commits = false ∧ event.attempts = false ∧ event.asks = false := by
  intro event hevent
  rcases mem_append.mp hevent with hleft | hright
  · rcases mem_append.mp hleft with hreturned | hlooked
    · rw [hrest event hreturned]
      exact ⟨rfl, rfl, rfl⟩
    · rw [hobserved event hlooked]
      exact ⟨rfl, rfl, rfl⟩
  · rw [mem_singleton.mp hright]
    refine ⟨rfl, ?_, rfl⟩
    cases final with
    | attemptResult value => cases hfinal
    | _ => rfl

theorem unapplied_ne_succeeded (h : final.unapplied = true) (message : String) (timestamp : ℤ) :
    final ≠ .succeeded message timestamp := by
  rintro rfl
  cases h

theorem Ready.verified {intent : AgentIntent} {candidateText : String}
    (h : Ready intent candidateText progress) (head : List DriverEvent)
    (hhead : head.countP DriverEvent.asks = 0) :
    VerifiedLast intent candidateText (head ++ progress) [] := by
  obtain ⟨attempt, verifying, phase, rfl, hasked, verdict, raw, timestamp, hclean, hsuffix⟩ := h
  obtain ⟨earlier, rfl⟩ := hsuffix
  refine ⟨head ++ earlier, verdict, ⟨attempt, some candidateText, raw, [], timestamp⟩,
    [.dispatched (.phase phase)], ?_, hclean, rfl, rfl, ?_, ?_⟩
  · simp only [append_assoc, cons_append, nil_append]
  · rw [countP_append, hhead, Nat.zero_add, ← hasked, countP_append]
    rfl
  · intro event hevent
    rw [mem_singleton.mp hevent]
    rfl

end Shape

/-! ## Every run -/

section Runs

variable {limit : ℤ} {registered ended : List DriverEvent} {runId : ℕ} {payload : AgentStartPayload}

/-- The parts of the trace of a run: what happens before a candidate is applied, what is applied,
and the end. -/
structure Parts (limit : ℤ) (before applied observed : List DriverEvent) (final : AgentRunAction)
    (trace : List DriverEvent) : Prop where
  eq : trace = before ++ applied ++ observed ++ [.dispatched final]
  opening : ∃ count : ℕ, (count : ℤ) ≤ max 0 limit ∧ Opening count before
  observed : ∀ event ∈ observed, event = .abortObserved
  terminal : final.terminal = true

variable {before applied observed trace : List DriverEvent} {final : AgentRunAction}

/-- Where nothing is applied, nothing is committed. -/
theorem Parts.wellRun_of_unapplied (h : Parts limit before [] observed final trace)
    (hfinal : final.unapplied = true)
    (hdispatched : ∃ payload middle final, dispatches trace = .start payload :: (middle ++ [final]) ∧
      (∀ action ∈ middle, action.progress = true) ∧ final.terminal = true) :
    WellRun limit trace := by
  obtain ⟨count, hcount, hopening⟩ := h.opening
  have hclosing : ∀ event ∈ observed ++ [.dispatched final],
      event.commits = false ∧ event.attempts = false ∧ event.asks = false :=
    @closing_quiet observed final [] (fun _ hevent => (not_mem_nil hevent).elim) h.observed
      h.terminal
  have heq : trace = before ++ (observed ++ [.dispatched final]) := by
    rw [h.eq, append_nil, append_assoc]
  have hnone : ∀ event ∈ trace, event.commits = false := by
    intro event hevent
    rw [heq] at hevent
    rcases mem_append.mp hevent with hleft | hright
    · exact (hopening.quiet event hleft).1
    · exact (hclosing event hright).1
  have hnever : ∀ {left right : List DriverEvent} {intent : AgentIntent} {candidateText : String},
      trace ≠ left ++ .commitCalled intent candidateText :: right := by
    intro left right intent candidateText hcommit
    have hfalse := hnone (.commitCalled intent candidateText) (by rw [hcommit]; simp)
    cases hfalse
  refine ⟨hdispatched, ?_, fun _ _ _ _ hcommit => absurd hcommit hnever,
    fun _ _ _ _ hcommit => absurd hcommit hnever, ?_, ?_⟩
  · rw [countP_eq_zero_of_all hnone]
    exact Nat.zero_le 1
  · intro left right message timestamp hsucceeded
    have hmem : DriverEvent.dispatched (.succeeded message timestamp) ∈ trace := by
      rw [hsucceeded]
      simp
    rw [heq] at hmem
    rcases mem_append.mp hmem with hleft | hright
    · exact absurd rfl ((hopening.quiet _ hleft).2.2 message timestamp)
    · rcases mem_append.mp hright with hlooked | hlast
      · cases h.observed _ hlooked
      · have hsame := DriverEvent.dispatched.inj (mem_singleton.mp hlast)
        exact absurd hsame.symm (unapplied_ne_succeeded hfinal message timestamp)
  · rw [heq, countP_append, hopening.asked,
      countP_eq_zero_of_all fun event hevent => (hclosing event hevent).2.2]
    exact hcount

theorem Parts.wellRun_of_applied {intent : AgentIntent} {candidateText : String}
    {rest : List DriverEvent}
    (h : Parts limit before (.commitCalled intent candidateText :: rest) observed final trace)
    (hrest : ∀ event ∈ rest, event = .commitReturned)
    (hlast : final.unapplied = true ∨ .commitReturned ∈ rest)
    (hready : VerifiedLast intent candidateText before [])
    (hdispatched : ∃ payload middle final, dispatches trace = .start payload :: (middle ++ [final]) ∧
      (∀ action ∈ middle, action.progress = true) ∧ final.terminal = true) :
    WellRun limit trace := by
  obtain ⟨count, hcount, hopening⟩ := h.opening
  have hclosing := closing_quiet hrest h.observed h.terminal
  have heq : trace = before ++ .commitCalled intent candidateText ::
      (rest ++ observed ++ [.dispatched final]) := by
    rw [h.eq]
    simp only [append_assoc, cons_append]
  -- The only commit stands between the two parts.
  have hsplit : ∀ {left right : List DriverEvent} {intent' : AgentIntent} {candidateText' : String},
      trace = left ++ .commitCalled intent' candidateText' :: right →
        before = left ∧ DriverEvent.commitCalled intent candidateText =
          .commitCalled intent' candidateText' ∧ rest ++ observed ++ [.dispatched final] = right := by
    intro left right intent' candidateText' hcommit
    rw [heq] at hcommit
    refine (append_cons_inj_of_notMem ?_ ?_).mp hcommit
    · intro hmem
      have hfalse := (hopening.quiet _ hmem).1
      cases hfalse
    · intro hmem
      have hfalse := (hclosing _ hmem).1
      cases hfalse
  refine ⟨hdispatched, ?_, ?_, ?_, ?_, ?_⟩
  · rw [heq, countP_append, countP_cons,
      countP_eq_zero_of_all fun event hevent => (hopening.quiet event hevent).1,
      countP_eq_zero_of_all fun event hevent => (hclosing event hevent).1]
    exact le_refl 1
  · intro left right intent' candidateText' hcommit
    obtain ⟨rfl, hsame, rfl⟩ := hsplit hcommit
    obtain ⟨rfl, rfl⟩ := DriverEvent.commitCalled.inj hsame
    obtain ⟨earlier, verdict, result, later, hbefore, hclean, hcandidate, herrors, hattempt, hlater⟩ :=
      hready
    refine ⟨earlier, verdict, result, later, hbefore, hclean, hcandidate, herrors, hattempt, ?_⟩
    intro event hevent
    rcases mem_append.mp hevent with hleft | hright
    · exact hlater event (mem_append_left _ hleft)
    · exact (hclosing event hright).2.1
  · intro left right intent' candidateText' hcommit hobserved
    obtain ⟨rfl, -, -⟩ := hsplit hcommit
    exact (hopening.quiet _ hobserved).2.1 rfl
  · intro left right message timestamp hsucceeded
    -- Success is reported by the last event, so all that was applied stands before it.
    have hfront : ∀ event ∈ before ++ .commitCalled intent candidateText :: (rest ++ observed),
        event ≠ .dispatched (.succeeded message timestamp) := by
      intro event hevent
      rcases mem_append.mp hevent with hleft | hright
      · exact (hopening.quiet event hleft).2.2 message timestamp
      · rcases mem_cons.mp hright with rfl | hmem
        · simp
        · rcases mem_append.mp hmem with hreturned | hlooked
          · rw [hrest event hreturned]
            simp
          · rw [h.observed event hlooked]
            simp
    have hends : trace = (before ++ .commitCalled intent candidateText :: (rest ++ observed)) ++
        .dispatched final :: [] := by
      rw [heq]
      simp only [append_assoc, cons_append]
    rw [hends] at hsucceeded
    obtain ⟨rfl, hsame, -⟩ := (append_cons_inj_of_notMem
      (fun hmem => hfront _ hmem rfl) (not_mem_nil)).mp hsucceeded
    rcases hlast with hunapplied | hreturned
    · exact absurd (DriverEvent.dispatched.inj hsame)
        (unapplied_ne_succeeded hunapplied message timestamp)
    · exact mem_append_right _ (mem_cons_of_mem _ (mem_append_left _ hreturned))
  · rw [heq, countP_append, countP_cons, hopening.asked,
      countP_eq_zero_of_all fun event hevent => (hclosing event hevent).2.2]
    exact hcount

theorem RunEnded.wellRun {registered ended : List DriverEvent} {runId : ℕ}
    {payload : AgentStartPayload} (h : RunEnded limit.toNat ended)
    (hregistered : registered = [] ∨ registered = [.registered runId]) :
    WellRun limit (registered ++ .dispatched (.start payload) :: ended) := by
  obtain ⟨count, progress, applied, observed, final, hcount, hprogress, hending, hobserved, rfl⟩ := h
  have hparts : Parts limit (registered ++ .dispatched (.start payload) :: progress) applied observed
      final (registered ++ .dispatched (.start payload) ::
        (progress ++ applied ++ observed ++ [.dispatched final])) :=
    ⟨by simp only [append_assoc, cons_append],
      ⟨count, by omega, hprogress.opening hregistered⟩, hobserved, hending.terminal⟩
  have hnone : dispatches registered = [] := by rcases hregistered with rfl | rfl <;> rfl
  have hdispatched : ∃ payload' middle final',
      dispatches (registered ++ .dispatched (.start payload) ::
        (progress ++ applied ++ observed ++ [.dispatched final])) =
          .start payload' :: (middle ++ [final']) ∧
        (∀ action ∈ middle, action.progress = true) ∧ final'.terminal = true := by
    refine ⟨payload, dispatches progress, final, ?_, hprogress.dispatches_progress, hending.terminal⟩
    rw [dispatches_append, hnone, nil_append]
    change .start payload :: dispatches (progress ++ applied ++ observed ++ [.dispatched final]) = _
    rw [dispatches_append, dispatches_append, dispatches_append, hending.dispatches_applied,
      dispatches_observed hobserved, append_nil, append_nil]
    rfl
  rcases hending.cases_applied with ⟨rfl, hunapplied⟩ |
    ⟨intent, candidateText, rest, hready, rfl, hrest, hlast⟩
  · exact hparts.wellRun_of_unapplied hunapplied hdispatched
  · have hhead : (registered ++ [DriverEvent.dispatched (.start payload)]).countP
        DriverEvent.asks = 0 := by
      rcases hregistered with rfl | rfl <;> rfl
    have hverified := hready.verified _ hhead
    rw [append_assoc, singleton_append] at hverified
    exact hparts.wellRun_of_applied hrest hlast hverified hdispatched

/-- Every run of the agent returns and is well run: whatever the model and the host answer or
throw and whenever the abort signal is raised, as long as a verdict is ok exactly when it lists no
error. -/
theorem startAgentRun_wellRun (deps : AgentRunDeps) (params : AgentRunParams) (traceId abort : ℕ)
    (hverdicts : deps.host.VerdictsAgree) :
    (startAgentRun deps params traceId abort ⟨0, false⟩).2.1 = .ok () ∧
      WellRun params.limit (agentTrace deps params traceId abort) := by
  have hmeets := @startAgentRun_ensures deps params hverdicts traceId abort ⟨0, false⟩
  unfold agentTrace
  cases hresult : (startAgentRun deps params traceId abort ⟨0, false⟩).2.1 with
  | error e =>
    rw [hresult] at hmeets
    exact hmeets.elim
  | ok result =>
    rw [hresult] at hmeets
    obtain ⟨registered, payload, ended, hregistered, hended, htrace⟩ := hmeets
    refine ⟨rfl, ?_⟩
    rw [htrace]
    exact hended.wellRun hregistered

/-- A host that knows one statement, asked by a model that misspells it at first. -/
def misspelled : AgentRunDeps where
  generate time _ := .ok (if time < 6 then "SELEC 1" else "SELECT 1")
  host :=
    { buildContext := fun _ _ => .ok ""
      isEditingChart := fun _ => .ok false
      transcodeVegaLite := fun _ raw => .ok raw
      verify := fun _ candidateText =>
        .ok (if candidateText = "SELECT 1" then ⟨true, [], [], 0⟩
          else ⟨false, ["syntax error"], [], 0⟩)
      planApply := fun _ _ _ => .ok ⟨true, some "Query", fun _ => .ok ()⟩
      hasRegisterRun := true }
  prompts :=
    { buildClassifyPrompt := id
      parseIntent := fun _ => .sql
      buildSqlPrompt := fun input => input.userPrompt
      buildVisualizePrompt := fun input => input.userPrompt
      extractJsonObject := id
      extractSql := id
      diagnoseVegaLiteSpec := fun _ => [] }
  now time := time
  raises _ := false

/-- The second attempt of such a run is applied. -/
theorem startAgentRun_wellRun_misspelled :
    DriverEvent.commitCalled .sql "SELECT 1" ∈
        agentTrace misspelled ⟨7, "one", some 1, some .sql, none⟩ 0 0 ∧
      WellRun 3 (agentTrace misspelled ⟨7, "one", some 1, some .sql, none⟩ 0 0) := by
  refine ⟨by decide +kernel, ?_⟩
  refine (startAgentRun_wellRun misspelled ⟨7, "one", some 1, some .sql, none⟩ 0 0 ?_).2
  intro time candidateText verdict hverdict
  obtain rfl := Except.ok.inj hverdict
  by_cases hknown : candidateText = "SELECT 1"
  · simp [hknown]
  · simp [hknown]

/-! ## Under the provider -/

end Runs

end DashQL.Agent
