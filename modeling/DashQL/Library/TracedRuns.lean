import Mathlib.Data.List.Basic

/-!
# Computations that leave a trace

A computation that runs in a state, emits events and returns a result or throws
leaves a trace: the events in their order.  What an environment answers is part of
the computation, so a statement about all environments is one about all such
computations.

`Traced.Ensures` is the rule of pre- and postconditions for them, without a
precondition: from every state, the trace of a computation that returns has one
property and the trace of one that throws has another.
-/

namespace DashQL

variable {σ τ ε α β : Type}

/-- A computation that emits events of `τ`, and returns an `α` or throws an `ε`. -/
def Traced (σ τ ε α : Type) : Type := σ → List τ × Except ε α × σ

namespace Traced

/-- One computation after the other.  One that throws ends the run. -/
def andThen (m : Traced σ τ ε α) (next : α → Traced σ τ ε β) : Traced σ τ ε β := fun state =>
  match (m state).2.1 with
  | .error e => ((m state).1, .error e, (m state).2.2)
  | .ok a =>
    ((m state).1 ++ (next a (m state).2.2).1, (next a (m state).2.2).2.1,
      (next a (m state).2.2).2.2)

instance : Monad (Traced σ τ ε) where
  pure a := fun state => ([], .ok a, state)
  bind := andThen

/-- A transition of the state that returns a value. -/
def update (f : σ → α × σ) : Traced σ τ ε α := fun state => ([], .ok (f state).1, (f state).2)

def emit (event : τ) : Traced σ τ ε Unit := fun state => ([event], .ok (), state)

/-- What something outside returned or threw. -/
def lift (answer : Except ε α) : Traced σ τ ε α := fun state => ([], answer, state)

/-- The computation with what it threw as a value. -/
def attempt (m : Traced σ τ ε α) : Traced σ τ ε (Except ε α) := fun state =>
  ((m state).1, .ok (m state).2.1, (m state).2.2)

/-- `try m catch e handler e`. -/
def handle (m : Traced σ τ ε α) (handler : ε → Traced σ τ ε α) : Traced σ τ ε α :=
  m.attempt.andThen fun outcome =>
    match outcome with
    | .error e => handler e
    | .ok a => pure a

/-! ## Single runs -/

section Runs

variable {m : Traced σ τ ε α} {next : α → Traced σ τ ε β} {state state' state'' : σ}
  {trace later : List τ} {a : α} {e : ε} {result : Except ε β}

theorem pure_run (a : α) (state : σ) : (pure a : Traced σ τ ε α) state = ([], .ok a, state) := rfl

theorem emit_run (event : τ) (state : σ) :
    (emit event : Traced σ τ ε Unit) state = ([event], .ok (), state) := rfl

theorem attempt_run {outcome : Except ε α} (h : m state = (trace, outcome, state')) :
    m.attempt state = (trace, .ok outcome, state') := by
  unfold attempt
  rw [h]

theorem bind_run (h : m state = (trace, .ok a, state'))
    (hnext : next a state' = (later, result, state'')) :
    (m >>= next) state = (trace ++ later, result, state'') := by
  change m.andThen next state = _
  unfold andThen
  rw [h]
  dsimp only
  rw [hnext]

theorem bind_run_error (h : m state = (trace, .error e, state')) :
    (m >>= next) state = (trace, .error e, state') := by
  change m.andThen next state = _
  unfold andThen
  rw [h]

theorem ite_run_pos {first second : Traced σ τ ε α} {condition : Bool} {outcome : Except ε α}
    (h : condition = true) (hfirst : first state = (trace, outcome, state')) :
    (if condition = true then first else second) state = (trace, outcome, state') := by
  rw [if_pos h]
  exact hfirst

theorem ite_run_neg {first second : Traced σ τ ε α} {condition : Bool} {outcome : Except ε α}
    (h : condition = false) (hsecond : second state = (trace, outcome, state')) :
    (if condition = true then first else second) state = (trace, outcome, state') := by
  rw [if_neg (Bool.eq_false_iff.mp h)]
  exact hsecond

theorem lift_run {outcome : Except ε α} :
    (lift outcome : Traced σ τ ε α) state = ([], outcome, state) :=
  rfl

end Runs

/-! ## Postconditions -/

/-- A trace and the result at its end meet the condition for returned or for thrown values. -/
def Meets (returned : α → List τ → Prop) (thrown : ε → List τ → Prop) (trace : List τ) :
    Except ε α → Prop
  | .ok a => returned a trace
  | .error e => thrown e trace

/-- From every state, what the computation returns or throws and the trace it leaves are as
stated. -/
def Ensures (m : Traced σ τ ε α) (P : α → List τ → Prop) (E : ε → List τ → Prop) : Prop :=
  ∀ state, Meets P E (m state).1 (m state).2.1

variable {m : Traced σ τ ε α} {next : α → Traced σ τ ε β} {P P' : α → List τ → Prop}
  {E E' : ε → List τ → Prop}

theorem Ensures.mono (h : m.Ensures P E) (hreturned : ∀ a trace, P a trace → P' a trace)
    (hthrown : ∀ e trace, E e trace → E' e trace) : m.Ensures P' E' := by
  intro state
  have hmeets := h state
  cases hresult : (m state).2.1 with
  | error e =>
    rw [hresult] at hmeets
    exact hthrown e _ hmeets
  | ok a =>
    rw [hresult] at hmeets
    exact hreturned a _ hmeets

theorem ensures_pure {a : α} (h : P a []) : (pure a : Traced σ τ ε α).Ensures P E :=
  fun _ => h

theorem ensures_update {f : σ → α × σ} (h : ∀ a, P a []) :
    (update f : Traced σ τ ε α).Ensures P E :=
  fun _ => h _

theorem ensures_emit {event : τ} {P : Unit → List τ → Prop} (h : P () [event]) :
    (emit event : Traced σ τ ε Unit).Ensures P E :=
  fun _ => h

theorem ensures_lift {answer : Except ε α} (hreturned : ∀ a, answer = .ok a → P a [])
    (hthrown : ∀ e, answer = .error e → E e []) :
    (lift answer : Traced σ τ ε α).Ensures P E := by
  intro state
  cases answer with
  | error e => exact hthrown e rfl
  | ok a => exact hreturned a rfl

/-- The second computation continues the trace of the first. -/
theorem Ensures.bind {Q : β → List τ → Prop} (hm : m.Ensures P E) (hnext : ∀ a trace, P a trace →
      (next a).Ensures (fun b later => Q b (trace ++ later)) fun e later => E e (trace ++ later)) :
    (m >>= next).Ensures Q E := by
  intro state
  change Meets Q E (m.andThen next state).1 (m.andThen next state).2.1
  have hmeets := hm state
  unfold andThen
  cases hresult : (m state).2.1 with
  | error e =>
    rw [hresult] at hmeets
    exact hmeets
  | ok a =>
    rw [hresult] at hmeets
    dsimp only
    have hlater := hnext a _ hmeets (m state).2.2
    cases hlast : (next a (m state).2.2).2.1 with
    | error e =>
      rw [hlast] at hlater
      exact hlater
    | ok b =>
      rw [hlast] at hlater
      exact hlater

theorem Ensures.attempt {outcome : Except ε α → List τ → Prop} (hm : m.Ensures P E)
    (hreturned : ∀ a trace, P a trace → outcome (.ok a) trace)
    (hthrown : ∀ e trace, E e trace → outcome (.error e) trace) :
    m.attempt.Ensures outcome E' := by
  intro state
  have hmeets := hm state
  change outcome (m state).2.1 (m state).1
  cases hresult : (m state).2.1 with
  | error e =>
    rw [hresult] at hmeets
    exact hthrown e _ hmeets
  | ok a =>
    rw [hresult] at hmeets
    exact hreturned a _ hmeets

/-- What the computation returns stands; the handler continues the trace of one that throws. -/
theorem Ensures.handle {handler : ε → Traced σ τ ε α} (hm : m.Ensures P E)
    (hhandler : ∀ e trace, E e trace →
      (handler e).Ensures (fun a later => P a (trace ++ later))
        fun e later => E' e (trace ++ later)) :
    (m.handle handler).Ensures P E' := by
  refine Ensures.bind (P := Except.rec (fun e => E e) fun a => P a)
    (hm.attempt (fun _ _ h => h) fun _ _ h => h) ?_
  intro outcome trace houtcome
  cases outcome with
  | error e => exact hhandler e trace houtcome
  | ok a => exact ensures_pure (by rw [List.append_nil]; exact houtcome)

end Traced

end DashQL
