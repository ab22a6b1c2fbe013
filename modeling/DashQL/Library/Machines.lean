import Mathlib.Data.Nat.Notation
import Mathlib.Tactic.TypeStar

/-!
# Machines in lockstep

A machine steps from state to state until it stops with a result.  Two machines run in
lockstep as long as their states stay related; what one of them returns can then be
told from the run of the other, which may go on (`returns_iff_seen`).
-/

namespace DashQL.Machines

variable {σ ρ τ ω γ : Type*}

/-- The state after so many steps, or the result that was returned before. -/
def run (step : σ → σ ⊕ ρ) : ℕ → σ → σ ⊕ ρ
  | 0, s => .inl s
  | n + 1, s =>
    match step s with
    | .inl s => run step n s
    | .inr result => .inr result

/-- The machine stops with a result in which a value is read. -/
def Returns (step : σ → σ ⊕ ρ) (view : ρ → γ) (s : σ) (value : γ) : Prop :=
  ∃ n, (run step n s).getRight?.map view = some value

variable {step : σ → σ ⊕ ρ} {step' : τ → τ ⊕ ω} {s s' : σ} {w w' : τ} {result : ρ} {n : ℕ}

theorem run_succ_of_inl (h : step s = .inl s') (n : ℕ) : run step (n + 1) s = run step n s' := by
  rw [run, h]

theorem run_succ_of_inr (h : step s = .inr result) (n : ℕ) : run step (n + 1) s = .inr result := by
  rw [run, h]

theorem run_add {m : ℕ} : ∀ {n : ℕ} {s : σ}, run step n s = .inl s' →
    run step (n + m) s = run step m s' := by
  intro n
  induction n with
  | zero =>
    intro s h
    rw [Nat.zero_add, Sum.inl.inj h]
  | succ n ih =>
    intro s h
    rw [Nat.add_right_comm]
    cases hstep : step s with
    | inl middle =>
      rw [run_succ_of_inl hstep] at h ⊢
      exact ih h
    | inr result =>
      rw [run_succ_of_inr hstep] at h
      cases h

theorem run_add_of_inr {m : ℕ} : ∀ {n : ℕ} {s : σ}, run step n s = .inr result →
    run step (n + m) s = .inr result := by
  intro n
  induction n with
  | zero =>
    intro s h
    cases h
  | succ n ih =>
    intro s h
    rw [Nat.add_right_comm]
    cases hstep : step s with
    | inl middle =>
      rw [run_succ_of_inl hstep] at h ⊢
      exact ih h
    | inr result =>
      rw [run_succ_of_inr hstep] at h ⊢
      exact h

theorem returns_step {view : ρ → γ} {value : γ} (h : step s = .inl s') :
    Returns step view s value ↔ Returns step view s' value := by
  constructor
  · intro hreturns
    obtain ⟨n, hn⟩ := hreturns
    cases n with
    | zero => cases hn
    | succ n =>
      rw [run_succ_of_inl h] at hn
      exact ⟨n, hn⟩
  · intro hreturns
    obtain ⟨n, hn⟩ := hreturns
    exact ⟨n + 1, by rw [run_succ_of_inl h, hn]⟩

/-- Two machines step together until one of them takes its way out. -/
theorem exists_exit (related : σ → τ → Prop) (out : τ → Prop)
    (hstep : ∀ s w, related s w → Sum.elim (fun s => ∃ w', step' w = .inl w' ∧ related s w')
      (fun result' => result' = result → out w) (step s)) :
    ∀ {n : ℕ} {s : σ} {w : τ}, related s w → run step n s = .inr result →
      ∃ m w', run step' m w = .inl w' ∧ out w' := by
  intro n
  induction n with
  | zero =>
    intro s w _ h
    cases h
  | succ n ih =>
    intro s w hrelated h
    have hnext := hstep s w hrelated
    cases hs : step s with
    | inl s' =>
      rw [hs] at hnext
      obtain ⟨w', hw, hrelated'⟩ := hnext
      rw [run_succ_of_inl hs] at h
      obtain ⟨m, w'', hrun, hout⟩ := ih hrelated' h
      exact ⟨m + 1, w'', by rw [run_succ_of_inl hw, hrun], hout⟩
    | inr result' =>
      rw [hs] at hnext
      rw [run_succ_of_inr hs] at h
      exact ⟨0, w, rfl, hnext (Sum.inr.inj h)⟩

section Seen

variable {seen : τ ⊕ ω → Option γ} {value : γ}

/-- What was seen of a machine is seen ever after. -/
def Lasting (step' : τ → τ ⊕ ω) (seen : τ ⊕ ω → Option γ) : Prop :=
  ∀ w value, seen (.inl w) = some value → seen (step' w) = some value

theorem Lasting.run (h : Lasting step' seen) :
    ∀ {n : ℕ} {w : τ}, seen (.inl w) = some value → seen (run step' n w) = some value := by
  intro n
  induction n with
  | zero => intro w hw; exact hw
  | succ n ih =>
    intro w hw
    have hnext := h w value hw
    cases hstep : step' w with
    | inl w' =>
      rw [hstep] at hnext
      rw [run_succ_of_inl hstep]
      exact ih hnext
    | inr stopped =>
      rw [hstep] at hnext
      rw [run_succ_of_inr hstep]
      exact hnext

theorem Lasting.run_add (h : Lasting step' seen) {m : ℕ}
    (hseen : seen (Machines.run step' n w) = some value) :
    seen (Machines.run step' (n + m) w) = some value := by
  cases hrun : Machines.run step' n w with
  | inl w' =>
    rw [hrun] at hseen
    rw [Machines.run_add hrun]
    exact h.run hseen
  | inr stopped =>
    rw [hrun] at hseen
    rw [run_add_of_inr hrun]
    exact hseen

/-- What is seen of a machine may be looked for behind its first steps. -/
theorem Lasting.exists_run_iff (h : Lasting step' seen) {m : ℕ}
    (hrun : Machines.run step' m w = .inl w') :
    (∃ n, seen (Machines.run step' n w) = some value) ↔
      ∃ n, seen (Machines.run step' n w') = some value := by
  constructor
  · intro hseen
    obtain ⟨n, hn⟩ := hseen
    refine ⟨n, ?_⟩
    rw [← Machines.run_add hrun, Nat.add_comm]
    exact h.run_add hn
  · intro hseen
    obtain ⟨n, hn⟩ := hseen
    exact ⟨m + n, by rw [Machines.run_add hrun, hn]⟩

/-- A machine that is in lockstep with another one until it stops returns what is then seen of the
other. -/
theorem returns_iff_seen (view : ρ → γ) (related : σ → τ → Prop) (hlasting : Lasting step' seen)
    (hunseen : ∀ s w, related s w → seen (.inl w) = none)
    (hstep : ∀ s w, related s w → Sum.elim (fun s => ∃ w', step' w = .inl w' ∧ related s w')
      (fun result => seen (step' w) = some (view result)) (step s)) (hrelated : related s w) :
    Returns step view s value ↔ ∃ n, seen (run step' n w) = some value := by
  constructor
  · rintro ⟨n, hrun⟩
    induction n generalizing s w with
    | zero => cases hrun
    | succ n ih =>
      have hnext := hstep s w hrelated
      cases hs : step s with
      | inl s' =>
        rw [hs] at hnext
        obtain ⟨w', hw, hrelated'⟩ := hnext
        rw [run_succ_of_inl hs] at hrun
        obtain ⟨m, hseen⟩ := ih hrelated' hrun
        exact ⟨m + 1, by rw [run_succ_of_inl hw, hseen]⟩
      | inr result =>
        rw [hs] at hnext
        rw [run_succ_of_inr hs] at hrun
        refine ⟨1, ?_⟩
        have hvalue : view result = value := Option.some.inj hrun
        rw [← hvalue, ← hnext]
        unfold Machines.run
        cases step' w <;> rfl
  · rintro ⟨n, hseen⟩
    induction n generalizing s w with
    | zero =>
      rw [Machines.run, hunseen s w hrelated] at hseen
      cases hseen
    | succ n ih =>
      have hnext := hstep s w hrelated
      cases hs : step s with
      | inl s' =>
        rw [hs] at hnext
        obtain ⟨w', hw, hrelated'⟩ := hnext
        rw [run_succ_of_inl hw] at hseen
        obtain ⟨m, hrun⟩ := ih hrelated' hseen
        exact ⟨m + 1, by rw [run_succ_of_inl hs, hrun]⟩
      | inr result =>
        rw [hs] at hnext
        have hsame : seen (Machines.run step' (n + 1) w) = some (view result) := by
          cases hw : step' w with
          | inl w' =>
            rw [hw] at hnext
            rw [run_succ_of_inl hw]
            exact hlasting.run hnext
          | inr stopped =>
            rw [hw] at hnext
            rw [run_succ_of_inr hw]
            exact hnext
        rw [hseen] at hsame
        refine ⟨1, ?_⟩
        rw [run_succ_of_inr hs, Option.some.inj hsame]
        rfl

end Seen

end DashQL.Machines
