import Mathlib

/-!
# Loops that may fail or run for ever

A loop tests a state and runs its body on it, which may fail.  The loop is executed with fuel; what
it ends in does not depend on how much (`loopEnds_of_test`, `loopEnds_of_stop` say so step by step),
and a loop whose body keeps an invariant under which the test succeeds never ends
(`not_loopEnds_of_invariant`).
-/

namespace DashQL

open Option

variable {σ ε : Type*} {test : σ → Bool} {body : σ → Except ε σ}

def whileLoop (test : σ → Bool) (body : σ → Except ε σ) : ℕ → σ → Option (Except ε σ)
  | 0, _ => none
  | fuel + 1, state =>
    if test state then
      match body state with
      | .error error => some (.error error)
      | .ok next => whileLoop test body fuel next
    else some (.ok state)

def LoopEnds (test : σ → Bool) (body : σ → Except ε σ) (state final : σ) : Prop :=
  ∃ fuel, whileLoop test body fuel state = some (.ok final)

variable {state next final : σ}

theorem loopEnds_of_stop (h : test state = false) :
    LoopEnds test body state final ↔ final = state := by
  constructor
  · rintro ⟨fuel, hfuel⟩
    cases fuel with
    | zero => exact absurd hfuel (some_ne_none _).symm
    | succ fuel =>
      rw [whileLoop, h] at hfuel
      exact (Except.ok.inj (some.inj hfuel)).symm
  · rintro rfl
    exact ⟨1, by rw [whileLoop, h]; rfl⟩

theorem whileLoop_succ (h : test state = true) (hbody : body state = .ok next) (fuel : ℕ) :
    whileLoop test body (fuel + 1) state = whileLoop test body fuel next := by
  rw [whileLoop, if_pos h, hbody]

theorem loopEnds_of_test (h : test state = true) (hbody : body state = .ok next) :
    LoopEnds test body state final ↔ LoopEnds test body next final := by
  constructor
  · rintro ⟨fuel, hfuel⟩
    cases fuel with
    | zero => exact absurd hfuel (some_ne_none _).symm
    | succ fuel => exact ⟨fuel, (whileLoop_succ h hbody fuel).symm.trans hfuel⟩
  · rintro ⟨fuel, hfuel⟩
    exact ⟨fuel + 1, (whileLoop_succ h hbody fuel).trans hfuel⟩

/-- A loop comes from one state to another: it ends from both in the same way. -/
def LoopReaches (test : σ → Bool) (body : σ → Except ε σ) (state next : σ) : Prop :=
  ∀ final, LoopEnds test body state final ↔ LoopEnds test body next final

theorem loopReaches_refl (state : σ) : LoopReaches test body state state := fun _ => Iff.rfl

theorem LoopReaches.trans {last : σ} (h : LoopReaches test body state next)
    (h' : LoopReaches test body next last) : LoopReaches test body state last :=
  fun final => (h final).trans (h' final)

theorem loopReaches_of_test (h : test state = true) (hbody : body state = .ok next) :
    LoopReaches test body state next := fun _ => loopEnds_of_test h hbody

theorem LoopReaches.ends (h : LoopReaches test body state next) (hstop : test next = false) :
    LoopEnds test body state next := (h next).mpr ((loopEnds_of_stop hstop).mpr rfl)

theorem LoopEnds.unique {final' : σ} (h : LoopEnds test body state final)
    (h' : LoopEnds test body state final') : final = final' := by
  obtain ⟨fuel, hfuel⟩ := h
  induction fuel generalizing state with
  | zero => exact absurd hfuel (some_ne_none _).symm
  | succ fuel ih =>
    cases htest : test state with
    | false =>
      have hstop := (loopEnds_of_stop htest).mp ⟨fuel + 1, hfuel⟩
      exact hstop.trans ((loopEnds_of_stop htest).mp h').symm
    | true =>
      cases hbody : body state with
      | error error =>
        rw [whileLoop, if_pos htest, hbody] at hfuel
        exact absurd (some.inj hfuel) (by simp)
      | ok next =>
        rw [whileLoop_succ htest hbody] at hfuel
        exact ih ((loopEnds_of_test htest hbody).mp h') hfuel

/-- What a loop has run through when it ends. -/
theorem reaches_of_whileLoop {fuel : ℕ} (h : whileLoop test body fuel state = some (.ok final)) :
    Relation.ReflTransGen (fun s s' => test s = true ∧ body s = .ok s') state final ∧
      test final = false := by
  induction fuel generalizing state with
  | zero => cases h
  | succ fuel ih =>
    cases htest : test state with
    | false =>
      rw [whileLoop, htest] at h
      obtain rfl := Except.ok.inj (some.inj h)
      exact ⟨.refl, htest⟩
    | true =>
      cases hbody : body state with
      | error error => simp [whileLoop, htest, hbody] at h
      | ok next =>
        rw [whileLoop_succ htest hbody] at h
        exact ⟨.head ⟨htest, hbody⟩ (ih h).1, (ih h).2⟩

theorem whileLoop_of_reaches
    (h : Relation.ReflTransGen (fun s s' => test s = true ∧ body s = .ok s') state final)
    (hstop : test final = false) {fuel : ℕ} {result : Except ε σ}
    (hresult : whileLoop test body fuel state = some result) : result = .ok final := by
  induction h using Relation.ReflTransGen.head_induction_on generalizing fuel with
  | refl =>
    cases fuel with
    | zero => cases hresult
    | succ fuel =>
      rw [whileLoop, hstop] at hresult
      exact (some.inj hresult).symm
  | head hstep _ ih =>
    cases fuel with
    | zero => cases hresult
    | succ fuel => exact ih ((whileLoop_succ hstep.1 hstep.2 fuel).symm.trans hresult)

theorem reaches_of_whileLoop_error {error : ε} {fuel : ℕ}
    (h : whileLoop test body fuel state = some (.error error)) :
    ∃ last, Relation.ReflTransGen (fun s s' => test s = true ∧ body s = .ok s') state last ∧
      test last = true ∧ body last = .error error := by
  induction fuel generalizing state with
  | zero => cases h
  | succ fuel ih =>
    cases htest : test state with
    | false => simp [whileLoop, htest] at h
    | true =>
      cases hbody : body state with
      | error error' =>
        rw [whileLoop, if_pos htest, hbody] at h
        obtain rfl := Except.error.inj (some.inj h)
        exact ⟨state, .refl, htest, hbody⟩
      | ok next =>
        rw [whileLoop_succ htest hbody] at h
        obtain ⟨last, hreach, hlast⟩ := ih h
        exact ⟨last, .head ⟨htest, hbody⟩ hreach, hlast⟩

/-- A loop that ends passes through every state it comes to. -/
theorem reaches_of_reaches
    (h : Relation.ReflTransGen (fun s s' => test s = true ∧ body s = .ok s') state final)
    (hstop : test final = false)
    (h' : Relation.ReflTransGen (fun s s' => test s = true ∧ body s = .ok s') state next) :
    Relation.ReflTransGen (fun s s' => test s = true ∧ body s = .ok s') next final := by
  have hunique : Relator.RightUnique fun s s' => test s = true ∧ body s = .ok s' := by
    intro a b c hb hc
    exact Except.ok.inj (hb.2.symm.trans hc.2)
  rcases Relation.ReflTransGen.total_of_right_unique hunique h h' with hback | hforth
  · rcases Relation.ReflTransGen.cases_head hback with rfl | ⟨mid, hmid, -⟩
    · exact .refl
    · exact absurd (hmid.1.symm.trans hstop) (by simp)
  · exact hforth

theorem not_loopEnds_of_invariant (invariant : σ → Prop)
    (htest : ∀ state, invariant state → test state = true)
    (hbody : ∀ state, invariant state → ∃ next, body state = .ok next ∧ invariant next)
    (h : invariant state) : ¬ LoopEnds test body state final := by
  rintro ⟨fuel, hfuel⟩
  induction fuel generalizing state with
  | zero => exact absurd hfuel (some_ne_none _).symm
  | succ fuel ih =>
    obtain ⟨next, hnext, hkept⟩ := hbody state h
    rw [whileLoop_succ (htest state h) hnext] at hfuel
    exact ih hkept hfuel

end DashQL
