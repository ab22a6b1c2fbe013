import DashQL.Library.Replay

/-!
# The semaphore

An acquire takes a permit from the counter if there is one, and waits otherwise.  A release puts
its permit back, and then also resolves the first waiting acquire, which takes no permit from the
counter.  So every release that serves a waiter leaves one permit too many behind.

The permits are accounted for in every run (`accounted_run`): those in the counter and those held
are the maximum and one for every release that served a waiter.  `fair_of_run_iff` says in which
runs the semaphore is fair all along.
-/

namespace DashQL.Utils

open List

/-! ## The class -/

/-- A semaphore; a task resolves the acquire call with its number. -/
structure Semaphore where
  maxConcurrency : ℕ
  count : ℕ
  tasks : List ℕ
  deriving DecidableEq

namespace Semaphore

def new (maxConcurrency : ℕ) : Semaphore :=
  { maxConcurrency, count := maxConcurrency, tasks := [] }

/-- The acquire call with a number, and whether it is resolved at once. -/
def acquire (call : ℕ) (semaphore : Semaphore) : Semaphore × Bool :=
  if semaphore.count > 0 then
    ({ semaphore with count := semaphore.count - 1 }, true)
  else
    ({ semaphore with tasks := semaphore.tasks ++ [call] }, false)

/-- The function that an acquire is resolved with, and the waiting call that it resolves. -/
def release (semaphore : Semaphore) : Semaphore × Option ℕ :=
  match semaphore.tasks with
  | [] => ({ semaphore with count := semaphore.count + 1 }, none)
  | nextTask :: tasks => ({ semaphore with count := semaphore.count + 1, tasks }, some nextTask)

end Semaphore

/-! ## Callers -/

/-- What a caller of the semaphore does; an acquire is released by its number. -/
inductive SemaphoreCall where
  | acquire
  | release (call : ℕ)
  deriving DecidableEq

/-- A semaphore with the calls so far: how many acquires there were, which of them were granted, in
this order, which are granted and not released, and how many releases served a waiter. -/
structure SemaphoreRun where
  semaphore : Semaphore
  acquires : ℕ
  granted : List ℕ
  held : List ℕ
  handovers : ℕ
  deriving DecidableEq

namespace SemaphoreRun

def initial (maxConcurrency : ℕ) : SemaphoreRun :=
  { semaphore := .new maxConcurrency, acquires := 0, granted := [], held := [], handovers := 0 }

def acquire (run : SemaphoreRun) : SemaphoreRun :=
  let (semaphore, resolved) := run.semaphore.acquire run.acquires
  if resolved then
    { run with
      semaphore
      acquires := run.acquires + 1
      granted := run.granted ++ [run.acquires]
      held := run.held ++ [run.acquires] }
  else
    { run with semaphore, acquires := run.acquires + 1 }

def release (call : ℕ) (run : SemaphoreRun) : SemaphoreRun :=
  match run.semaphore.release with
  | (semaphore, none) => { run with semaphore, held := run.held.erase call }
  | (semaphore, some next) =>
    { run with
      semaphore
      granted := run.granted ++ [next]
      held := run.held.erase call ++ [next]
      handovers := run.handovers + 1 }

/-- One call.  Only a granted acquire has a function to release it, and it is called once. -/
def step (call : SemaphoreCall) (run : SemaphoreRun) : SemaphoreRun :=
  match call with
  | .acquire => run.acquire
  | .release call => if call ∈ run.held then run.release call else run

/-- At most the maximum is held, the acquires are granted in the order of their calls, and none
waits while fewer are held. -/
structure Fair (run : SemaphoreRun) : Prop where
  bounded : run.held.length ≤ run.semaphore.maxConcurrency
  ordered : run.granted ++ run.semaphore.tasks = List.range run.acquires
  busy : run.semaphore.tasks ≠ [] → run.semaphore.maxConcurrency ≤ run.held.length

/-- The permits in the counter and those held are the maximum and one for every release that served
a waiter. -/
def Accounted (run : SemaphoreRun) : Prop :=
  run.semaphore.count + run.held.length = run.semaphore.maxConcurrency + run.handovers

/-- An acquire that finds fewer than the maximum held, or comes before any release has served a
waiter. -/
def FindsTrueCount (call : SemaphoreCall) (run : SemaphoreRun) : Prop :=
  call = .acquire → run.held.length < run.semaphore.maxConcurrency ∨ run.handovers = 0

instance (call : SemaphoreCall) (run : SemaphoreRun) : Decidable (FindsTrueCount call run) :=
  inferInstanceAs (Decidable (_ → _))

/-! ## What a call does -/

variable {run : SemaphoreRun} {call : ℕ}

theorem acquire_of_pos (h : 0 < run.semaphore.count) :
    run.acquire =
      { run with
        semaphore := { run.semaphore with count := run.semaphore.count - 1 }
        acquires := run.acquires + 1
        granted := run.granted ++ [run.acquires]
        held := run.held ++ [run.acquires] } := by
  have hresolved : run.semaphore.acquire run.acquires =
      ({ run.semaphore with count := run.semaphore.count - 1 }, true) := if_pos h
  rw [acquire, hresolved]
  rfl

theorem acquire_of_zero (h : run.semaphore.count = 0) :
    run.acquire =
      { run with
        semaphore := { run.semaphore with tasks := run.semaphore.tasks ++ [run.acquires] }
        acquires := run.acquires + 1 } := by
  have hwaits : run.semaphore.acquire run.acquires =
      ({ run.semaphore with tasks := run.semaphore.tasks ++ [run.acquires] }, false) :=
    if_neg (Nat.not_lt.mpr h.le)
  rw [acquire, hwaits]
  rfl

theorem release_of_nil (h : run.semaphore.tasks = []) :
    run.release call =
      { run with
        semaphore := { run.semaphore with count := run.semaphore.count + 1 }
        held := run.held.erase call } := by
  have hrelease : run.semaphore.release =
      ({ run.semaphore with count := run.semaphore.count + 1 }, none) := by
    rw [Semaphore.release]
    split
    next => rfl
    next htasks => exact absurd (h.symm.trans htasks) (cons_ne_nil _ _).symm
  rw [release, hrelease]

theorem release_of_cons {next : ℕ} {tasks : List ℕ} (h : run.semaphore.tasks = next :: tasks) :
    run.release call =
      { run with
        semaphore := { run.semaphore with count := run.semaphore.count + 1, tasks }
        granted := run.granted ++ [next]
        held := run.held.erase call ++ [next]
        handovers := run.handovers + 1 } := by
  have hrelease : run.semaphore.release =
      ({ run.semaphore with count := run.semaphore.count + 1, tasks }, some next) := by
    rw [Semaphore.release, h]
  rw [release, hrelease]

/-! ## Every run accounts for its permits -/

theorem accounted_initial (maxConcurrency : ℕ) : (initial maxConcurrency).Accounted := rfl

theorem accounted_acquire (h : run.Accounted) : run.acquire.Accounted := by
  unfold Accounted at h ⊢
  rcases Nat.eq_zero_or_pos run.semaphore.count with hzero | hpos
  · rw [acquire_of_zero hzero]
    exact h
  · rw [acquire_of_pos hpos]
    simp only [length_append, length_singleton]
    omega

theorem accounted_release (h : run.Accounted) (hheld : call ∈ run.held) :
    (run.release call).Accounted := by
  have hlength := length_erase_of_mem hheld
  have hpos := length_pos_of_mem hheld
  unfold Accounted at h ⊢
  cases htasks : run.semaphore.tasks with
  | nil =>
    rw [release_of_nil htasks]
    simp only [hlength]
    omega
  | cons next tasks =>
    rw [release_of_cons htasks]
    simp only [length_append, length_singleton, hlength]
    omega

theorem accounted_step (call : SemaphoreCall) (h : run.Accounted) : (step call run).Accounted := by
  cases call with
  | acquire => exact accounted_acquire h
  | release call =>
    unfold step
    dsimp only
    split_ifs with hheld
    · exact accounted_release h hheld
    · exact h

/-- In every run the counter and the held permits are the maximum and one for every handover. -/
theorem accounted_run (maxConcurrency : ℕ) (calls : List SemaphoreCall) :
    (replay step calls (initial maxConcurrency)).Accounted :=
  replay_kept Accounted (fun call _ => accounted_step call) (accounted_initial maxConcurrency)

/-! ## Fair runs -/

theorem fair_initial (maxConcurrency : ℕ) : (initial maxConcurrency).Fair where
  bounded := Nat.zero_le _
  ordered := rfl
  busy h := absurd rfl h

theorem fair_acquire_iff (haccounted : run.Accounted) (hfair : run.Fair) :
    run.acquire.Fair ↔ (run.held.length < run.semaphore.maxConcurrency ∨ run.handovers = 0) := by
  unfold Accounted at haccounted
  have hbounded := hfair.bounded
  constructor
  · intro hacquired
    by_contra hnot
    have hpos : 0 < run.semaphore.count := by omega
    have hlast := hacquired.bounded
    rw [acquire_of_pos hpos] at hlast
    simp only [length_append, length_singleton] at hlast
    omega
  · intro htrue
    rcases Nat.eq_zero_or_pos run.semaphore.count with hzero | hpos
    · -- no permit is left, and as many are held as there may be
      have hfull : run.semaphore.maxConcurrency ≤ run.held.length := by omega
      rw [acquire_of_zero hzero]
      refine ⟨hbounded, ?_, fun _ => hfull⟩
      rw [← append_assoc, hfair.ordered, range_succ]
    · have hfree : run.held.length < run.semaphore.maxConcurrency := by omega
      have hnone : run.semaphore.tasks = [] := by
        by_contra hwaits
        exact absurd (hfair.busy hwaits) (Nat.not_le.mpr hfree)
      have hordered := hfair.ordered
      rw [hnone, append_nil] at hordered
      rw [acquire_of_pos hpos]
      refine ⟨?_, ?_, fun hwaits => absurd hnone hwaits⟩
      · rw [length_append]
        exact hfree
      · rw [hnone, append_nil, hordered, range_succ]

theorem fair_release (hfair : run.Fair) (hheld : call ∈ run.held) : (run.release call).Fair := by
  have hlength := length_erase_of_mem hheld
  have hpos := length_pos_of_mem hheld
  have hbounded := hfair.bounded
  cases htasks : run.semaphore.tasks with
  | nil =>
    rw [release_of_nil htasks]
    refine ⟨?_, hfair.ordered, fun hwaits => absurd htasks hwaits⟩
    simp only [hlength]
    omega
  | cons next tasks =>
    -- the permit goes to the waiter, so as many are held as before
    have hbusy : run.semaphore.maxConcurrency ≤ run.held.length :=
      hfair.busy (by rw [htasks]; exact cons_ne_nil next tasks)
    have hordered := hfair.ordered
    rw [htasks] at hordered
    have hsame : (run.held.erase call ++ [next]).length = run.held.length := by
      rw [length_append, length_singleton, hlength]
      omega
    rw [release_of_cons htasks]
    refine ⟨?_, ?_, fun _ => ?_⟩
    · simp only [hsame]
      exact hbounded
    · rw [append_assoc]
      exact hordered
    · simp only [hsame]
      exact hbusy

theorem fair_step_iff (call : SemaphoreCall) (haccounted : run.Accounted) (hfair : run.Fair) :
    (step call run).Fair ↔ FindsTrueCount call run := by
  cases call with
  | acquire =>
    refine (fair_acquire_iff haccounted hfair).trans ?_
    exact (true_imp_iff.symm.trans (by rw [FindsTrueCount, eq_self_iff_true]))
  | release call =>
    refine iff_of_true ?_ (fun hacquire => absurd hacquire (by simp))
    unfold step
    dsimp only
    split_ifs with hheld
    · exact fair_release hfair hheld
    · exact hfair

/-- The semaphore is fair in all states of a run exactly if no acquire arrives while as many are
held as there may be and a release has served a waiter before. -/
theorem fair_of_run_iff (maxConcurrency : ℕ) (calls : List SemaphoreCall) :
    (∀ front back, calls = front ++ back → (replay step front (initial maxConcurrency)).Fair) ↔
    ReplayMeets step FindsTrueCount calls (initial maxConcurrency) :=
  replay_invariant_iff_of_kept Accounted Fair (fun call _ => accounted_step call)
    (fun call _ => fair_step_iff call) (accounted_initial maxConcurrency)
    (fair_initial maxConcurrency)

/-- Once a waiter was served, an acquire is granted although the only permit is held. -/
theorem fair_lost_after_handover :
    ¬ (replay step [.acquire, .acquire, .release 0, .acquire] (initial 1)).Fair := by
  intro h
  exact absurd h.bounded (by decide)

end SemaphoreRun

end DashQL.Utils
