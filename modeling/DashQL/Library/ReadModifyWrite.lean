import DashQL.Library.Replay

/-!
# Tasks that read, change and write one cell

A task reads a cell, computes a new content and writes it, and other tasks may do
the same in between.  A write is undisturbed when the cell still has what the task
read.  If all writes are undisturbed, the tasks could as well have run one after
the other, in the order in which they ended (`exists_order_of_run`).

`load` may fail on a content; then the task ends without a write.
-/

namespace DashQL.ReadModifyWrite

open List

/-- Where a task is: in front of some awaits that do not concern the cell and of its read, in
front of its write, or at its end. -/
inductive Phase (ρ : Type*)
  | entered (awaits : ℕ)
  | read (seen : ρ)
  | ended
  deriving DecidableEq

/-- A cell, and the tasks that work on it. -/
structure Shared (τ σ ρ : Type*) where
  content : σ
  tasks : List (τ × Phase ρ)
  deriving DecidableEq

variable {τ σ ρ : Type*} (load : σ → Option ρ) (update : τ → ρ → ρ) (store : ρ → σ)

def runAlone (task : τ) (content : σ) : σ :=
  match load content with
  | none => content
  | some seen => store (update task seen)

def step (shared : Shared τ σ ρ) (i : ℕ) : Option (Shared τ σ ρ) :=
  match shared.tasks[i]? with
  | none | some (_, .ended) => none
  | some (task, .entered (awaits + 1)) =>
    some { shared with tasks := shared.tasks.set i (task, .entered awaits) }
  | some (task, .entered 0) =>
    match load shared.content with
    | none => some { shared with tasks := shared.tasks.set i (task, .ended) }
    | some seen => some { shared with tasks := shared.tasks.set i (task, .read seen) }
  | some (task, .read seen) => some
      { content := store (update task seen)
        tasks := shared.tasks.set i (task, .ended) }

/-- The tasks after some steps, if the steps can be taken. -/
def run (shared : Shared τ σ ρ) (steps : List ℕ) : Option (Shared τ σ ρ) :=
  steps.foldlM (step load update store) shared

/-- If the step is a write, the cell still has what the task read. -/
def Undisturbed (shared : Shared τ σ ρ) (i : ℕ) : Prop :=
  match shared.tasks[i]? with
  | some (_, .read seen) => load shared.content = some seen
  | _ => True

instance Undisturbed.decidable [DecidableEq ρ] (shared : Shared τ σ ρ) (i : ℕ) :
    Decidable (Undisturbed load shared i) :=
  match htask : shared.tasks[i]? with
  | some (_, .read seen) =>
    decidable_of_iff (load shared.content = some seen) (by simp [Undisturbed, htask])
  | none | some (_, .entered _) | some (_, .ended) => isTrue (by simp [Undisturbed, htask])

def RunUndisturbed : Shared τ σ ρ → List ℕ → Prop
  | _, [] => True
  | shared, i :: steps =>
    Undisturbed load shared i ∧
      match step load update store shared i with
      | none => True
      | some next => RunUndisturbed next steps

instance RunUndisturbed.decidable [DecidableEq ρ] :
    ∀ (shared : Shared τ σ ρ) (steps : List ℕ),
      Decidable (RunUndisturbed load update store shared steps)
  | _, [] => isTrue trivial
  | shared, i :: steps =>
    match hstep : step load update store shared i with
    | none => decidable_of_iff (Undisturbed load shared i) (by simp [RunUndisturbed, hstep])
    | some next =>
      have := RunUndisturbed.decidable next steps
      decidable_of_iff (Undisturbed load shared i ∧ RunUndisturbed load update store next steps)
        (by simp [RunUndisturbed, hstep])

def endedTasks (tasks : List (τ × Phase ρ)) : List τ :=
  tasks.filterMap fun entry => match entry.2 with
    | .ended => some entry.1
    | _ => none

def AllEnded (shared : Shared τ σ ρ) : Prop :=
  ∀ entry ∈ shared.tasks, entry.2 = .ended

instance AllEnded.decidable [DecidableEq ρ] (shared : Shared τ σ ρ) : Decidable (AllEnded shared) :=
  inferInstanceAs (Decidable (∀ entry ∈ shared.tasks, entry.2 = .ended))

/-! ## Ended tasks -/

section Ended

variable {tasks : List (τ × Phase ρ)} {i : ℕ} {task : τ} {phase after : Phase ρ}

theorem endedTasks_append (front back : List (τ × Phase ρ)) :
    endedTasks (front ++ back) = endedTasks front ++ endedTasks back :=
  filterMap_append

theorem split_of_getElem? {α : Type*} {items : List α} {i : ℕ} {item : α}
    (h : items[i]? = some item) :
    items = items.take i ++ item :: items.drop (i + 1) ∧
      ∀ other, items.set i other = items.take i ++ other :: items.drop (i + 1) := by
  have hlt := (List.getElem?_eq_some_iff.mp h).1
  constructor
  · rw [← (List.getElem?_eq_some_iff.mp h).2, cons_getElem_drop_succ, take_append_drop]
  · intro other
    rw [set_eq_take_append_cons_drop, if_pos hlt]

/-- A task that does not end changes nothing. -/
theorem endedTasks_set (h : tasks[i]? = some (task, phase)) (hphase : phase ≠ .ended)
    (hafter : after ≠ .ended) : endedTasks (tasks.set i (task, after)) = endedTasks tasks := by
  obtain ⟨hsplit, hset⟩ := split_of_getElem? h
  have hnone : ∀ other : Phase ρ, other ≠ .ended → endedTasks [(task, other)] = [] := by
    intro other hother
    cases other with
    | ended => exact absurd rfl hother
    | entered awaits => rfl
    | read seen => rfl
  rw [hset, append_cons, endedTasks_append, endedTasks_append, hnone after hafter]
  conv_rhs => rw [hsplit, append_cons, endedTasks_append, endedTasks_append, hnone phase hphase]

theorem endedTasks_set_ended (h : tasks[i]? = some (task, phase)) (hphase : phase ≠ .ended) :
    (endedTasks (tasks.set i (task, .ended))).Perm (endedTasks tasks ++ [task]) := by
  have hfirst := @endedTasks_set _ _ _ _ _ _ (.entered 0) h hphase (by simp)
  obtain ⟨-, hset⟩ := split_of_getElem? h
  rw [hset, endedTasks_append] at hfirst
  rw [hset, endedTasks_append, ← hfirst, append_assoc]
  apply List.Perm.append_left
  change (task :: endedTasks (tasks.drop (i + 1))).Perm (endedTasks (tasks.drop (i + 1)) ++ [task])
  exact (perm_append_singleton task _).symm

theorem endedTasks_of_allEnded {shared : Shared τ σ ρ} (h : AllEnded shared) :
    endedTasks shared.tasks = shared.tasks.map Prod.fst := by
  have hall : ∀ tasks : List (τ × Phase ρ), (∀ entry ∈ tasks, entry.2 = .ended) →
      endedTasks tasks = tasks.map Prod.fst := by
    intro tasks
    induction tasks with
    | nil => exact fun _ => rfl
    | cons entry rest ih =>
      intro hended
      have hrest := ih fun other hother => hended other (mem_cons_of_mem _ hother)
      obtain ⟨task, phase⟩ := entry
      obtain rfl : phase = .ended := hended (task, phase) mem_cons_self
      rw [map_cons, ← hrest]
      rfl
  exact hall shared.tasks h

end Ended

/-! ## Runs -/

/-- The tasks that have ended could have run one after the other. -/
def Serial (initial : σ) (shared : Shared τ σ ρ) : Prop :=
  ∃ order : List τ, (endedTasks shared.tasks).Perm order ∧
    shared.content = replay (runAlone load update store) order initial

variable {load update store} {initial : σ} {shared next last : Shared τ σ ρ}

theorem map_fst_step {i : ℕ} (h : step load update store shared i = some next) :
    next.tasks.map Prod.fst = shared.tasks.map Prod.fst := by
  have hset : ∀ (task : τ) (phase after : Phase ρ), shared.tasks[i]? = some (task, phase) →
      (shared.tasks.set i (task, after)).map Prod.fst = shared.tasks.map Prod.fst := by
    intro task phase after htask
    obtain ⟨hsplit, hreplace⟩ := split_of_getElem? htask
    rw [hreplace]
    conv_rhs => rw [hsplit]
    simp
  unfold step at h
  split at h
  · cases h
  · cases h
  next task awaits htask =>
    obtain rfl := Option.some.inj h
    exact hset _ _ _ htask
  next task htask =>
    split at h
    · obtain rfl := Option.some.inj h
      exact hset _ _ _ htask
    · obtain rfl := Option.some.inj h
      exact hset _ _ _ htask
  next task seen htask =>
    obtain rfl := Option.some.inj h
    exact hset _ _ _ htask

/-- An undisturbed step keeps the tasks serial: a task is put at the end of the order when it
ends. -/
theorem Serial.step {i : ℕ} (h : Serial load update store initial shared)
    (hundisturbed : Undisturbed load shared i)
    (hnext : ReadModifyWrite.step load update store shared i = some next) :
    Serial load update store initial next := by
  obtain ⟨order, hperm, hcontent⟩ := h
  -- the order for a task that ends, when it has left the content that it leaves alone
  have hended : ∀ (task : τ) (phase : Phase ρ) (content : σ),
      shared.tasks[i]? = some (task, phase) → phase ≠ .ended →
      content = runAlone load update store task shared.content →
      Serial load update store initial ⟨content, shared.tasks.set i (task, .ended)⟩ := by
    intro task phase content htask hphase halone
    refine ⟨order ++ [task], ?_, ?_⟩
    · exact (endedTasks_set_ended htask hphase).trans (hperm.append_right _)
    · rw [replay_append, ← hcontent, replay_cons, replay_nil]
      exact halone
  have hkept : ∀ (task : τ) (phase after : Phase ρ), shared.tasks[i]? = some (task, phase) →
      phase ≠ .ended → after ≠ .ended →
      Serial load update store initial { shared with tasks := shared.tasks.set i (task, after) } := by
    intro task phase after htask hphase hafter
    refine ⟨order, ?_, hcontent⟩
    dsimp only
    rw [endedTasks_set htask hphase hafter]
    exact hperm
  unfold ReadModifyWrite.step at hnext
  split at hnext
  · cases hnext
  · cases hnext
  next task awaits htask =>
    obtain rfl := Option.some.inj hnext
    exact hkept task _ _ htask (by simp) (by simp)
  next task htask =>
    split at hnext
    next hload =>
      obtain rfl := Option.some.inj hnext
      apply hended task _ shared.content htask (by simp)
      rw [runAlone, hload]
    next seen hload =>
      obtain rfl := Option.some.inj hnext
      exact hkept task _ _ htask (by simp) (by simp)
  next task seen htask =>
    obtain rfl := Option.some.inj hnext
    apply hended task _ _ htask (by simp)
    rw [Undisturbed, htask] at hundisturbed
    rw [runAlone, hundisturbed]

theorem Serial.run (steps : List ℕ) :
    ∀ {shared : Shared τ σ ρ}, Serial load update store initial shared →
      RunUndisturbed load update store shared steps →
      ReadModifyWrite.run load update store shared steps = some last →
      Serial load update store initial last ∧
        last.tasks.map Prod.fst = shared.tasks.map Prod.fst := by
  induction steps with
  | nil =>
    intro shared h _ hlast
    obtain rfl := Option.some.inj hlast
    exact ⟨h, rfl⟩
  | cons i steps ih =>
    intro shared h hundisturbed hlast
    rw [ReadModifyWrite.run, foldlM_cons] at hlast
    obtain ⟨next, hnext, hlast⟩ := Option.bind_eq_some_iff.mp hlast
    obtain ⟨hfirst, hrest⟩ := hundisturbed
    rw [hnext] at hrest
    obtain ⟨hserial, htasks⟩ := ih (h.step hfirst hnext) hrest hlast
    exact ⟨hserial, htasks.trans (map_fst_step hnext)⟩

theorem exists_order_of_run {content : σ} {tasks : List (τ × ℕ)} {steps : List ℕ}
    (hundisturbed : RunUndisturbed load update store
      ⟨content, tasks.map fun entry => (entry.1, .entered entry.2)⟩ steps)
    (hrun : run load update store
      ⟨content, tasks.map fun entry => (entry.1, .entered entry.2)⟩ steps = some last)
    (hended : AllEnded last) :
    ∃ order : List τ, order.Perm (tasks.map Prod.fst) ∧
      last.content = replay (runAlone load update store) order content := by
  have hnone : endedTasks (tasks.map fun entry => (entry.1, (.entered entry.2 : Phase ρ))) = [] := by
    unfold endedTasks
    rw [filterMap_map, filterMap_eq_nil_iff]
    exact fun entry _ => rfl
  have hstart : Serial load update store content
      ⟨content, tasks.map fun entry => (entry.1, .entered entry.2)⟩ :=
    ⟨[], by rw [hnone], rfl⟩
  obtain ⟨⟨order, hperm, hcontent⟩, htasks⟩ := hstart.run steps hundisturbed hrun
  rw [endedTasks_of_allEnded hended, htasks, map_map] at hperm
  exact ⟨order, hperm.symm, hcontent⟩

end DashQL.ReadModifyWrite
