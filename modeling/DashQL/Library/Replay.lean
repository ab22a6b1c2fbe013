import Mathlib

/-!
# Replaying tasks out of order

Tasks act on a store.  A log of tasks is replayed in order; the module says when
a queue of tasks may be reordered without changing what the replay ends with: a
task may be taken out of the middle if it commutes with everything in front of
it (`replay_take`), and it may replace an older one in its place if it commutes
with everything behind and makes the older one irrelevant (`replay_replace`).

Both conditions have a sufficient form in terms of the places of the store that a
task touches: `LocalTo.commute` and `LocalTo.absorbs`.
-/

namespace DashQL

variable {τ σ ι β : Type*}

/-! ## Replay -/

def replay (act : τ → σ → σ) (tasks : List τ) (store : σ) : σ :=
  tasks.foldl (fun store task => act task store) store

variable {act : τ → σ → σ}

@[simp] theorem replay_nil (store : σ) : replay act [] store = store := rfl

@[simp] theorem replay_cons (task : τ) (tasks : List τ) (store : σ) :
    replay act (task :: tasks) store = replay act tasks (act task store) := rfl

theorem replay_append (tasks tasks' : List τ) (store : σ) :
    replay act (tasks ++ tasks') store = replay act tasks' (replay act tasks store) :=
  List.foldl_append

/-- The first task makes no difference when the second one follows. -/
def Absorbs (f g : σ → σ) : Prop := ∀ store, f (g store) = f store

/-- A task that commutes with all tasks of a log may be done before or after it. -/
theorem replay_comm {task : τ} {tasks : List τ}
    (h : ∀ t ∈ tasks, Function.Commute (act t) (act task)) (store : σ) :
    replay act tasks (act task store) = act task (replay act tasks store) := by
  induction tasks generalizing store with
  | nil => rfl
  | cons t tasks ih =>
    have hhead : act t (act task store) = act task (act t store) := h t (by simp) store
    rw [replay_cons, replay_cons, hhead]
    exact ih (fun t ht => h t (List.mem_cons_of_mem _ ht)) _

/-- A task may be taken from behind tasks that it commutes with. -/
theorem replay_take {task : τ} {front back : List τ}
    (h : ∀ t ∈ front, Function.Commute (act t) (act task)) (store : σ) :
    replay act (front ++ task :: back) store = replay act (front ++ back) (act task store) := by
  rw [replay_append, replay_cons, replay_append, replay_comm h]

/-- A task may stand in the place of an older one that it absorbs, if it commutes
with the tasks in between. -/
theorem replay_replace {old new : τ} {front back : List τ}
    (hback : ∀ t ∈ back, Function.Commute (act t) (act new)) (habsorbs : Absorbs (act new) (act old))
    (store : σ) :
    replay act (front ++ new :: back) store =
      act new (replay act (front ++ old :: back) store) := by
  rw [replay_append, replay_cons, replay_append, replay_cons]
  calc replay act back (act new (replay act front store))
      = replay act back (act new (act old (replay act front store))) := by rw [habsorbs]
    _ = act new (replay act back (act old (replay act front store))) := replay_comm hback _

/-! ## Conditions on the tasks of a log -/

/-- Every task of a log meets a condition on the store that it finds. -/
def ReplayMeets (act : τ → σ → σ) (condition : τ → σ → Prop) : List τ → σ → Prop
  | [], _ => True
  | task :: tasks, store => condition task store ∧ ReplayMeets act condition tasks (act task store)

instance ReplayMeets.decidable {condition : τ → σ → Prop}
    [∀ task store, Decidable (condition task store)] :
    ∀ (tasks : List τ) (store : σ), Decidable (ReplayMeets act condition tasks store)
  | [], _ => isTrue trivial
  | task :: tasks, store =>
    have : Decidable (ReplayMeets act condition tasks (act task store)) :=
      ReplayMeets.decidable tasks (act task store)
    inferInstanceAs (Decidable (condition task store ∧ _))

section Meets

variable {condition : τ → σ → Prop}

theorem ReplayMeets.left {front back : List τ} :
    ∀ {store : σ}, ReplayMeets act condition (front ++ back) store →
      ReplayMeets act condition front store := by
  induction front with
  | nil => intro store _; exact trivial
  | cons task front ih => intro store h; exact ⟨h.1, ih h.2⟩

theorem ReplayMeets.right {front back : List τ} :
    ∀ {store : σ}, ReplayMeets act condition (front ++ back) store →
      ReplayMeets act condition back (replay act front store) := by
  induction front with
  | nil => intro store h; exact h
  | cons task front ih => intro store h; exact ih h.2

theorem replay_invariant (invariant : σ → Prop)
    (hstep : ∀ task store, invariant store → condition task store → invariant (act task store))
    {tasks : List τ} :
    ∀ {store : σ}, invariant store → ReplayMeets act condition tasks store →
      invariant (replay act tasks store) := by
  induction tasks with
  | nil => intro store hstore _; exact hstore
  | cons task tasks ih =>
    intro store hstore hmeets
    exact ih (hstep task store hstore hmeets.1) hmeets.2

theorem ReplayMeets.of_forall (h : ∀ task store, condition task store) :
    ∀ {tasks : List τ} {store : σ}, ReplayMeets act condition tasks store := by
  intro tasks
  induction tasks with
  | nil => intro store; exact trivial
  | cons task tasks ih => intro store; exact ⟨h task store, ih⟩

/-- An invariant that every task keeps is kept by every log. -/
theorem replay_kept (kept : σ → Prop) (hkept : ∀ task store, kept store → kept (act task store))
    {tasks : List τ} {store : σ} (hstore : kept store) : kept (replay act tasks store) := by
  have hmeets : ReplayMeets act (fun _ _ => True) tasks store := .of_forall fun _ _ => trivial
  exact replay_invariant kept (fun task store h _ => hkept task store h) hstore hmeets

/-- `replay_invariant_iff` for logs of tasks that are allowed where they come, if such tasks are
known to keep another property of the store. -/
theorem replay_invariant_iff_of_allowed {allowed : τ → σ → Prop} (kept invariant : σ → Prop)
    (hkept : ∀ task store, kept store → allowed task store → kept (act task store))
    (hstep : ∀ task store, kept store → allowed task store → invariant store →
      (invariant (act task store) ↔ condition task store))
    {tasks : List τ} : ∀ {store : σ}, ReplayMeets act allowed tasks store → kept store →
      invariant store →
      ((∀ front back, tasks = front ++ back → invariant (replay act front store)) ↔
        ReplayMeets act condition tasks store) := by
  induction tasks with
  | nil =>
    intro store _ _ hinvariant
    refine iff_of_true ?_ trivial
    intro front back hsplit
    rw [(List.append_eq_nil_iff.mp hsplit.symm).1]
    exact hinvariant
  | cons task tasks ih =>
    intro store hallowed hstore hinvariant
    have hnext := hkept task store hstore hallowed.1
    have htask := hstep task store hstore hallowed.1 hinvariant
    constructor
    · intro hall
      have hafter : invariant (act task store) := hall [task] tasks rfl
      refine ⟨htask.mp hafter, (ih hallowed.2 hnext hafter).mp ?_⟩
      intro front back hsplit
      exact hall (task :: front) back (by rw [hsplit, List.cons_append])
    · intro hmeets front back hsplit
      have hafter := htask.mpr hmeets.1
      cases front with
      | nil => exact hinvariant
      | cons first front =>
        obtain ⟨rfl, hrest⟩ := List.cons.inj hsplit
        exact (ih hallowed.2 hnext hafter).mpr hmeets.2 front back hrest

theorem replay_invariant_iff_of_kept (kept invariant : σ → Prop)
    (hkept : ∀ task store, kept store → kept (act task store))
    (hstep : ∀ task store, kept store → invariant store →
      (invariant (act task store) ↔ condition task store))
    {tasks : List τ} {store : σ} (hstore : kept store) (hinvariant : invariant store) :
    (∀ front back, tasks = front ++ back → invariant (replay act front store)) ↔
      ReplayMeets act condition tasks store := by
  have hmeets : ReplayMeets act (fun _ _ => True) tasks store := .of_forall fun _ _ => trivial
  exact replay_invariant_iff_of_allowed kept invariant (fun task store h _ => hkept task store h)
    (fun task store h _ => hstep task store h) hmeets hstore hinvariant

/-- If tasks keep an invariant exactly when they meet the condition, then it holds all along a log
exactly when all tasks meet the condition. -/
theorem replay_invariant_iff (invariant : σ → Prop)
    (hstep : ∀ task store, invariant store → (invariant (act task store) ↔ condition task store))
    {tasks : List τ} {store : σ} (hstore : invariant store) :
    (∀ front back, tasks = front ++ back → invariant (replay act front store)) ↔
      ReplayMeets act condition tasks store :=
  replay_invariant_iff_of_kept (fun _ => True) invariant (fun _ _ _ => trivial)
    (fun task store _ => hstep task store) trivial hstore

end Meets

/-! ## Places of a store -/

/-- A function on stores that changes nothing outside of some places, and whose
result there depends on nothing else. -/
structure LocalTo (places : Set ι) (f : (ι → β) → ι → β) : Prop where
  frame : ∀ store i, i ∉ places → f store i = store i
  reads : ∀ store store', Set.EqOn store store' places → Set.EqOn (f store) (f store') places

variable {places places' : Set ι} {f g : (ι → β) → ι → β}

/-- What one function does in its places is not seen by a function elsewhere. -/
theorem LocalTo.undisturbed (hf : LocalTo places f) (hg : LocalTo places' g)
    (h : Disjoint places places') (store : ι → β) {i : ι} (hi : i ∈ places) :
    f (g store) i = f store i := by
  refine hf.reads (g store) store ?_ hi
  intro j hj
  exact hg.frame store j (Set.disjoint_left.mp h hj)

theorem LocalTo.commute (hf : LocalTo places f) (hg : LocalTo places' g)
    (h : Disjoint places places') : Function.Commute f g := by
  intro store
  funext i
  by_cases hi : i ∈ places
  · have hother := hg.frame (f store) i (Set.disjoint_left.mp h hi)
    rw [hf.undisturbed hg h store hi, hother]
  · rw [hf.frame (g store) i hi]
    by_cases hi' : i ∈ places'
    · exact (hg.undisturbed hf h.symm store hi').symm
    · rw [hg.frame store i hi', hg.frame (f store) i hi', hf.frame store i hi]

/-- A function that writes all places of another one without reading them
absorbs it. -/
theorem LocalTo.absorbs (hf : LocalTo places f) (hg : LocalTo places' g) (hsub : places' ⊆ places)
    (hwrites : ∀ store store', Set.EqOn (f store) (f store') places) : Absorbs f g := by
  intro store
  funext i
  by_cases hi : i ∈ places
  · exact hwrites (g store) store hi
  · rw [hf.frame (g store) i hi, hf.frame store i hi]
    exact hg.frame store i (fun hmem => hi (hsub hmem))

end DashQL
