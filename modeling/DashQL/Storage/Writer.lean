import DashQL.Library.InsertionMap

/-!
# The storage writer

`StorageWriter` debounces tasks by key: a write leaves its task pending under a
timer, a later write of the same key replaces the task where it stands, and the
task is started when its timer expires or a flush reaches it.

Everything between two awaits is one step.  `Event` lists the calls and callbacks
that may come in any order; `Writer.step` is what the code does for one of them.
A flush suspends at every await, and its record keeps where it stands.
-/

namespace DashQL.Storage

/-- A string, as its characters. -/
abbrev Text := List Char

instance textEq : LawfulBEq Text := inferInstance

abbrev StorageWriteKey := Text

def storageWriteKeyBelongsToNotebook (key : StorageWriteKey) (notebookId : Text) : Bool :=
  key = notebookId || (notebookId ++ ['/']).isPrefixOf key

/-- `AsyncStorageWriteTask`.  The timer is the handle of `setTimeout`, which may
have expired or been cleared. -/
structure AsyncStorageWriteTask (T : Type) where
  latestTask : T
  debounceDurationMs : ℕ
  timer : ℕ

/-- A timer that has neither expired nor been cleared. -/
structure Timer where
  key : StorageWriteKey
  delay : ℕ

/-- Where a flush is suspended. -/
inductive FlushStage
  /-- in the loop over the keys, at the execution it awaits, if any -/
  | processing (keys : List StorageWriteKey) (awaited : Option ℕ)
  /-- behind the loop, at executions that were in flight -/
  | settling (awaited : List ℕ)

/-- A call of `flush` that has not returned. -/
structure Flush where
  wasPaused : Bool
  stage : FlushStage

/-- `StorageWriter`, with the timers and flushes of its event loop.  Executions are
numbered by their place in `executions`, the tasks that were handed to
`executeTask` so far. -/
structure Writer (T : Type) where
  pendingTasks : InsertionMap StorageWriteKey (AsyncStorageWriteTask T) := .empty
  paused : Bool := false
  pausedNotebooks : List Text := []
  inFlight : List ℕ := []
  timers : InsertionMap ℕ Timer := .empty
  nextTimer : ℕ := 0
  executions : List T := []
  flushes : InsertionMap ℕ Flush := .empty
  nextFlush : ℕ := 0

namespace Writer

variable {T : Type}

/-! ## Timers -/

def clearTimeout (timer : ℕ) (w : Writer T) : Writer T :=
  { w with timers := w.timers.delete timer }

/-- `task.timer = setTimeout(() => this.processTask(key), task.debounceDurationMs)`. -/
def rearm (w : Writer T) (entry : StorageWriteKey × AsyncStorageWriteTask T) : Writer T :=
  { w with
    timers := w.timers.set w.nextTimer ⟨entry.1, entry.2.debounceDurationMs⟩
    nextTimer := w.nextTimer + 1
    pendingTasks := w.pendingTasks.set entry.1 { entry.2 with timer := w.nextTimer } }

/-- Whether a paused notebook holds a key. -/
def held (w : Writer T) (key : StorageWriteKey) : Bool :=
  w.pausedNotebooks.any fun notebookId => storageWriteKeyBelongsToNotebook key notebookId

/-! ## Pausing -/

def pause (w : Writer T) : Writer T :=
  w.pendingTasks.entries.foldl (fun w entry => w.clearTimeout entry.2.timer)
    { w with paused := true }

def resume (w : Writer T) : Writer T :=
  if !w.paused then w
  else
    w.pendingTasks.entries.foldl (fun w entry => if w.held entry.1 then w else w.rearm entry)
      { w with paused := false }

def pauseNotebook (notebookId : Text) (w : Writer T) : Writer T :=
  w.pendingTasks.entries.foldl
    (fun w entry =>
      if storageWriteKeyBelongsToNotebook entry.1 notebookId then w.clearTimeout entry.2.timer
      else w)
    { w with pausedNotebooks := w.pausedNotebooks.insert notebookId }

def resumeNotebook (notebookId : Text) (w : Writer T) : Writer T :=
  let deleted := { w with pausedNotebooks := w.pausedNotebooks.filter (· ≠ notebookId) }
  if notebookId ∉ w.pausedNotebooks ∨ w.paused then deleted
  else
    w.pendingTasks.entries.foldl
      (fun w entry =>
        if storageWriteKeyBelongsToNotebook entry.1 notebookId then w.rearm entry else w)
      deleted

/-! ## Tasks -/

def write (key : StorageWriteKey) (task : T) (debounceFor : ℕ) (w : Writer T) : Writer T :=
  match w.pendingTasks.get? key with
  | some prevTask =>
    { w with pendingTasks := w.pendingTasks.set key { prevTask with latestTask := task } }
  | none =>
    { w with
      timers := w.timers.set w.nextTimer ⟨key, debounceFor⟩
      nextTimer := w.nextTimer + 1
      pendingTasks := w.pendingTasks.set key ⟨task, debounceFor, w.nextTimer⟩ }

/-- `StorageWriter.processTask` up to its await: the execution that it starts. -/
def processTask (key : StorageWriteKey) (force : Bool) (w : Writer T) : Writer T × Option ℕ :=
  match w.pendingTasks.get? key with
  | none => (w, none)
  | some task =>
    if !force && (w.paused || w.held key) then (w, none)
    else
      ({ w with
          pendingTasks := w.pendingTasks.delete key
          executions := w.executions ++ [task.latestTask]
          inFlight := w.inFlight ++ [w.executions.length] },
        some w.executions.length)

def expire (timer : ℕ) (w : Writer T) : Option (Writer T) :=
  (w.timers.get? timer).map fun t => ((w.clearTimeout timer).processTask t.key false).1

def complete (execution : ℕ) (w : Writer T) : Option (Writer T) :=
  if execution ∈ w.inFlight then some { w with inFlight := w.inFlight.filter (· ≠ execution) }
  else none

/-! ## Flushing -/

/-- The loop of `flush` behind its keys: await what is in flight, or return. -/
def settle (flush : ℕ) (wasPaused : Bool) (w : Writer T) : Writer T :=
  if w.inFlight = [] then { w with flushes := w.flushes.delete flush }
  else { w with flushes := w.flushes.set flush ⟨wasPaused, .settling w.inFlight⟩ }

/-- `flush` from the head of the loop over the keys to the next await. -/
def advance (flush : ℕ) (wasPaused : Bool) (keys : List StorageWriteKey) (w : Writer T) :
    Writer T :=
  match keys with
  | [] => settle flush wasPaused { w with paused := wasPaused }
  | key :: keys =>
    let cleared := match w.pendingTasks.get? key with
      | some task => w.clearTimeout task.timer
      | none => w
    let processed := cleared.processTask key true
    { processed.1 with
      flushes := processed.1.flushes.set flush ⟨wasPaused, .processing keys processed.2⟩ }

/-- `StorageWriter.flush` up to its first await. -/
def flush (w : Writer T) : Writer T :=
  advance w.nextFlush w.paused w.pendingTasks.keys
    { w with paused := false, nextFlush := w.nextFlush + 1 }

/-- A flush goes on when what it awaits has ended. -/
def continueFlush (flush : ℕ) (w : Writer T) : Option (Writer T) :=
  match w.flushes.get? flush with
  | none => none
  | some ⟨wasPaused, .processing keys awaited⟩ =>
    if awaited.any fun execution => execution ∈ w.inFlight then none
    else some (advance flush wasPaused keys w)
  | some ⟨wasPaused, .settling awaited⟩ =>
    if awaited.any fun execution => execution ∈ w.inFlight then none
    else some (settle flush wasPaused w)

end Writer

/-! ## Runs -/

/-- The calls and callbacks of a writer. -/
inductive Event (T : Type)
  | write (key : StorageWriteKey) (task : T) (debounceFor : ℕ)
  | expire (timer : ℕ)
  | complete (execution : ℕ)
  | pause
  | resume
  | pauseNotebook (notebookId : Text)
  | resumeNotebook (notebookId : Text)
  | flush
  | continueFlush (flush : ℕ)

/-- A writer with its history: the tasks that were passed to `write`, and whether
the last of `pause` and `resume` that was called was `pause`. -/
structure Session (T : Type) extends Writer T where
  scheduled : List T := []
  lastPause : Bool := false

variable {T : Type}

/-- What the writer does for an event, if the event can come. -/
def Writer.step (w : Writer T) : Event T → Option (Writer T)
  | .write key task debounceFor => some (w.write key task debounceFor)
  | .expire timer => w.expire timer
  | .complete execution => w.complete execution
  | .pause => some w.pause
  | .resume => some w.resume
  | .pauseNotebook notebookId => some (w.pauseNotebook notebookId)
  | .resumeNotebook notebookId => some (w.resumeNotebook notebookId)
  | .flush => some w.flush
  | .continueFlush flush => w.continueFlush flush

def Session.step (s : Session T) (event : Event T) : Option (Session T) :=
  (s.toWriter.step event).map fun w =>
    { toWriter := w
      scheduled := match event with
        | .write _ task _ => s.scheduled ++ [task]
        | _ => s.scheduled
      lastPause := match event with
        | .pause => true
        | .resume => false
        | _ => s.lastPause }

/-- The sessions that are reached by steps that meet a condition. -/
inductive Run (condition : Session T → Event T → Prop) : Session T → Prop
  | start : Run condition {}
  | step {s s' : Session T} (event : Event T) (run : Run condition s) (met : condition s event)
      (stepped : s.step event = some s') : Run condition s'

/-- A property that holds at the start and is kept by every step that meets the
condition holds throughout. -/
theorem Run.invariant {condition : Session T → Event T → Prop} {property : Session T → Prop}
    (hstart : property {})
    (hstep : ∀ s event s', property s → condition s event → s.step event = some s' → property s')
    {s : Session T} (run : Run condition s) : property s := by
  induction run with
  | start => exact hstart
  | step event _ met stepped ih => exact hstep _ event _ ih met stepped

/-- The session after a list of events that meet the condition, if they can come. -/
def Session.play (condition : Session T → Event T → Prop) [∀ s event, Decidable (condition s event)] :
    List (Event T) → Session T → Option (Session T)
  | [], s => some s
  | event :: events, s =>
    if condition s event then (s.step event).bind (play condition events) else none

theorem Run.play {condition : Session T → Event T → Prop}
    [∀ s event, Decidable (condition s event)] {events : List (Event T)} {s s' : Session T}
    (run : Run condition s) (h : s.play condition events = some s') : Run condition s' := by
  induction events generalizing s with
  | nil =>
    obtain rfl := Option.some.inj h
    exact run
  | cons event events ih =>
    rw [Session.play] at h
    split_ifs at h with met
    obtain ⟨next, stepped, hnext⟩ := Option.bind_eq_some_iff.mp h
    exact ih (.step event run met stepped) hnext

end DashQL.Storage
