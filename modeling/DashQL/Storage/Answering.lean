import DashQL.Storage.Timers

/-!
# The promises of the storage writer

The writer with the promises that `write` returns and the calls that discard or
await tasks.  The promise of a call is named by the number of the call, and a task
carries the promise that it resolves.

A task that is executed ends in one step, in which its promise is resolved, and its
execution leaves `inFlight` in a later one.
-/

namespace DashQL.Storage

/-- A task with its `resolveLatestTask`. -/
structure PromisedTask (T : Type) where
  promise : ℕ
  task : T

/-- A writer with its history: the tasks that were passed to `write`, the promises that were
resolved and with what, the executions whose task has ended and whether it succeeded, and for every
call of `flush` how many calls of `write` there were before.  A call of `settle` that has not
returned awaits executions. -/
structure AnsweringWriter (T : Type) where
  writer : Writer (PromisedTask T) := {}
  calls : List T := []
  resolutions : List (ℕ × Bool) := []
  ended : List (ℕ × Bool) := []
  flushedCalls : List ℕ := []
  settles : InsertionMap ℕ (List ℕ) := .empty
  nextSettle : ℕ := 0

inductive WriterCall (T : Type)
  | write (key : StorageWriteKey) (task : T) (debounceFor : ℕ)
  | cancelPendingWritesForNotebook (notebookId : Text) (includes : StorageWriteKey → Bool)
  | pause
  | resume
  | pauseNotebook (notebookId : Text)
  | resumeNotebook (notebookId : Text)
  | flush
  | continueFlush (flush : ℕ)
  | settle
  | continueSettle (settle : ℕ)
  | expire (timer : ℕ)
  | endTask (execution : ℕ) (ok : Bool)
  | complete (execution : ℕ)

namespace AnsweringWriter

variable {T : Type}

def resolveLatestTask (task : PromisedTask T) (ok : Bool) (a : AnsweringWriter T) :
    AnsweringWriter T :=
  { a with resolutions := a.resolutions ++ [(task.promise, ok)] }

/-- `StorageWriter.write`: the call before is told that its task was not executed. -/
def write (key : StorageWriteKey) (task : T) (debounceFor : ℕ) (a : AnsweringWriter T) :
    AnsweringWriter T :=
  let told := match a.writer.pendingTasks.get? key with
    | some prevTask => a.resolveLatestTask prevTask.latestTask false
    | none => a
  { told with
    writer := a.writer.write key ⟨a.calls.length, task⟩ debounceFor
    calls := a.calls ++ [task] }

def discard (a : AnsweringWriter T)
    (entry : StorageWriteKey × AsyncStorageWriteTask (PromisedTask T)) : AnsweringWriter T :=
  let cleared := a.writer.clearTimeout entry.2.timer
  { a with writer := { cleared with pendingTasks := cleared.pendingTasks.delete entry.1 } }
    |>.resolveLatestTask entry.2.latestTask false

def cancelPendingWritesForNotebook (notebookId : Text) (includes : StorageWriteKey → Bool)
    (a : AnsweringWriter T) : AnsweringWriter T :=
  a.writer.pendingTasks.entries.foldl
    (fun a entry =>
      if !storageWriteKeyBelongsToNotebook entry.1 notebookId || !includes entry.1 then a
      else a.discard entry)
    a

/-- `StorageWriter.flush` up to its first await. -/
def flush (a : AnsweringWriter T) : AnsweringWriter T :=
  { a with
    writer := a.writer.flush
    flushedCalls := a.flushedCalls ++ [a.calls.length] }

/-- The loop of `settle`: await what is in flight, or return. -/
def settleLoop (settle : ℕ) (a : AnsweringWriter T) : AnsweringWriter T :=
  if a.writer.inFlight = [] then { a with settles := a.settles.delete settle }
  else { a with settles := a.settles.set settle a.writer.inFlight }

/-- `StorageWriter.settle` up to its first await. -/
def settle (a : AnsweringWriter T) : AnsweringWriter T :=
  settleLoop a.nextSettle { a with nextSettle := a.nextSettle + 1 }

/-- A call of `settle` goes on when what it awaits has ended. -/
def continueSettle (settle : ℕ) (a : AnsweringWriter T) : Option (AnsweringWriter T) :=
  match a.settles.get? settle with
  | none => none
  | some awaited =>
    if awaited.any fun execution => execution ∈ a.writer.inFlight then none
    else some (a.settleLoop settle)

/-- `executeTask` returns or throws, which resolves the promise of the task. -/
def endTask (execution : ℕ) (ok : Bool) (a : AnsweringWriter T) : Option (AnsweringWriter T) :=
  match a.writer.executions[execution]? with
  | none => none
  | some task =>
    if execution ∈ a.ended.map Prod.fst then none
    else some ({ a with ended := a.ended ++ [(execution, ok)] }.resolveLatestTask task ok)

/-- What the writer does for an event that resolves no promise. -/
def goOn (event : Event (PromisedTask T)) (a : AnsweringWriter T) : Option (AnsweringWriter T) :=
  (a.writer.step event).map fun w => { a with writer := w }

/-- What the writer does for a call or a callback, if it can come. -/
def step (a : AnsweringWriter T) : WriterCall T → Option (AnsweringWriter T)
  | .write key task debounceFor => some (a.write key task debounceFor)
  | .cancelPendingWritesForNotebook notebookId includes =>
    some (a.cancelPendingWritesForNotebook notebookId includes)
  | .pause => a.goOn .pause
  | .resume => a.goOn .resume
  | .pauseNotebook notebookId => a.goOn (.pauseNotebook notebookId)
  | .resumeNotebook notebookId => a.goOn (.resumeNotebook notebookId)
  | .flush => some a.flush
  | .continueFlush flush => a.goOn (.continueFlush flush)
  | .settle => some a.settle
  | .continueSettle settle => a.continueSettle settle
  | .expire timer => a.goOn (.expire timer)
  | .endTask execution ok => a.endTask execution ok
  | .complete execution =>
    if execution ∈ a.ended.map Prod.fst then a.goOn (.complete execution) else none

/-- The writers that are reached by calls and callbacks in any order. -/
inductive Reached : AnsweringWriter T → Prop
  | start : Reached {}
  | step {a a' : AnsweringWriter T} (call : WriterCall T) (reached : Reached a)
      (stepped : a.step call = some a') : Reached a'

/-- The writer after a list of calls and callbacks, if they can come. -/
def play : List (WriterCall T) → AnsweringWriter T → Option (AnsweringWriter T)
  | [], a => some a
  | call :: calls, a => (a.step call).bind (play calls)

theorem Reached.play {calls : List (WriterCall T)} {a a' : AnsweringWriter T} (reached : Reached a)
    (h : a.play calls = some a') : Reached a' := by
  induction calls generalizing a with
  | nil =>
    obtain rfl := Option.some.inj h
    exact reached
  | cons call calls ih =>
    obtain ⟨next, stepped, hnext⟩ := Option.bind_eq_some_iff.mp h
    exact ih (.step call reached stepped) hnext

/-! ## What is promised -/

/-- The promises that were resolved, in this order. -/
def resolved (a : AnsweringWriter T) : List ℕ := a.resolutions.map Prod.fst

def Pending (a : AnsweringWriter T) (promise : ℕ) : Prop :=
  ∃ key task, a.writer.pendingTasks.get? key = some task ∧ task.latestTask.promise = promise

def Running (a : AnsweringWriter T) (promise : ℕ) : Prop :=
  ∃ execution task, execution ∈ a.writer.inFlight ∧ execution ∉ a.ended.map Prod.fst ∧
    a.writer.executions[execution]? = some ⟨promise, task⟩

structure Accounted (a : AnsweringWriter T) : Prop where
  once : a.resolved.Nodup
  answered : ∀ promise, (promise, true) ∈ a.resolutions ↔
    ∃ execution task, a.writer.executions[execution]? = some ⟨promise, task⟩ ∧
      (execution, true) ∈ a.ended
  ofCall : ∀ task ∈ a.writer.executions, a.calls[task.promise]? = some task.task
  unresolved : ∀ promise, promise < a.calls.length ∧ promise ∉ a.resolved ↔
    a.Pending promise ∨ a.Running promise
  onePending : a.writer.pendingTasks.keys.Nodup
  executedOnce : (a.writer.executions.map PromisedTask.promise).Nodup
  flushed : ∀ flush calls, a.flushedCalls[flush]? = some calls →
    a.writer.flushes.get? flush = none → ∀ promise < calls, promise ∈ a.resolved

end AnsweringWriter

end DashQL.Storage
