import DashQL.Library.Replay

/-!
# Reading a channel in batches

A producer puts events into a channel.  A read takes events out, one after another, into a local
batch, until it returns the batch or an error.  How an event changes the batch is a parameter; the
read ends by itself when a batch is full, at the last event or at a failure, and it ends when nothing
comes in time or the channel is closed.

Nothing is lost as long as no read ends with an error while its batch has something in it
(`delivered_step_iff`).
-/

namespace DashQL

open List Option

/-- What is done with a batch when an event is received: go on, or return it, or an error; at the
last event and at a failure the stream is removed. -/
inductive Received (B X : Type*) where
  | continues (batch : B)
  | flushes (batch : B)
  | finishes (batch : B)
  | fails (error : X)

/-- How a stream is read. -/
structure BatchReader (E B X : Type*) where
  empty : B
  /-- The batch has content, so that it is flushed rather than given up. -/
  holdsContent : B → Bool
  receive : ℕ → E → B → Received B X
  /-- Nothing came in time, and there is no content. -/
  idle : B → Except X B
  flushAfterTimeout : B → B
  flushAfterClose : B → B
  streamClosed : X
  streamIsUnknown : X

structure ReadLimits where
  timeoutReadAfter : ℕ
  flushBatchAfter : ℕ
  flushBatchBytes : ℕ
  deriving DecidableEq

structure ReadInProgress (E B : Type*) where
  limits : ReadLimits
  batch : B
  taken : List E

/-- A stream: its channel, whether it is registered, the read in progress, and the results of all
reads so far, with the events that they took. -/
structure BatchedStream (E B X : Type*) where
  pending : List E
  consumed : List E
  closed : Bool
  registered : Bool
  failed : Bool
  reading : Option (ReadInProgress E B)
  results : List (Except X B × List E)

/-- How the waiting for an event ends. -/
inductive WaitEnd where
  | received
  | channelClosed
  | timedOut
  deriving DecidableEq

/-- What happens to a stream: the producer sends or stops, a read is called, and a round of its loop
begins and ends at some times since the start of the read. -/
inductive StreamStep (E : Type*) where
  | send (event : E)
  | close
  | read (limits : ReadLimits)
  | wait (elapsed ended : ℕ) (waitEnd : WaitEnd)

/-- The event that is sent. -/
def StreamStep.event {E : Type*} : StreamStep E → Option E
  | .send event => some event
  | _ => none

namespace BatchedStream

variable {E B X : Type*}

def initial : BatchedStream E B X where
  pending := []
  consumed := []
  closed := false
  registered := true
  failed := false
  reading := none
  results := []

/-- The events that were sent. -/
def sent (stream : BatchedStream E B X) : List E := stream.consumed ++ stream.pending

def returns (result : Except X B) (read : ReadInProgress E B) (stream : BatchedStream E B X) :
    BatchedStream E B X :=
  { stream with reading := none, results := stream.results ++ [(result, read.taken)] }

def handle (received : Received B X) (read : ReadInProgress E B) (stream : BatchedStream E B X) :
    BatchedStream E B X :=
  match received with
  | .continues batch => { stream with reading := some { read with batch } }
  | .flushes batch => stream.returns (.ok batch) read
  | .finishes batch => { stream.returns (.ok batch) read with registered := false }
  | .fails error => { stream.returns (.error error) read with registered := false, failed := true }

def take (reader : BatchReader E B X) (event : E) (pending : List E) (read : ReadInProgress E B)
    (stream : BatchedStream E B X) : BatchedStream E B X :=
  { stream with pending, consumed := stream.consumed ++ [event] }.handle
    (reader.receive read.limits.flushBatchBytes event read.batch)
    { read with taken := read.taken ++ [event] }

/-- Wait for an event, up to a limit since the start of the read.  What cannot happen leaves the
stream as it is. -/
def await (reader : BatchReader E B X) (limit ended : ℕ) (waitEnd : WaitEnd)
    (onClose onTimeout : Except X B) (read : ReadInProgress E B) (stream : BatchedStream E B X) :
    BatchedStream E B X :=
  match waitEnd, stream.pending with
  | .received, event :: pending => stream.take reader event pending read
  | .received, [] => stream
  | .channelClosed, [] => if stream.closed then stream.returns onClose read else stream
  | .channelClosed, _ :: _ => stream
  | .timedOut, _ => if limit ≤ ended then stream.returns onTimeout read else stream

/-- A round of the loop of a read.  With content the read waits until the batch is flushed, and
without until it is given up. -/
def wait (reader : BatchReader E B X) (elapsed ended : ℕ) (waitEnd : WaitEnd)
    (read : ReadInProgress E B) (stream : BatchedStream E B X) : BatchedStream E B X :=
  if reader.holdsContent read.batch then
    if read.limits.flushBatchAfter < elapsed then
      stream.returns (.ok (reader.flushAfterTimeout read.batch)) read
    else
      stream.await reader read.limits.flushBatchAfter ended waitEnd
        (.ok (reader.flushAfterClose read.batch)) (.ok (reader.flushAfterTimeout read.batch)) read
  else
    stream.await reader read.limits.timeoutReadAfter ended waitEnd
      (.error reader.streamClosed) (reader.idle read.batch) read

/-- One step.  There is one reader at a time. -/
def step (reader : BatchReader E B X) (streamStep : StreamStep E) (stream : BatchedStream E B X) :
    BatchedStream E B X :=
  match streamStep, stream.reading with
  | .send event, _ => { stream with pending := stream.pending ++ [event] }
  | .close, _ => { stream with closed := true }
  | .read limits, none =>
    if stream.registered then
      { stream with reading := some { limits, batch := reader.empty, taken := [] } }
    else
      { stream with results := stream.results ++ [(.error reader.streamIsUnknown, [])] }
  | .read _, some _ => stream
  | .wait elapsed ended waitEnd, some read => stream.wait reader elapsed ended waitEnd read
  | .wait _ _ _, none => stream

/-! ## What is delivered -/

variable {reader : BatchReader E B X} {contents : B → List E}

def resultContents (contents : B → List E) (result : Except X B × List E) : List E :=
  match result.1 with
  | .ok batch => contents batch
  | .error _ => []

/-- Until a failure, the contents of all successful batches, and of the one being read, are the
consumed events, and a read that returned an error took none. -/
structure Delivered (contents : B → List E) (stream : BatchedStream E B X) : Prop where
  contents : stream.failed = false →
    stream.results.flatMap (resultContents contents) ++
      stream.reading.elim [] (fun read => contents read.batch) = stream.consumed
  errors : stream.failed = false →
    ∀ error taken, (Except.error error, taken) ∈ stream.results → taken = []

/-- A read without content that is given up by its limit or by the closed channel, with an error. -/
def givesUp (reader : BatchReader E B X) (ended : ℕ) (waitEnd : WaitEnd)
    (read : ReadInProgress E B) (stream : BatchedStream E B X) : Bool :=
  !reader.holdsContent read.batch &&
    match waitEnd with
    | .received => false
    | .channelClosed => stream.pending.isEmpty && stream.closed
    | .timedOut =>
      read.limits.timeoutReadAfter ≤ ended && (reader.idle read.batch).isOk == false

/-- A read that is given up with an error has taken no event. -/
def LosesNothing (reader : BatchReader E B X) (streamStep : StreamStep E)
    (stream : BatchedStream E B X) : Prop :=
  ∀ elapsed ended waitEnd, streamStep = .wait elapsed ended waitEnd →
    ∀ read, stream.reading = some read → stream.givesUp reader ended waitEnd read = true →
      read.taken = []

/-- The events that are sent in a run. -/
def sends (steps : List (StreamStep E)) : List E :=
  steps.filterMap StreamStep.event

/-- Some events come first, if they come at all. -/
def InOrder (first : E → Bool) (streamStep : StreamStep E) (stream : BatchedStream E B X) : Prop :=
  ∀ event, streamStep = .send event → first event = true → stream.sent = []

end BatchedStream

/-! ## Lawful readers -/

def Received.Adds {E B X : Type*} (contents : B → List E) (Open : B → Prop) (event : E)
    (batch : B) : Received B X → Prop
  | .continues batch' => Open batch' ∧ contents batch' = contents batch ++ [event]
  | .flushes batch' => contents batch' = contents batch ++ [event]
  | .finishes batch' => contents batch' = contents batch ++ [event]
  | .fails _ => True

/-- What the batches of a reader contain, while they are open and when they are returned. -/
structure BatchReader.Lawful {E B X : Type*} (reader : BatchReader E B X) (contents : B → List E)
    (Open : B → Prop) (first : E → Bool) : Prop where
  openEmpty : Open reader.empty
  empty : contents reader.empty = []
  receive : ∀ bytes event batch, Open batch → (first event = true → contents batch = []) →
    (reader.receive bytes event batch).Adds contents Open event batch
  idle : ∀ batch batch', Open batch → reader.idle batch = .ok batch' →
    contents batch' = contents batch
  flushAfterTimeout : ∀ batch, Open batch →
    contents (reader.flushAfterTimeout batch) = contents batch
  flushAfterClose : ∀ batch, Open batch → contents (reader.flushAfterClose batch) = contents batch

namespace BatchedStream

variable {E B X : Type*} {reader : BatchReader E B X} {contents : B → List E} {Open : B → Prop}
  {first : E → Bool} {stream : BatchedStream E B X} {read : ReadInProgress E B}

/-- What always holds: the batch of a read has what the read took, which was consumed last. -/
structure Kept (contents : B → List E) (Open : B → Prop) (first : E → Bool)
    (stream : BatchedStream E B X) : Prop where
  isOpen : ∀ read, stream.reading = some read → Open read.batch
  taken : ∀ read, stream.reading = some read → contents read.batch = read.taken
  suffix : ∀ read, stream.reading = some read → read.taken <:+ stream.consumed
  order : ∀ front event back, stream.sent = front ++ event :: back → first event = true →
    front = []
  alive : ∀ read, stream.reading = some read → stream.failed = false
  failed : stream.failed = true → stream.registered = false

/-! ## What always holds -/

theorem kept_initial : (initial : BatchedStream E B X).Kept contents Open first where
  isOpen _ h := absurd h (some_ne_none _).symm
  taken _ h := absurd h (some_ne_none _).symm
  suffix _ h := absurd h (some_ne_none _).symm
  order front event back h := absurd h (by simp [sent, initial])
  alive _ h := absurd h (some_ne_none _).symm
  failed h := absurd h Bool.false_ne_true

theorem Kept.returns (h : stream.Kept contents Open first) (hfailed : stream.failed = false)
    (result : Except X B) (read : ReadInProgress E B) :
    (stream.returns result read).Kept contents Open first where
  isOpen _ h := absurd h (some_ne_none _).symm
  taken _ h := absurd h (some_ne_none _).symm
  suffix _ h := absurd h (some_ne_none _).symm
  order := h.order
  alive _ h := absurd h (some_ne_none _).symm
  failed h := absurd h (hfailed ▸ Bool.false_ne_true)

theorem Kept.adds (hlawful : reader.Lawful contents Open first)
    (h : stream.Kept contents Open first) (hread : stream.reading = some read) {event : E}
    {pending : List E} (hpending : stream.pending = event :: pending) :
    (reader.receive read.limits.flushBatchBytes event read.batch).Adds contents Open event
      read.batch := by
  refine hlawful.receive _ _ _ (h.isOpen read hread) fun hfirst => ?_
  have hnone : stream.consumed = [] :=
    h.order stream.consumed event pending (by rw [sent, hpending]) hfirst
  have hsuffix := h.suffix read hread
  rw [hnone, suffix_nil] at hsuffix
  rw [h.taken read hread, hsuffix]

theorem Kept.take (hlawful : reader.Lawful contents Open first)
    (h : stream.Kept contents Open first) (hread : stream.reading = some read) {event : E}
    {pending : List E} (hpending : stream.pending = event :: pending) :
    (stream.take reader event pending read).Kept contents Open first := by
  have hadds := h.adds hlawful hread hpending
  have hfailed := h.alive read hread
  have hsent : stream.consumed ++ [event] ++ pending = stream.sent := by
    rw [sent, hpending, append_assoc, singleton_append]
  unfold BatchedStream.take handle
  split
  next batch heq =>
    rw [heq] at hadds
    exact
      { isOpen := fun read' hread' => by
          obtain rfl := some.inj hread'
          exact hadds.1
        taken := fun read' hread' => by
          obtain rfl := some.inj hread'
          exact hadds.2.trans (congrArg (· ++ [event]) (h.taken read hread))
        suffix := fun read' hread' => by
          obtain rfl := some.inj hread'
          obtain ⟨front, hfront⟩ := h.suffix read hread
          exact ⟨front, by rw [← append_assoc, hfront]⟩
        order := fun front found back hsplit => h.order front found back (hsent ▸ hsplit)
        alive := fun _ _ => hfailed
        failed := fun hfail => absurd hfail (hfailed ▸ Bool.false_ne_true) }
  all_goals
    exact
      { isOpen := fun _ h => absurd h (some_ne_none _).symm
        taken := fun _ h => absurd h (some_ne_none _).symm
        suffix := fun _ h => absurd h (some_ne_none _).symm
        order := fun front found back hsplit => h.order front found back (hsent ▸ hsplit)
        alive := fun _ h => absurd h (some_ne_none _).symm
        failed := fun hfail => by first | rfl | exact absurd hfail (hfailed ▸ Bool.false_ne_true) }

variable {waitEnd : WaitEnd}

theorem Kept.await (hlawful : reader.Lawful contents Open first)
    (h : stream.Kept contents Open first) (hread : stream.reading = some read) {limit ended : ℕ}
    {onClose onTimeout : Except X B} :
    (stream.await reader limit ended waitEnd onClose onTimeout read).Kept contents Open first := by
  have hfailed := h.alive read hread
  unfold BatchedStream.await
  split
  next event pending hpending => exact h.take hlawful hread hpending
  next => exact h
  next =>
    split_ifs
    · exact h.returns hfailed onClose read
    · exact h
  next => exact h
  next =>
    split_ifs
    · exact h.returns hfailed onTimeout read
    · exact h

theorem Kept.send {event : E} (h : stream.Kept contents Open first)
    (horder : first event = true → stream.sent = []) :
    ({ stream with pending := stream.pending ++ [event] } : BatchedStream E B X).Kept contents Open
      first :=
  { h with
    order := by
      intro front found back hsplit hfirst
      have hsent : stream.sent ++ [event] = front ++ found :: back := by
        rw [← hsplit, sent, sent, append_assoc]
      rcases append_eq_append_iff.mp hsent with ⟨middle, hfront, hback⟩ | ⟨middle, hold, hnew⟩
      · cases middle with
        | nil =>
          obtain ⟨rfl, -⟩ := List.cons.inj hback
          rw [hfront, horder hfirst, append_nil]
        | cons other middle =>
          have hlength := congrArg List.length hback
          simp only [length_cons, length_append, length_nil] at hlength
          omega
      · cases middle with
        | nil =>
          obtain ⟨rfl, -⟩ := List.cons.inj hnew
          rw [← horder hfirst, hold, append_nil]
        | cons other middle =>
          obtain ⟨rfl, -⟩ := List.cons.inj hnew
          exact h.order front found middle hold hfirst }

theorem Kept.step (hlawful : reader.Lawful contents Open first) (streamStep : StreamStep E)
    (h : stream.Kept contents Open first) (horder : InOrder first streamStep stream) :
    (stream.step reader streamStep).Kept contents Open first := by
  unfold BatchedStream.step
  split
  next _ event => exact h.send (horder event rfl)
  next => exact { h with }
  next limits hnone =>
    split_ifs with hregistered
    · exact
        { isOpen := fun read hread => some.inj hread ▸ hlawful.openEmpty
          taken := fun read hread => by
            obtain rfl := some.inj hread
            exact hlawful.empty
          suffix := fun read hread => some.inj hread ▸ nil_suffix
          order := h.order
          alive := fun _ _ => by
            rw [← Bool.not_eq_true]
            intro hfailed
            exact absurd hregistered (h.failed hfailed ▸ Bool.false_ne_true)
          failed := h.failed }
    · exact { h with }
  next => exact h
  next elapsed ended waitEnd read hread =>
    unfold BatchedStream.wait
    split_ifs
    · exact h.returns (h.alive read hread) _ read
    · exact h.await hlawful hread
    · exact h.await hlawful hread
  next => exact h

/-! ## The order of the events -/

theorem sent_take {event : E} {pending : List E} (hpending : stream.pending = event :: pending) :
    (stream.take reader event pending read).sent = stream.sent := by
  have hsent : stream.consumed ++ [event] ++ pending = stream.sent := by
    rw [sent, hpending, append_assoc, singleton_append]
  unfold take handle
  split <;> exact hsent

theorem sent_await {limit ended : ℕ} {onClose onTimeout : Except X B} :
    (stream.await reader limit ended waitEnd onClose onTimeout read).sent = stream.sent := by
  unfold BatchedStream.await
  split
  next event pending hpending => exact sent_take hpending
  next => rfl
  next => split_ifs <;> rfl
  next => rfl
  next => split_ifs <;> rfl

theorem sent_step (streamStep : StreamStep E) :
    (stream.step reader streamStep).sent = stream.sent ++ streamStep.event.toList := by
  unfold step
  split
  next _ event => exact (append_assoc stream.consumed stream.pending [event]).symm
  next => exact (append_nil _).symm
  next => split_ifs <;> exact (append_nil _).symm
  next => exact (append_nil _).symm
  next =>
    refine Eq.trans ?_ (append_nil _).symm
    unfold wait
    split_ifs
    · rfl
    · exact sent_await
    · exact sent_await
  next => exact (append_nil _).symm

theorem sends_cons (streamStep : StreamStep E) (steps : List (StreamStep E)) :
    sends (streamStep :: steps) = streamStep.event.toList ++ sends steps := by
  cases streamStep <;> rfl

theorem inOrder_of_sends {events : List E}
    (hfirst : ∀ front event back, events = front ++ event :: back → first event = true →
      front = []) {steps : List (StreamStep E)} :
    ∀ {stream : BatchedStream E B X}, stream.sent ++ sends steps <+: events →
      ReplayMeets (step reader) (InOrder first) steps stream := by
  induction steps with
  | nil => intro stream _; exact trivial
  | cons streamStep steps ih =>
    intro stream hsends
    refine ⟨?_, ih ?_⟩
    · rintro event rfl hevent
      obtain ⟨back, hback⟩ := hsends
      refine hfirst stream.sent event (sends steps ++ back) ?_ hevent
      rw [← hback, append_assoc]
      rfl
    · rw [sent_step, append_assoc, ← sends_cons]
      exact hsends

/-! ## What a step delivers -/

theorem delivered_initial : (initial : BatchedStream E B X).Delivered contents where
  contents _ := rfl
  errors _ _ _ h := absurd h not_mem_nil

theorem Delivered.reading (h : stream.Delivered contents) (hfailed : stream.failed = false)
    (hread : stream.reading = some read) :
    stream.results.flatMap (resultContents contents) ++ contents read.batch = stream.consumed := by
  have hcontents := h.contents hfailed
  rwa [hread] at hcontents

theorem delivered_returns_ok (h : stream.Delivered contents) (hfailed : stream.failed = false)
    (hread : stream.reading = some read) {batch : B} (hbatch : contents batch = contents read.batch)
    {taken : List E} :
    (stream.returns (.ok batch) { read with taken }).Delivered contents where
  contents _ := by
    change (stream.results ++ [(Except.ok batch, taken)]).flatMap (resultContents contents) ++ [] =
      stream.consumed
    rw [flatMap_append, flatMap_singleton, append_nil, ← h.reading hfailed hread, ← hbatch]
    rfl
  errors _ error taken' hmem := by
    rcases mem_append.mp hmem with hmem | hmem
    · exact h.errors hfailed error taken' hmem
    · exact absurd (Prod.mk.inj (mem_singleton.mp hmem)).1 (by simp)

theorem delivered_returns_error_iff (hkept : stream.Kept contents Open first)
    (h : stream.Delivered contents) (hread : stream.reading = some read) {error : X} :
    (stream.returns (.error error) read).Delivered contents ↔ read.taken = [] := by
  have hfailed := hkept.alive read hread
  constructor
  · intro hreturned
    exact hreturned.errors hfailed error read.taken (mem_append_right _ mem_cons_self)
  · intro hnone
    refine ⟨fun _ => ?_, fun _ error' taken hmem => ?_⟩
    · change (stream.results ++ [(Except.error error, read.taken)]).flatMap
        (resultContents contents) ++ [] = stream.consumed
      rw [flatMap_append, flatMap_singleton, append_nil,
        ← h.reading hfailed hread, hkept.taken read hread, hnone]
      rfl
    · rcases mem_append.mp hmem with hmem | hmem
      · exact h.errors hfailed error' taken hmem
      · rw [(Prod.mk.inj (mem_singleton.mp hmem)).2, hnone]

section

variable (hlawful : reader.Lawful contents Open first)

include hlawful

theorem delivered_take (hkept : stream.Kept contents Open first) (h : stream.Delivered contents)
    (hread : stream.reading = some read) {event : E} {pending : List E}
    (hpending : stream.pending = event :: pending) :
    (stream.take reader event pending read).Delivered contents := by
  have hadds := hkept.adds hlawful hread hpending
  have hfailed := hkept.alive read hread
  have hconsumed : ∀ batch, contents batch = contents read.batch ++ [event] →
      stream.results.flatMap (resultContents contents) ++ contents batch =
        stream.consumed ++ [event] := by
    intro batch hbatch
    rw [hbatch, ← append_assoc, h.reading hfailed hread]
  have hreturned : ∀ (batch : B), contents batch = contents read.batch ++ [event] →
      ∀ registered, ({ stream with
        pending, consumed := stream.consumed ++ [event], reading := none, registered
        results := stream.results ++ [(.ok batch, read.taken ++ [event])] } :
          BatchedStream E B X).Delivered contents := by
    intro batch hbatch registered
    refine ⟨fun _ => ?_, fun _ error taken hmem => ?_⟩
    · change (stream.results ++ [(Except.ok batch, read.taken ++ [event])]).flatMap
        (resultContents contents) ++ [] = stream.consumed ++ [event]
      rw [flatMap_append, flatMap_singleton, append_nil]
      exact hconsumed batch hbatch
    · rcases mem_append.mp hmem with hmem | hmem
      · exact h.errors hfailed error taken hmem
      · exact absurd (Prod.mk.inj (mem_singleton.mp hmem)).1 (by simp)
  unfold BatchedStream.take handle
  split
  next batch heq =>
    rw [heq] at hadds
    exact ⟨fun _ => hconsumed batch hadds.2, h.errors⟩
  next batch heq =>
    rw [heq] at hadds
    exact hreturned batch hadds stream.registered
  next batch heq =>
    rw [heq] at hadds
    exact hreturned batch hadds false
  next error heq =>
    exact ⟨fun hfail => absurd hfail (by simp), fun hfail => absurd hfail (by simp)⟩

/-- A round of the loop loses nothing exactly if it does not give up what the read took. -/
theorem delivered_wait_iff (hkept : stream.Kept contents Open first)
    (h : stream.Delivered contents) (hread : stream.reading = some read) {elapsed ended : ℕ} :
    (stream.wait reader elapsed ended waitEnd read).Delivered contents ↔
      (stream.givesUp reader ended waitEnd read = true → read.taken = []) := by
  have hfailed := hkept.alive read hread
  have hopen := hkept.isOpen read hread
  have hflush : ∀ batch, contents batch = contents read.batch →
      (stream.returns (.ok batch) read).Delivered contents :=
    fun batch hbatch => delivered_returns_ok h hfailed hread hbatch
  unfold BatchedStream.wait
  cases hholds : reader.holdsContent read.batch with
  | true =>
    have hkeeps : stream.givesUp reader ended waitEnd read = false := by
      unfold givesUp
      rw [hholds]
      rfl
    refine iff_of_true ?_ fun hgives => absurd (hkeeps.symm.trans hgives) Bool.false_ne_true
    rw [if_pos rfl]
    split_ifs
    · exact hflush _ (hlawful.flushAfterTimeout _ hopen)
    · unfold BatchedStream.await
      split
      next event pending hpending => exact delivered_take hlawful hkept h hread hpending
      next => exact h
      next =>
        split_ifs
        · exact hflush _ (hlawful.flushAfterClose _ hopen)
        · exact h
      next => exact h
      next =>
        split_ifs
        · exact hflush _ (hlawful.flushAfterTimeout _ hopen)
        · exact h
  | false =>
    rw [if_neg Bool.false_ne_true]
    unfold BatchedStream.await givesUp
    rw [hholds]
    split
    next event pending hpending =>
      exact iff_of_true (delivered_take hlawful hkept h hread hpending)
        fun hgives => absurd hgives (by simp)
    next => exact iff_of_true h fun hgives => absurd hgives (by simp)
    next hpending =>
      rw [hpending]
      split_ifs with hclosed
      · rw [delivered_returns_error_iff hkept h hread, hclosed]
        exact ⟨fun hnone _ => hnone, fun hnone => hnone rfl⟩
      · exact iff_of_true h fun hgives => absurd hgives (by simp [hclosed])
    next event pending hpending =>
      exact iff_of_true h fun hgives => absurd hgives (by simp [hpending])
    next =>
      split_ifs with hlimit
      · cases hidle : reader.idle read.batch with
        | ok batch =>
          exact iff_of_true (hflush _ (hlawful.idle _ _ hopen hidle))
            fun hgives => absurd hgives (by simp [Except.isOk, Except.toBool])
        | error error =>
          rw [delivered_returns_error_iff hkept h hread]
          exact ⟨fun hnone _ => hnone, fun hnone => hnone (by simp [hlimit, Except.isOk,
            Except.toBool])⟩
      · exact iff_of_true h fun hgives => absurd hgives (by simp [hlimit])

theorem delivered_step_iff (streamStep : StreamStep E) (hkept : stream.Kept contents Open first)
    (h : stream.Delivered contents) :
    (stream.step reader streamStep).Delivered contents ↔ LosesNothing reader streamStep stream := by
  unfold BatchedStream.step
  split
  next => exact iff_of_true ⟨h.contents, h.errors⟩ fun _ _ _ heq => absurd heq (by simp)
  next => exact iff_of_true ⟨h.contents, h.errors⟩ fun _ _ _ heq => absurd heq (by simp)
  next limits hnone =>
    refine iff_of_true ?_ fun _ _ _ heq => absurd heq (by simp)
    have hcontents := h.contents
    rw [hnone] at hcontents
    split_ifs with hregistered
    · refine ⟨fun hfailed => ?_, h.errors⟩
      refine Eq.trans ?_ (hcontents hfailed)
      exact congrArg (stream.results.flatMap (resultContents contents) ++ ·) hlawful.empty
    · refine ⟨fun hfailed => ?_, fun hfailed error taken hmem => ?_⟩
      · change (stream.results ++ [(Except.error reader.streamIsUnknown, [])]).flatMap
          (resultContents contents) ++ stream.reading.elim [] _ = stream.consumed
        rw [hnone, flatMap_append, flatMap_singleton]
        exact (congrArg (· ++ []) (append_nil _)).trans (hcontents hfailed)
      · rcases mem_append.mp hmem with hmem | hmem
        · exact h.errors hfailed error taken hmem
        · exact (Prod.mk.inj (mem_singleton.mp hmem)).2
  next => exact iff_of_true h fun _ _ _ heq => absurd heq (by simp)
  next elapsed ended waitEnd read hread =>
    rw [delivered_wait_iff hlawful hkept h hread]
    constructor
    · intro hnone elapsed' ended' waitEnd' heq read' hread'
      obtain ⟨-, rfl, rfl⟩ := StreamStep.wait.inj heq
      obtain rfl : read = read' := some.inj (hread.symm.trans hread')
      exact hnone
    · intro hloses
      exact hloses elapsed ended waitEnd rfl read hread
  next hnone =>
    refine iff_of_true h fun _ _ _ _ read hread => ?_
    exact absurd (hnone.symm.trans hread) (some_ne_none _).symm

/-- A reader whose batches without content are empty never gives up events that it took. -/
theorem delivered_of_run
    (hempty : ∀ batch, Open batch → reader.holdsContent batch = false → contents batch = [])
    {steps : List (StreamStep E)}
    (horder : ReplayMeets (step reader) (InOrder first) steps initial) :
    (replay (step reader) steps initial).Delivered contents := by
  have hsteps : ∀ streamStep (stream : BatchedStream E B X),
      stream.Kept contents Open first ∧ stream.Delivered contents →
      InOrder first streamStep stream →
      (stream.step reader streamStep).Kept contents Open first ∧
        (stream.step reader streamStep).Delivered contents := by
    intro streamStep stream h hinOrder
    refine ⟨h.1.step hlawful streamStep hinOrder, ?_⟩
    rw [delivered_step_iff hlawful streamStep h.1 h.2]
    intro elapsed ended waitEnd _ read hread hgives
    have hholds : reader.holdsContent read.batch = false := by
      unfold givesUp at hgives
      rw [Bool.and_eq_true, Bool.not_eq_true'] at hgives
      exact hgives.1
    rw [← h.1.taken read hread]
    exact hempty read.batch (h.1.isOpen read hread) hholds
  exact (replay_invariant _ hsteps ⟨kept_initial, delivered_initial⟩ horder).2

end

end BatchedStream

end DashQL
