import DashQL.Native.StreamManagers

/-!
# Who refers to the receiver of a stream

The channel of a stream has its receiver in an entry that is counted by references.  A call that
starts a stream puts the entry into the map and spawns a task; a call that reads clones the entry;
the destroy calls remove it from the map, and "cancellation is done by just dropping everything".

The HTTP and the gRPC task hold the entry themselves, since they send through it.  A task of theirs
that still runs when the stream is destroyed keeps the receiver alive that it waits for
(`blocked_of_run`).  The Docker task has only a sender.
-/

namespace DashQL.Native

open List

/-- How a manager treats the streams: what it spawns, and which events end a stream. -/
structure StreamManager (E : Type*) where
  streamCapacity : ℕ
  /-- The spawned task owns the entry, and not only a sender. -/
  taskHoldsEntry : Bool
  isFinal : E → Bool

inductive ReaderTask (E : Type*) where
  | notSpawned
  | working
  | sending (event : E)
  | returning
  | ended
  deriving DecidableEq

/-- A stream: who refers to its entry, the task, and the channel. -/
structure StreamState (E : Type*) where
  /-- The call that starts the stream has its reference. -/
  starting : Bool
  /-- The map has a reference. -/
  registered : Bool
  /-- The read calls in progress, with a reference each. -/
  reads : ℕ
  task : ReaderTask E
  queue : List E
  deriving DecidableEq

inductive StreamAction (E : Type*) where
  | spawn
  | startReturns
  | produce (event : E)
  | send
  | taskReturns
  | read
  | receive
  | readReturns
  | destroy

/-- A step of a manager: a call that starts a stream, or an action on the stream with an id. -/
inductive ManagerStep (E : Type*) where
  | start
  | act (streamId : ℕ) (action : StreamAction E)

variable {E : Type*}

def ReaderTask.isAlive : ReaderTask E → Bool
  | .notSpawned => false
  | .working => true
  | .sending _ => true
  | .returning => true
  | .ended => false

namespace StreamState

/-- A stream that was just put into the map. -/
def started : StreamState E where
  starting := true
  registered := true
  reads := 0
  task := .notSpawned
  queue := []

def taskRefers (manager : StreamManager E) (stream : StreamState E) : Bool :=
  manager.taskHoldsEntry && stream.task.isAlive

/-- The number of references to the entry, which has the receiver. -/
def references (manager : StreamManager E) (stream : StreamState E) : ℕ :=
  stream.starting.toNat + stream.registered.toNat + stream.reads + (stream.taskRefers manager).toNat

/-- Push the event of the task.  This fails without a receiver, and waits while there is no room. -/
def send (manager : StreamManager E) (event : E) (stream : StreamState E) : StreamState E :=
  if stream.references manager = 0 then
    { stream with task := .returning }
  else if stream.queue.length < manager.streamCapacity then
    { stream with
      queue := stream.queue ++ [event]
      task := if manager.isFinal event then .returning else .working }
  else
    stream

/-- A read takes an event.  The final ones remove the stream from the map. -/
def receive (manager : StreamManager E) (stream : StreamState E) : StreamState E :=
  match stream.reads, stream.queue with
  | _ + 1, event :: queue =>
    { stream with queue, registered := stream.registered && !manager.isFinal event }
  | _, _ => stream

/-- What is done with a stream.  What cannot happen leaves it as it is. -/
def act (manager : StreamManager E) (action : StreamAction E) (stream : StreamState E) :
    StreamState E :=
  match action with
  | .spawn =>
    match stream.task with
    | .notSpawned =>
      if stream.starting then
        -- An entry that the task owns is moved out of the call.
        { stream with task := .working, starting := !manager.taskHoldsEntry }
      else
        stream
    | _ => stream
  | .startReturns =>
    match stream.task with
    | .notSpawned => stream
    | _ => { stream with starting := false }
  | .produce event =>
    match stream.task with
    | .working => { stream with task := .sending event }
    | _ => stream
  | .send =>
    match stream.task with
    | .sending event => stream.send manager event
    | _ => stream
  | .taskReturns =>
    match stream.task with
    | .returning => { stream with task := .ended }
    | _ => stream
  | .read => if stream.registered then { stream with reads := stream.reads + 1 } else stream
  | .receive => stream.receive manager
  | .readReturns => { stream with reads := stream.reads - 1 }
  | .destroy => { stream with registered := false }

/-- A stream that is not in the map and not being read has no references. -/
def Released (manager : StreamManager E) (stream : StreamState E) : Prop :=
  stream.registered = false → stream.reads = 0 → stream.references manager = 0

/-- The call that started the stream and its task have let go of it. -/
def OthersLetGo (manager : StreamManager E) (stream : StreamState E) : Prop :=
  stream.starting = false ∧ stream.taskRefers manager = false

/-- A stream is destroyed, unless it is being read, and the last read of a stream that is not in the
map returns, only after the others let go. -/
def FreedLast (manager : StreamManager E) (action : StreamAction E) (stream : StreamState E) :
    Prop :=
  match action with
  | .destroy => stream.reads = 0 → stream.OthersLetGo manager
  | .readReturns =>
    stream.registered = false → stream.reads = 1 → stream.OthersLetGo manager
  | _ => True

end StreamState

namespace StreamManager

/-- The streams of a manager at their ids, which are given out in order. -/
abbrev Streams (E : Type*) := List (StreamState E)

def step (manager : StreamManager E) (managerStep : ManagerStep E) (streams : Streams E) :
    Streams E :=
  match managerStep with
  | .start => streams ++ [.started]
  | .act streamId action => streams.modify streamId (StreamState.act manager action)

/-- All streams are released once they left the map. -/
def AllReleased (manager : StreamManager E) (streams : Streams E) : Prop :=
  ∀ (streamId : ℕ) (stream : StreamState E), streams[streamId]? = some stream →
    stream.Released manager

/-- A step that frees no stream before the others let go of it. -/
def FreesLast (manager : StreamManager E) (managerStep : ManagerStep E) (streams : Streams E) :
    Prop :=
  ∀ streamId action, managerStep = .act streamId action →
    ∀ stream : StreamState E, streams[streamId]? = some stream → stream.FreedLast manager action

/-- `HttpStreamManager`, whose task owns the entry. -/
def http : StreamManager HttpServerStreamEvent where
  streamCapacity := 10
  taskHoldsEntry := true
  isFinal
    | .requestFailed _ => true
    | .header _ _ => false
    | .bodyChunk _ => false
    | .bodyEnd => true
    | .bodyReadFailed _ => true

/-- `GrpcStreamManager`, whose task owns the entry. -/
def grpc {G : Type*} : StreamManager (GrpcServerStreamEvent G) where
  streamCapacity := 10
  taskHoldsEntry := true
  isFinal
    | .message _ => false
    | .ends _ => true
    | .readFailed _ _ => true

/-- `DockerLogStreamManager`, whose task has a sender of its own. -/
def docker : StreamManager DockerStreamEvent where
  streamCapacity := 32
  taskHoldsEntry := false
  isFinal
    | .bodyChunk _ => false
    | .bodyEnd => true
    | .bodyReadFailed _ => true
    | .requestFailed _ => true

end StreamManager

/-! ## One stream -/

namespace StreamState

variable {manager : StreamManager E} {stream : StreamState E}

theorem references_of_freed (hregistered : stream.registered = false) (hreads : stream.reads = 0) :
    stream.references manager = 0 ↔ stream.OthersLetGo manager := by
  unfold references OthersLetGo
  rw [hregistered, hreads]
  cases stream.starting <;> cases stream.taskRefers manager <;> simp

theorem released_iff :
    stream.Released manager ↔
      (stream.registered = false → stream.reads = 0 → stream.OthersLetGo manager) := by
  constructor
  · intro h hregistered hreads
    exact (references_of_freed hregistered hreads).mp (h hregistered hreads)
  · intro h hregistered hreads
    exact (references_of_freed hregistered hreads).mpr (h hregistered hreads)

/-- An action that frees nothing, and gives no reference to the task or to the call. -/
theorem Released.of_others {stream' : StreamState E} (h : stream.Released manager)
    (hregistered : stream'.registered = false → stream'.reads = 0 → stream.registered = false)
    (hreads : stream'.registered = false → stream'.reads = 0 → stream.reads = 0)
    (hothers : stream.OthersLetGo manager → stream'.OthersLetGo manager) :
    stream'.Released manager := by
  rw [released_iff] at h ⊢
  intro hregistered' hreads'
  exact hothers (h (hregistered hregistered' hreads') (hreads hregistered' hreads'))

theorem released_started : (started : StreamState E).Released manager :=
  fun h => absurd h (by simp [started])

theorem released_send {event : E} (h : stream.Released manager)
    (htask : stream.task = .sending event) : (stream.send manager event).Released manager := by
  have halive : stream.task.isAlive = true := by rw [htask]; rfl
  have hothers : ∀ task : ReaderTask E, ∀ queue, stream.OthersLetGo manager →
      ({ stream with task, queue } : StreamState E).OthersLetGo manager := by
    intro task queue hothers
    refine ⟨hothers.1, ?_⟩
    have hrefers := hothers.2
    rw [taskRefers, halive, Bool.and_true] at hrefers
    rw [taskRefers, hrefers, Bool.false_and]
  have hkeeps : ∀ task : ReaderTask E, ∀ queue,
      ({ stream with task, queue } : StreamState E).Released manager :=
    fun task queue =>
      h.of_others (fun hregistered _ => hregistered) (fun _ hreads => hreads) (hothers task queue)
  unfold send
  by_cases hnone : stream.references manager = 0
  · rw [if_pos hnone]
    exact hkeeps _ _
  · rw [if_neg hnone]
    by_cases hroom : stream.queue.length < manager.streamCapacity
    · rw [if_pos hroom]
      exact hkeeps _ _
    · rw [if_neg hroom]
      exact h

theorem released_receive (h : stream.Released manager) :
    (stream.receive manager).Released manager := by
  unfold receive
  split
  next hreads _ => exact fun _ hnone => absurd (hreads.symm.trans hnone) (Nat.succ_ne_zero _)
  next => exact h

theorem released_act_iff (action : StreamAction E) (h : stream.Released manager) :
    (stream.act manager action).Released manager ↔ stream.FreedLast manager action := by
  cases action with
  | spawn =>
    refine iff_of_true ?_ trivial
    unfold act
    dsimp only
    split
    next =>
      split_ifs with hstarting
      · refine h.of_others (fun hregistered _ => hregistered) (fun _ hreads => hreads) ?_
        intro hothers
        exact absurd (hothers.1.symm.trans hstarting) Bool.false_ne_true
      · exact h
    next => exact h
  | startReturns =>
    refine iff_of_true ?_ trivial
    unfold act
    dsimp only
    split
    next => exact h
    next =>
      exact h.of_others (fun hregistered _ => hregistered) (fun _ hreads => hreads)
        fun hothers => ⟨rfl, hothers.2⟩
  | produce event =>
    refine iff_of_true ?_ trivial
    unfold act
    dsimp only
    split
    next htask =>
      refine h.of_others (fun hregistered _ => hregistered) (fun _ hreads => hreads) ?_
      intro hothers
      refine ⟨hothers.1, ?_⟩
      have hrefers := hothers.2
      rw [taskRefers, htask] at hrefers
      exact hrefers
    next => exact h
  | send =>
    refine iff_of_true ?_ trivial
    unfold act
    dsimp only
    split
    next event htask => exact released_send h htask
    next => exact h
  | taskReturns =>
    refine iff_of_true ?_ trivial
    unfold act
    dsimp only
    split
    next =>
      exact h.of_others (fun hregistered _ => hregistered) (fun _ hreads => hreads)
        fun hothers => ⟨hothers.1, Bool.and_false _⟩
    next => exact h
  | read =>
    refine iff_of_true ?_ trivial
    unfold act
    dsimp only
    split_ifs
    · exact fun _ hreads => absurd hreads (Nat.succ_ne_zero _)
    · exact h
  | receive => exact iff_of_true (released_receive h) trivial
  | readReturns =>
    rw [released_iff] at h ⊢
    constructor
    · intro hreturned hregistered hreads
      exact hreturned hregistered (congrArg (· - 1) hreads)
    · intro hfreed hregistered hreads
      have hlast : stream.reads - 1 = 0 := hreads
      rcases Nat.lt_or_ge stream.reads 1 with hlt | hge
      · exact h hregistered (Nat.lt_one_iff.mp hlt)
      · exact hfreed hregistered (by omega)
  | destroy =>
    rw [released_iff]
    constructor
    · intro hdestroyed hreads
      exact hdestroyed rfl hreads
    · intro hfreed _ hreads
      exact hfreed hreads

/-- A stream that only its task refers to, which waits for room in the channel. -/
structure Blocked (manager : StreamManager E) (event : E) (stream : StreamState E) : Prop where
  starting : stream.starting = false
  registered : stream.registered = false
  reads : stream.reads = 0
  task : stream.task = .sending event
  full : manager.streamCapacity ≤ stream.queue.length

theorem act_of_blocked (hholds : manager.taskHoldsEntry = true) {event : E}
    (h : stream.Blocked manager event) (action : StreamAction E) :
    stream.act manager action = stream := by
  obtain ⟨starting, registered, reads, task, queue⟩ := stream
  obtain rfl : starting = false := h.starting
  obtain rfl : registered = false := h.registered
  obtain rfl : reads = 0 := h.reads
  obtain rfl : task = .sending event := h.task
  cases action with
  | send =>
    change send manager event _ = _
    have hreferences : references manager
        { starting := false, registered := false, reads := 0, task := .sending event, queue } ≠
          0 := by
      rw [references, taskRefers, hholds]
      exact Nat.succ_ne_zero _
    rw [send, if_neg hreferences, if_neg (Nat.not_lt.mpr h.full)]
  | _ => rfl

end StreamState

/-! ## All streams of a manager -/

namespace StreamManager

variable {manager : StreamManager E} {streams : Streams E}

theorem allReleased_step_iff (managerStep : ManagerStep E) (h : manager.AllReleased streams) :
    manager.AllReleased (manager.step managerStep streams) ↔
      manager.FreesLast managerStep streams := by
  cases managerStep with
  | start =>
    refine iff_of_true ?_ fun _ _ heq => absurd heq (by simp)
    intro streamId stream hstream
    rcases mem_append.mp (List.mem_of_getElem? hstream) with hold | hnew
    · obtain ⟨oldId, hold⟩ := mem_iff_getElem?.mp hold
      exact h oldId stream hold
    · obtain rfl := mem_singleton.mp hnew
      exact StreamState.released_started
  | act streamId action =>
    constructor
    · intro hreleased streamId' action' heq stream hstream
      obtain ⟨rfl, rfl⟩ := ManagerStep.act.inj heq
      refine (StreamState.released_act_iff action (h streamId stream hstream)).mp ?_
      refine hreleased streamId (stream.act manager action) ?_
      rw [step, getElem?_modify_eq, hstream]
      rfl
    · intro hfrees streamId' stream hstream
      rw [step, getElem?_modify] at hstream
      obtain ⟨before, hbefore, rfl⟩ := Option.map_eq_some_iff.mp hstream
      split_ifs with hid
      · obtain rfl := hid
        exact (StreamState.released_act_iff action (h streamId before hbefore)).mpr
          (hfrees streamId action rfl before hbefore)
      · exact h streamId' before hbefore

theorem released_of_run_iff (manager : StreamManager E) (steps : List (ManagerStep E)) :
    (∀ front back, steps = front ++ back → manager.AllReleased (replay manager.step front [])) ↔
      ReplayMeets manager.step manager.FreesLast steps [] :=
  replay_invariant_iff _ (fun managerStep _ => allReleased_step_iff managerStep)
    fun _ _ h => absurd h (by simp)

theorem blocked_of_run (hholds : manager.taskHoldsEntry = true) {streamId : ℕ}
    {stream : StreamState E} {event : E} (h : stream.Blocked manager event)
    (hstream : streams[streamId]? = some stream) (steps : List (ManagerStep E)) :
    (replay manager.step steps streams)[streamId]? = some stream := by
  refine replay_kept (fun streams : Streams E => streams[streamId]? = some stream) ?_ hstream
  intro managerStep streams hbefore
  cases managerStep with
  | start =>
    have hlt : streamId < streams.length := (List.getElem?_eq_some_iff.mp hbefore).1
    exact (getElem?_append_left hlt).trans hbefore
  | act streamId' action =>
    rw [step, getElem?_modify, hbefore]
    change some (if streamId' = streamId then stream.act manager action else stream) = some stream
    rw [StreamState.act_of_blocked hholds h, ite_self]

/-- In all states of a run the streams that left the map and are not being read have no references,
exactly if every step frees them last: after the call that started them and, with HTTP and gRPC,
after the task. -/
theorem streams_released_iff {G : Type*} :
    (∀ steps, (∀ front back, steps = front ++ back → http.AllReleased (replay http.step front [])) ↔
      ReplayMeets http.step http.FreesLast steps []) ∧
    (∀ steps, (∀ front back, steps = front ++ back →
        (grpc : StreamManager (GrpcServerStreamEvent G)).AllReleased (replay grpc.step front [])) ↔
      ReplayMeets grpc.step (grpc : StreamManager (GrpcServerStreamEvent G)).FreesLast steps []) ∧
    (∀ steps, (∀ front back, steps = front ++ back →
        docker.AllReleased (replay docker.step front [])) ↔
      ReplayMeets docker.step docker.FreesLast steps []) :=
  ⟨released_of_run_iff http, released_of_run_iff grpc, released_of_run_iff docker⟩

/-- A response that fills the channel, and is destroyed while its task sends another chunk. -/
def destroyedWhileSending : List (ManagerStep HttpServerStreamEvent) :=
  [.start, .act 0 .spawn, .act 0 .startReturns, .act 0 (.produce (.header 200 [])), .act 0 .send] ++
    (List.replicate 9 [.act 0 (.produce (.bodyChunk [0])), .act 0 .send]).flatten ++
    [.act 0 (.produce (.bodyChunk [0])), .act 0 .destroy]

/-- The stream that is left. -/
def waitingForRoom : StreamState HttpServerStreamEvent where
  starting := false
  registered := false
  reads := 0
  task := .sending (.bodyChunk [0])
  queue := .header 200 [] :: List.replicate 9 (.bodyChunk [0])

/-- The destroyed stream is still referred to by its task, which waits for ever. -/
theorem retained_after_destroy :
    ¬ http.AllReleased (replay http.step destroyedWhileSending []) ∧
      ∀ steps, (replay http.step (destroyedWhileSending ++ steps) [])[0]? = some waitingForRoom := by
  have hafter : replay http.step destroyedWhileSending [] = [waitingForRoom] := by decide +kernel
  have hblocked : waitingForRoom.Blocked http (.bodyChunk [0]) :=
    { starting := rfl, registered := rfl, reads := rfl, task := rfl, full := by decide }
  refine ⟨fun hreleased => ?_, fun steps => ?_⟩
  · rw [hafter] at hreleased
    exact absurd (hreleased 0 waitingForRoom rfl rfl rfl) (by decide)
  · rw [replay_append, hafter]
    exact blocked_of_run rfl hblocked rfl steps

end StreamManager

end DashQL.Native
