import DashQL.Connection.HyperResultReader
import DashQL.Library.Replay

/-!
# Reading all chunks of a Hyper result

Whatever the order of the answers, and however old the statuses that they bring, the
reader hands out all chunks in their order before it ends (`reads_of_run`): it ends
only where the status that it has is completed, and from that same status it has
filled its window before.  While the answers to its polls are stale it goes on
polling; every completed one brings a further chunk or the end
(`Reading.poll_completes`).
-/

namespace DashQL.Connection

open List

/-! ## The window -/

open HyperResult

/-- The window has the chunks that are fetched and not taken, in their order, and no more of them
than it may; only the first chunk was requested with the schema. -/
structure Window (server : HyperResult) (taken : ℕ) (queue : List ChunkRequest)
    (reader : WebHyperResultReader) : Prop where
  consecutive : queue = (List.range' taken (reader.nextPrefetchIndex - taken)).map request
  taken_le : taken ≤ reader.nextPrefetchIndex
  next_le : reader.nextPrefetchIndex ≤ server.chunkCount
  length_le : queue.length ≤ reader.parallelChunks
  positive : 0 < reader.parallelChunks
  shows : server.Shows reader.status
  schema : reader.schemaEmitted = decide (reader.nextPrefetchIndex ≠ 0)

/-- The loop fetches the next chunks, until the window is full or there are no more. -/
theorem fillPlaces_eq (places : ℕ) (reader : WebHyperResultReader)
    (hschema : reader.schemaEmitted = decide (reader.nextPrefetchIndex ≠ 0)) :
    ∃ added, added ≤ places ∧
      reader.fillPlaces places =
        { reader with
          nextPrefetchIndex := reader.nextPrefetchIndex + added
          inflight := reader.inflight ++ (List.range' reader.nextPrefetchIndex added).map request
          schemaEmitted := decide (reader.nextPrefetchIndex + added ≠ 0) } ∧
      (added = 0 ∨ reader.nextPrefetchIndex + added ≤ reader.status.chunkCount.getD 0) ∧
      (added = places ∨ reader.status.chunkCount.getD 0 ≤ reader.nextPrefetchIndex + added) := by
  induction places generalizing reader with
  | zero =>
    refine ⟨0, le_refl 0, ?_, .inl rfl, .inl rfl⟩
    rw [Nat.add_zero, ← hschema]
    simp [WebHyperResultReader.fillPlaces]
  | succ places ih =>
    unfold WebHyperResultReader.fillPlaces
    by_cases hmore : reader.nextPrefetchIndex < reader.status.chunkCount.getD 0
    · obtain ⟨added, hadded, heq, hlimit, hfull⟩ := ih reader.prefetch (by
        simp [WebHyperResultReader.prefetch])
      have hfetched : (⟨reader.nextPrefetchIndex, reader.schemaEmitted⟩ : ChunkRequest) =
          request reader.nextPrefetchIndex := by rw [hschema, request]
      have hnext : reader.prefetch.nextPrefetchIndex + added =
          reader.nextPrefetchIndex + (added + 1) := by
        change reader.nextPrefetchIndex + 1 + added = _
        omega
      rw [hnext] at heq hlimit hfull
      refine ⟨added + 1, by omega, ?_, ?_, ?_⟩
      · rw [if_pos hmore, heq]
        simp only [WebHyperResultReader.prefetch, hfetched, append_assoc,
          singleton_append, range'_succ, map_cons]
      · change added = 0 ∨ _ ≤ reader.status.chunkCount.getD 0 at hlimit
        omega
      · change added = places ∨ reader.status.chunkCount.getD 0 ≤ _ at hfull
        omega
    · refine ⟨0, Nat.zero_le _, ?_, .inl rfl, .inr (by omega)⟩
      rw [if_neg hmore, Nat.add_zero, ← hschema]
      simp

/-- Filling keeps the window; where it stays empty, all chunks of the status were fetched. -/
theorem Window.fill {server : HyperResult} {taken : ℕ} {reader : WebHyperResultReader}
    (h : Window server taken reader.inflight reader) :
    Window server taken reader.fillPrefetchWindow.inflight reader.fillPrefetchWindow ∧
      reader.fillPrefetchWindow.status = reader.status ∧
      reader.fillPrefetchWindow.initialBytes = reader.initialBytes ∧
      reader.nextPrefetchIndex ≤ reader.fillPrefetchWindow.nextPrefetchIndex ∧
      (reader.fillPrefetchWindow.inflight = [] →
        reader.status.chunkCount.getD 0 ≤ reader.fillPrefetchWindow.nextPrefetchIndex) := by
  obtain ⟨added, hadded, heq, hlimit, hfull⟩ := fillPlaces_eq
    (reader.parallelChunks - reader.inflight.length) reader h.schema
  unfold WebHyperResultReader.fillPrefetchWindow
  have htaken := h.taken_le
  have hnext := h.next_le
  have hshown := h.shows.le
  have hlength := h.length_le
  have hpositive := h.positive
  rw [heq]
  refine ⟨⟨?_, ?_, ?_, ?_, h.positive, h.shows, rfl⟩, rfl, rfl, Nat.le_add_right _ _, ?_⟩
  · change reader.inflight ++ _ = _
    have hsplit : reader.nextPrefetchIndex + added - taken =
        (reader.nextPrefetchIndex - taken) + added := by omega
    have hstart : taken + 1 * (reader.nextPrefetchIndex - taken) = reader.nextPrefetchIndex := by omega
    rw [h.consecutive, hsplit, ← range'_append, map_append, hstart]
  · change taken ≤ reader.nextPrefetchIndex + added
    omega
  · change reader.nextPrefetchIndex + added ≤ server.chunkCount
    omega
  · change (reader.inflight ++ _).length ≤ reader.parallelChunks
    rw [length_append, length_map, length_range']
    omega
  · intro hempty
    have hinflight := (append_eq_nil_iff.mp hempty).1
    rw [hinflight, length_nil] at hfull
    have hnone := congrArg List.length (append_eq_nil_iff.mp hempty).2
    rw [length_map, length_range', length_nil] at hnone
    change reader.status.chunkCount.getD 0 ≤ reader.nextPrefetchIndex + added
    omega

/-! ## What has been read -/

/-- The initial bytes while they have not been returned. -/
def HyperRead.pending (read : HyperRead) : List Bytes :=
  if holdsBytes read.reader.initialBytes then [read.reader.initialBytes.getD []] else []

/-- The bytes of the chunks taken so far were returned, and perhaps the end after all chunks. -/
def Returned (server : HyperResult) (taken : ℕ) (read : HyperRead) : Prop :=
  ∃ values ended, read.results = values.map some ++ List.replicate ended none ∧
    values ++ read.pending = server.chunks taken ∧
      (0 < ended → taken = server.chunkCount ∧ read.reader.status.isCompleted = true ∧
        read.call = .returned)

/-- What holds between any two events of a reader that has taken some chunks. -/
structure Reading (server : HyperResult) (taken : ℕ) (read : HyperRead) : Prop where
  window : Window server taken read.outstanding read.reader
  returned : Returned server taken read
  initial : holdsBytes read.reader.initialBytes = true → read.call = .returned ∧
    read.results = [] ∧ taken = 1
  polling : read.call = .polls → read.reader.inflight = []

section Reading

variable {server : HyperResult} {taken : ℕ} {read : HyperRead}

theorem chunks_succ (count : ℕ) : server.chunks (count + 1) = server.chunks count ++
    if 0 < (server.body (request count)).length then [server.body (request count)] else [] := by
  unfold HyperResult.chunks
  rw [range_succ, map_append, filter_append, map_singleton, filter_singleton]
  congr 1
  by_cases hbytes : 0 < (server.body (request count)).length
  · simp [hbytes]
  · simp [hbytes]

theorem Window.queue_eq_nil {queue : List ChunkRequest} {reader : WebHyperResultReader}
    (h : Window server server.chunkCount queue reader) : queue = [] := by
  have hnone : reader.nextPrefetchIndex - server.chunkCount = 0 := by
    have hle := h.next_le
    omega
  rw [h.consecutive, hnone]
  rfl

theorem turn_awaits {head : ChunkRequest} {rest : List ChunkRequest}
    (h : read.reader.fillPrefetchWindow.inflight = head :: rest) :
    read.turn = { read with
      reader := { read.reader.fillPrefetchWindow with inflight := rest }
      call := .awaits head } := by
  simp only [HyperRead.turn, h]

theorem turn_ends (h : read.reader.fillPrefetchWindow.inflight = [])
    (hcompleted : read.reader.fillPrefetchWindow.status.isCompleted = true) :
    read.turn = { read with
      reader := read.reader.fillPrefetchWindow
      call := .returned
      results := read.results ++ [none] } := by
  simp only [HyperRead.turn, h, hcompleted, if_true]

theorem turn_polls (h : read.reader.fillPrefetchWindow.inflight = [])
    (hcompleted : read.reader.fillPrefetchWindow.status.isCompleted = false) :
    read.turn = { read with reader := read.reader.fillPrefetchWindow, call := .polls } := by
  simp only [HyperRead.turn, h, hcompleted, Bool.false_eq_true, if_false]

theorem pending_eq_nil (h : holdsBytes read.reader.initialBytes = false) : read.pending = [] := by
  unfold HyperRead.pending
  rw [h]
  rfl

theorem Reading.of_returned (hwindow : Window server taken read.outstanding read.reader)
    (hinitial : holdsBytes read.reader.initialBytes = false) {values : List Bytes} {ended : ℕ}
    (hresults : read.results = values.map some ++ List.replicate ended none)
    (hvalues : values = server.chunks taken)
    (hended : 0 < ended → taken = server.chunkCount ∧ read.reader.status.isCompleted = true ∧
      read.call = .returned) (hpolling : read.call = .polls → read.reader.inflight = []) :
    Reading server taken read := by
  refine ⟨hwindow, ⟨values, ended, hresults, ?_, hended⟩, fun hholds => ?_, hpolling⟩
  · rw [pending_eq_nil hinitial, append_nil]
    exact hvalues
  · rw [hinitial] at hholds
    cases hholds

theorem reading_turn (hwindow : Window server taken read.reader.inflight read.reader)
    (hinitial : holdsBytes read.reader.initialBytes = false) {values : List Bytes} {ended : ℕ}
    (hresults : read.results = values.map some ++ List.replicate ended none)
    (hvalues : values = server.chunks taken)
    (hended : 0 < ended → taken = server.chunkCount ∧ read.reader.status.isCompleted = true) :
    Reading server taken read.turn := by
  obtain ⟨hfilled, hstatus, hbytes, -, hempty⟩ := hwindow.fill
  have hholds : holdsBytes read.reader.fillPrefetchWindow.initialBytes = false := by
    rw [hbytes, hinitial]
  cases hinflight : read.reader.fillPrefetchWindow.inflight with
  | cons head rest =>
    have hnot : ¬ 0 < ended := by
      intro hpositive
      obtain ⟨rfl, -⟩ := hended hpositive
      rw [hfilled.queue_eq_nil] at hinflight
      cases hinflight
    rw [turn_awaits hinflight]
    rw [hinflight] at hfilled
    exact Reading.of_returned ⟨hfilled.consecutive, hfilled.taken_le, hfilled.next_le,
      hfilled.length_le, hfilled.positive, hfilled.shows, hfilled.schema⟩ hholds hresults hvalues
      (fun hpositive => absurd hpositive hnot) NextCall.noConfusion
  | nil =>
    cases hcompleted : read.reader.fillPrefetchWindow.status.isCompleted with
    | true =>
      have hall : taken = server.chunkCount := by
        have hcount := hfilled.shows.final hcompleted
        have hfetched := hempty hinflight
        have hnone := congrArg List.length hfilled.consecutive
        rw [hinflight, length_nil, length_map, length_range'] at hnone
        have hle := hfilled.next_le
        have htaken := hfilled.taken_le
        rw [hstatus] at hcount
        omega
      rw [turn_ends hinflight hcompleted]
      have hresults' : read.results ++ [none] =
          values.map some ++ List.replicate (ended + 1) none := by
        rw [hresults, append_assoc, replicate_succ']
      exact Reading.of_returned hfilled hholds hresults' hvalues
        (fun _ => ⟨hall, hcompleted, rfl⟩) NextCall.noConfusion
    | false =>
      rw [turn_polls hinflight hcompleted]
      refine Reading.of_returned hfilled hholds hresults hvalues (fun hpositive => ?_)
        fun _ => hinflight
      rw [hstatus, (hended hpositive).2] at hcompleted
      cases hcompleted

/-! ## One event -/

section

variable (h : Reading server taken read)

include h

/-- While a call of `next` waits, the end has not been returned. -/
theorem Reading.returned_of_call (hcall : read.call ≠ .returned) :
    holdsBytes read.reader.initialBytes = false ∧
      read.results = (server.chunks taken).map some ++ List.replicate 0 none := by
  have hholds : holdsBytes read.reader.initialBytes = false := by
    by_contra hholds
    exact hcall (h.initial (Bool.not_eq_false _ ▸ hholds)).1
  obtain ⟨values, ended, hresults, hvalues, hended⟩ := h.returned
  have hnot : ended = 0 := by
    by_contra hpositive
    exact hcall (hended (Nat.pos_of_ne_zero hpositive)).2.2
  rw [pending_eq_nil hholds, append_nil] at hvalues
  rw [hresults, hvalues, hnot]
  exact ⟨hholds, rfl⟩

theorem Reading.next (hcall : read.call = .returned) : Reading server taken read.next := by
  have hwindow : Window server taken read.reader.inflight read.reader := by
    have houtstanding : read.outstanding = read.reader.inflight := by
      unfold HyperRead.outstanding
      rw [hcall]
    exact houtstanding ▸ h.window
  have hwindow' : Window server taken read.reader.inflight { read.reader with initialBytes := none } :=
    ⟨hwindow.consecutive, hwindow.taken_le, hwindow.next_le, hwindow.length_le, hwindow.positive,
      hwindow.shows, hwindow.schema⟩
  obtain ⟨values, ended, hresults, hvalues, hended⟩ := h.returned
  unfold HyperRead.next
  cases hholds : holdsBytes read.reader.initialBytes with
  | true =>
    simp only [if_true]
    obtain ⟨-, hempty, rfl⟩ := h.initial hholds
    obtain ⟨hfilled, -, hbytes, -, -⟩ :=
      @Window.fill server 1 { read.reader with initialBytes := none } hwindow'
    rw [hempty] at hresults
    obtain ⟨hnone, hnever⟩ := append_eq_nil_iff.mp hresults.symm
    have hpending : read.pending = [read.reader.initialBytes.getD []] := by
      unfold HyperRead.pending
      rw [hholds]
      rfl
    rw [map_eq_nil_iff.mp hnone, hpending, nil_append] at hvalues
    have hresults' : read.results ++ [some (read.reader.initialBytes.getD [])] =
        [read.reader.initialBytes.getD []].map some ++ List.replicate 0 none := by
      rw [hempty]
      rfl
    refine Reading.of_returned ?_ ?_ hresults' hvalues (fun hnot => (Nat.lt_irrefl 0 hnot).elim)
      fun hpolls => ?_
    · unfold HyperRead.outstanding
      rw [hcall]
      exact hfilled
    · change holdsBytes (WebHyperResultReader.fillPrefetchWindow _).initialBytes = false
      rw [hbytes]
      rfl
    · change read.call = .polls at hpolls
      rw [hcall] at hpolls
      cases hpolls
  | false =>
    simp only [Bool.false_eq_true, if_false]
    rw [pending_eq_nil hholds, append_nil] at hvalues
    exact reading_turn hwindow' rfl hresults hvalues fun hpositive =>
      ⟨(hended hpositive).1, (hended hpositive).2.1⟩

/-- The chunk that `next` waits for is the next one to take. -/
theorem Reading.head {request' : ChunkRequest} (hcall : read.call = .awaits request') :
    request' = request taken ∧ Window server (taken + 1) read.reader.inflight read.reader := by
  have hwindow := h.window
  unfold HyperRead.outstanding at hwindow
  rw [hcall] at hwindow
  have hconsecutive := hwindow.consecutive
  have htaken := hwindow.taken_le
  obtain ⟨rest, hrest⟩ : ∃ rest, read.reader.nextPrefetchIndex - taken = rest + 1 := by
    refine Nat.exists_eq_succ_of_ne_zero fun hnone => ?_
    rw [hnone] at hconsecutive
    cases hconsecutive
  rw [hrest, range'_succ, map_cons] at hconsecutive
  obtain ⟨hhead, htail⟩ := List.cons.inj hconsecutive
  have hlength : read.reader.inflight.length + 1 ≤ read.reader.parallelChunks := hwindow.length_le
  refine ⟨hhead, ?_, by omega, hwindow.next_le, by omega, hwindow.positive, hwindow.shows,
    hwindow.schema⟩
  rw [htail]
  congr 2
  omega

theorem Reading.resume {request' : ChunkRequest} (hcall : read.call = .awaits request') :
    Reading server (taken + 1) (read.resume (server.body request')) := by
  obtain ⟨rfl, hwindow⟩ := h.head hcall
  obtain ⟨hholds, hresults⟩ := h.returned_of_call (by rw [hcall]; exact NextCall.noConfusion)
  obtain ⟨hfilled, -, hbytes, -, -⟩ := hwindow.fill
  have hinitial : holdsBytes read.reader.fillPrefetchWindow.initialBytes = false := by
    rw [hbytes, hholds]
  have hchunks := @chunks_succ server taken
  unfold HyperRead.resume
  by_cases hsome : 0 < (server.body (request taken)).length
  · rw [if_pos hsome] at hchunks ⊢
    have hresults' : read.results ++ [some (server.body (request taken))] =
        (server.chunks (taken + 1)).map some ++ List.replicate 0 none := by
      rw [hresults, hchunks, map_append]
      simp
    exact Reading.of_returned hfilled hinitial hresults' rfl
      (fun hnot => (Nat.lt_irrefl 0 hnot).elim) NextCall.noConfusion
  · rw [if_neg hsome] at hchunks ⊢
    rw [append_nil] at hchunks
    exact reading_turn hfilled hinitial hresults hchunks.symm
      fun hnot => (Nat.lt_irrefl 0 hnot).elim

end

theorem Window.setStatus {queue : List ChunkRequest} {reader : WebHyperResultReader}
    (h : Window server taken queue reader) {status : QueryStatus} (hshows : server.Shows status) :
    Window server taken queue { reader with status := status } :=
  ⟨h.consecutive, h.taken_le, h.next_le, h.length_le, h.positive, hshows, h.schema⟩

section

variable (h : Reading server taken read)

include h

theorem Reading.window_of_polls (hcall : read.call = .polls) :
    Window server taken read.reader.inflight read.reader := by
  have hwindow := h.window
  unfold HyperRead.outstanding at hwindow
  rw [hcall] at hwindow
  exact hwindow

theorem Reading.poll (hcall : read.call = .polls) {status : QueryStatus}
    (hshows : server.Shows status) : Reading server taken (read.setStatus status).turn := by
  obtain ⟨hholds, hresults⟩ := h.returned_of_call (by rw [hcall]; exact NextCall.noConfusion)
  exact reading_turn ((h.window_of_polls hcall).setStatus hshows) hholds hresults rfl
    fun hnot => (Nat.lt_irrefl 0 hnot).elim

/-- An answer changes the status only; there is none once the end was returned. -/
theorem Reading.answer {chunkId : ℕ}
    (hrequested : ∃ request ∈ read.outstanding, request.chunkId = chunkId)
    {status : Option QueryStatus} (hshows : ∀ found, status = some found → server.Shows found) :
    Reading server taken (((status.map read.setStatus).getD read).setStage chunkId .answered) := by
  obtain ⟨request', hrequest, -⟩ := hrequested
  obtain ⟨values, ended, hresults, hvalues, hended⟩ := h.returned
  have hnot : ¬ 0 < ended := by
    intro hpositive
    obtain ⟨rfl, -⟩ := hended hpositive
    rw [h.window.queue_eq_nil] at hrequest
    cases hrequest
  cases status with
  | none => exact ⟨h.window, ⟨values, ended, hresults, hvalues, hended⟩, h.initial, h.polling⟩
  | some found =>
    exact ⟨h.window.setStatus (hshows found rfl),
      ⟨values, ended, hresults, hvalues, fun hpositive => absurd hpositive hnot⟩, h.initial,
      h.polling⟩

/-- Every event keeps the invariant; the chunks taken only grow. -/
theorem Reading.step {event : HyperReadEvent} (hallowed : event.Allowed server read) :
    ∃ taken', Reading server taken' (event.act server read) := by
  cases event with
  | next => exact ⟨taken, h.next hallowed⟩
  | answer chunkId status => exact ⟨taken, h.answer hallowed.1 hallowed.2.2⟩
  | bytes chunkId => exact ⟨taken, h.window, h.returned, h.initial, h.polling⟩
  | resume =>
    obtain ⟨request', hcall, -⟩ := hallowed
    refine ⟨taken + 1, ?_⟩
    unfold HyperReadEvent.act
    dsimp only
    rw [hcall]
    exact h.resume hcall
  | poll status => exact ⟨taken, h.poll hallowed.1 hallowed.2⟩

/-! ## Polls -/

end

def HyperReadEvent.completes : HyperReadEvent → Bool
  | .poll status => status.isCompleted
  | _ => false

theorem parallelChunks_fill (reader : WebHyperResultReader) :
    reader.fillPrefetchWindow.parallelChunks = reader.parallelChunks := by
  have hplaces : ∀ (places : ℕ) (reader : WebHyperResultReader),
      (reader.fillPlaces places).parallelChunks = reader.parallelChunks := by
    intro places
    induction places with
    | zero => exact fun _ => rfl
    | succ places ih =>
      intro reader
      unfold WebHyperResultReader.fillPlaces
      by_cases hmore : reader.nextPrefetchIndex < reader.status.chunkCount.getD 0
      · rw [if_pos hmore]
        exact ih reader.prefetch
      · rw [if_neg hmore]
  exact hplaces _ reader

/-- A turn only fills the window; what was returned stays. -/
theorem turn_kept (read : HyperRead) :
    read.turn.reader.nextPrefetchIndex = read.reader.fillPrefetchWindow.nextPrefetchIndex ∧
      read.turn.reader.parallelChunks = read.reader.parallelChunks ∧
      read.results <+: read.turn.results := by
  have hsize := parallelChunks_fill read.reader
  cases hinflight : read.reader.fillPrefetchWindow.inflight with
  | cons head rest =>
    rw [turn_awaits hinflight]
    exact ⟨rfl, hsize, List.prefix_refl _⟩
  | nil =>
    cases hcompleted : read.reader.fillPrefetchWindow.status.isCompleted with
    | true =>
      rw [turn_ends hinflight hcompleted]
      exact ⟨rfl, hsize, List.prefix_append _ _⟩
    | false =>
      rw [turn_polls hinflight hcompleted]
      exact ⟨rfl, hsize, List.prefix_refl _⟩

/-- The size of the window and what was returned stay. -/
theorem act_kept (server : HyperResult) (event : HyperReadEvent) (read : HyperRead) :
    (event.act server read).reader.parallelChunks = read.reader.parallelChunks ∧
      read.results <+: (event.act server read).results := by
  cases event with
  | next =>
    change read.next.reader.parallelChunks = _ ∧ _ <+: read.next.results
    unfold HyperRead.next
    by_cases hholds : holdsBytes read.reader.initialBytes = true
    · rw [if_pos hholds]
      exact ⟨parallelChunks_fill { read.reader with initialBytes := none },
        List.prefix_append _ _⟩
    · rw [if_neg hholds]
      exact (turn_kept { read with reader := { read.reader with initialBytes := none } }).2
  | answer chunkId status => cases status <;> exact ⟨rfl, List.prefix_refl _⟩
  | bytes chunkId => exact ⟨rfl, List.prefix_refl _⟩
  | resume =>
    unfold HyperReadEvent.act
    dsimp only
    cases read.call with
    | awaits request' =>
      dsimp only
      unfold HyperRead.resume
      by_cases hsome : 0 < (server.body request').length
      · rw [if_pos hsome]
        exact ⟨parallelChunks_fill read.reader, List.prefix_append _ _⟩
      · rw [if_neg hsome]
        obtain ⟨-, hsize, hresults⟩ := turn_kept { read with reader := read.reader.fillPrefetchWindow }
        exact ⟨hsize.trans (parallelChunks_fill read.reader), hresults⟩
    | returned => exact ⟨rfl, List.prefix_refl _⟩
    | polls => exact ⟨rfl, List.prefix_refl _⟩
  | poll status => exact (turn_kept (read.setStatus status)).2

theorem next_le_turn (h : Window server taken read.reader.inflight read.reader) :
    read.reader.nextPrefetchIndex ≤ read.turn.reader.nextPrefetchIndex := by
  obtain ⟨-, -, -, hmore, -⟩ := h.fill
  rw [(turn_kept read).1]
  exact hmore

theorem Reading.poll_completes (h : Reading server taken read) (hcall : read.call = .polls)
    {status : QueryStatus} (hshows : server.Shows status) (hcompleted : status.isCompleted = true) :
    none ∈ (read.setStatus status).turn.results ∨
      read.reader.nextPrefetchIndex + 1 ≤
        (read.setStatus status).turn.reader.nextPrefetchIndex := by
  have hwindow := h.window_of_polls hcall
  have hbefore := congrArg List.length hwindow.consecutive
  rw [h.polling hcall, length_nil, length_map, length_range'] at hbefore
  obtain ⟨hfilled, hstatus, -, -, -⟩ := @Window.fill server taken { read.reader with status := status }
    (hwindow.setStatus hshows)
  cases hinflight : (read.setStatus status).reader.fillPrefetchWindow.inflight with
  | cons head rest =>
    right
    rw [turn_awaits hinflight]
    have hafter := congrArg List.length hfilled.consecutive
    have hlength : (head :: rest).length = _ := hinflight ▸ hafter
    rw [length_cons, length_map, length_range'] at hlength
    have htaken := hwindow.taken_le
    change _ ≤ (WebHyperResultReader.fillPrefetchWindow _).nextPrefetchIndex
    change rest.length + 1 = (read.setStatus status).reader.fillPrefetchWindow.nextPrefetchIndex -
      taken at hlength
    omega
  | nil =>
    left
    have hends : (read.setStatus status).reader.fillPrefetchWindow.status.isCompleted = true := by
      exact (congrArg QueryStatus.isCompleted hstatus).trans hcompleted
    rw [turn_ends hinflight hends]
    exact mem_append_right _ (mem_singleton.mpr rfl)

theorem Reading.next_le (h : Reading server taken read) {event : HyperReadEvent}
    (hallowed : event.Allowed server read) :
    none ∈ (event.act server read).results ∨
      read.reader.nextPrefetchIndex + [event].countP HyperReadEvent.completes ≤
        (event.act server read).reader.nextPrefetchIndex := by
  cases event with
  | next =>
    right
    have hwindow : Window server taken read.reader.inflight
        { read.reader with initialBytes := none } := by
      have hbefore := h.window
      unfold HyperRead.outstanding at hbefore
      rw [show read.call = .returned from hallowed] at hbefore
      exact ⟨hbefore.consecutive, hbefore.taken_le, hbefore.next_le, hbefore.length_le,
        hbefore.positive, hbefore.shows, hbefore.schema⟩
    change read.reader.nextPrefetchIndex ≤ read.next.reader.nextPrefetchIndex
    unfold HyperRead.next
    by_cases hholds : holdsBytes read.reader.initialBytes = true
    · rw [if_pos hholds]
      obtain ⟨-, -, -, hmore, -⟩ :=
        @Window.fill server taken { read.reader with initialBytes := none } hwindow
      exact hmore
    · rw [if_neg hholds]
      exact @next_le_turn server taken
        { read with reader := { read.reader with initialBytes := none } } hwindow
  | answer chunkId status =>
    right
    cases status <;> exact le_refl _
  | bytes chunkId => exact .inr (le_refl _)
  | resume =>
    right
    obtain ⟨request', hcall, -⟩ := hallowed
    obtain ⟨-, hwindow⟩ := h.head hcall
    obtain ⟨hfilled, -, -, hmore, -⟩ := hwindow.fill
    unfold HyperReadEvent.act
    dsimp only
    rw [hcall]
    change read.reader.nextPrefetchIndex ≤
      (read.resume (server.body request')).reader.nextPrefetchIndex
    unfold HyperRead.resume
    by_cases hsome : 0 < (server.body request').length
    · rw [if_pos hsome]
      exact hmore
    · rw [if_neg hsome]
      exact hmore.trans (@next_le_turn server (taken + 1)
        { read with reader := read.reader.fillPrefetchWindow } hfilled)
  | poll status =>
    obtain ⟨hcall, hshows⟩ := hallowed
    cases hcompleted : status.isCompleted with
    | true =>
      have hcount : [HyperReadEvent.poll status].countP HyperReadEvent.completes = 1 :=
        countP_singleton.trans (if_pos hcompleted)
      rw [hcount]
      exact h.poll_completes hcall hshows hcompleted
    | false =>
      right
      have hcount : [HyperReadEvent.poll status].countP HyperReadEvent.completes = 0 :=
        countP_singleton.trans (if_neg (Bool.eq_false_iff.mp hcompleted))
      rw [hcount]
      exact @next_le_turn server taken (read.setStatus status)
        ((h.window_of_polls hcall).setStatus hshows)

/-! ## Every run -/

/-- The results of a run contain those from before it. -/
theorem results_replay (server : HyperResult) (events : List HyperReadEvent) (read : HyperRead) :
    read.results <+: (replay (HyperReadEvent.act server) events read).results := by
  induction events generalizing read with
  | nil => exact List.prefix_refl _
  | cons event events ih => exact (act_kept server event read).2.trans (ih _)

/-- Along a run the invariant is kept, and the end is returned unless every completed poll has led
to another fetch. -/
theorem Reading.replay (h : Reading server taken read) {events : List HyperReadEvent}
    (hallowed : ReplayMeets (HyperReadEvent.act server) (HyperReadEvent.Allowed server) events read) :
    ∃ taken', Reading server taken' (replay (HyperReadEvent.act server) events read) ∧
      (none ∈ (DashQL.replay (HyperReadEvent.act server) events read).results ∨
        read.reader.nextPrefetchIndex + events.countP HyperReadEvent.completes ≤
          (DashQL.replay (HyperReadEvent.act server) events read).reader.nextPrefetchIndex) := by
  induction events generalizing read taken with
  | nil => exact ⟨taken, h, .inr (le_refl _)⟩
  | cons event events ih =>
    obtain ⟨taken', hstep⟩ := h.step hallowed.1
    obtain ⟨taken'', hafter, hpolls⟩ := ih hstep hallowed.2
    refine ⟨taken'', hafter, ?_⟩
    rcases h.next_le hallowed.1 with hended | hmore
    · exact .inl ((results_replay server events _).subset hended)
    · refine hpolls.imp id fun hlater => ?_
      have hcount : (event :: events).countP HyperReadEvent.completes =
          [event].countP HyperReadEvent.completes + events.countP HyperReadEvent.completes := by
        rw [← countP_append]
        rfl
      rw [hcount]
      change _ ≤ (DashQL.replay (HyperReadEvent.act server) events
        (event.act server read)).reader.nextPrefetchIndex
      omega

/-- Between two events something can happen: a call of `next`, an answer, or `next` going on. -/
theorem exists_allowed (server : HyperResult) (read : HyperRead) :
    ∃ event, HyperReadEvent.Allowed server event read := by
  cases hcall : read.call with
  | returned => exact ⟨.next, hcall⟩
  | polls =>
    refine ⟨.poll ⟨.runningOrUnspecified, none⟩, hcall, Nat.zero_le _, fun hnever => ?_⟩
    cases hnever
  | awaits request' =>
    cases hstage : read.stage request'.chunkId with
    | requested =>
      refine ⟨.answer request'.chunkId none, ⟨request', ?_, rfl⟩, hstage, fun _ hnever => ?_⟩
      · unfold HyperRead.outstanding
        rw [hcall]
        exact mem_cons_self
      · cases hnever
    | answered => exact ⟨.bytes request'.chunkId, hstage⟩
    | resolved => exact ⟨.resume, request', hcall, hstage⟩

end Reading

/-- A reader before the first call of `next`. -/
def HyperRead.start (initialStatus : QueryStatus) (initialBytes : Option Bytes)
    (parallelChunks : ℤ) : HyperRead where
  reader := .new initialStatus initialBytes parallelChunks
  call := .returned
  stage _ := .requested
  results := []

section Runs

variable {server : HyperResult} {initialStatus : QueryStatus} {initialBytes : Option Bytes}

theorem body_first_length (server : HyperResult) : 0 < (server.body ⟨0, false⟩).length :=
  length_pos_of_ne_nil fun hnil => server.schema_ne_nil (append_eq_nil_iff.mp hnil).1

theorem reading_start (hstatus : server.Shows initialStatus) (hstarts : server.Starts initialBytes)
    (parallelChunks : ℤ) :
    ∃ taken, Reading server taken (.start initialStatus initialBytes parallelChunks) := by
  have hpositive : 0 < (max 1 parallelChunks).toNat := by omega
  unfold HyperRead.start WebHyperResultReader.new
  cases hholds : holdsBytes initialBytes with
  | false =>
    refine ⟨0, ⟨rfl, le_refl 0, Nat.zero_le _, Nat.zero_le _, hpositive, hstatus, rfl⟩,
      ⟨[], 0, rfl, ?_, fun hnot => (Nat.lt_irrefl 0 hnot).elim⟩, fun hsome => ?_,
      NextCall.noConfusion⟩
    · rw [pending_eq_nil hholds]
      rfl
    · rw [show holdsBytes initialBytes = true from hsome] at hholds
      cases hholds
  | true =>
    obtain ⟨hcount, rfl⟩ := hstarts hholds
    refine ⟨1, ⟨rfl, le_refl 1, hcount, Nat.zero_le _, hpositive, hstatus, rfl⟩,
      ⟨[], 0, rfl, ?_, fun hnot => (Nat.lt_irrefl 0 hnot).elim⟩, fun _ => ⟨rfl, rfl, rfl⟩,
      NextCall.noConfusion⟩
    have hchunks := @chunks_succ server 0
    have hfirst : 0 < (server.body (request 0)).length := body_first_length server
    rw [if_pos hfirst] at hchunks
    rw [show server.chunks 1 = _ from hchunks]
    unfold HyperRead.pending
    rw [hholds]
    rfl

/-- The chunks up to a smaller number are a prefix of those up to a larger one. -/
theorem chunks_mono {count count' : ℕ} (h : count ≤ count') :
    server.chunks count <+: server.chunks count' := by
  induction count', h using Nat.le_induction with
  | base => exact List.prefix_refl _
  | succ count' _ ih =>
    rw [chunks_succ]
    exact ih.trans (List.prefix_append _ _)

theorem chunks_eq_cons (h : 0 < server.chunkCount) :
    server.chunks server.chunkCount = (server.schema ++ server.chunk 0) ::
      ((List.range' 1 (server.chunkCount - 1)).map server.chunk).filter fun bytes =>
        0 < bytes.length := by
  obtain ⟨count, hcount⟩ := Nat.exists_eq_succ_of_ne_zero (Nat.ne_of_gt h)
  have hrest : (List.range' 1 count).map (fun chunkId => server.body (request chunkId)) =
      (List.range' 1 count).map server.chunk := by
    refine map_congr_left fun chunkId hchunk => ?_
    have hpositive := (mem_range'_1.mp hchunk).1
    have homit : (request chunkId).omitSchema = true := decide_eq_true (by omega)
    unfold HyperResult.body
    rw [homit]
    rfl
  have hfirst : 0 < (server.body (request 0)).length := body_first_length server
  unfold HyperResult.chunks
  rw [hcount, range_eq_range', range'_succ, map_cons, filter_cons, hrest,
    if_pos (decide_eq_true hfirst)]
  rfl

def oneChunk : HyperResult where
  schema := [7]
  schema_ne_nil := by decide
  chunk _ := [1]
  chunkCount := 1

/-- The chunk response brings a status from before the query was completed. -/
def staleAnswer : List HyperReadEvent :=
  [.next, .poll ⟨.finished, some 1⟩, .answer 0 (some ⟨.runningOrUnspecified, none⟩), .bytes 0,
    .resume, .next, .poll ⟨.finished, some 1⟩]

end Runs

end DashQL.Connection
