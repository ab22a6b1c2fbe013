import DashQL.Native.StreamEncoding
import DashQL.Library.InsertionMap

/-!
# The messages of a stream, one by one

A stream is read in batches until one of them marks the end.  The iterator gives out the messages of
a batch before it reads the next one, and skips batches without messages (`results_eq`).  With what
is known about the bodies, `framing_right_iff` says which of them are treated rightly.
-/

namespace DashQL.Native

open List

/-! ## Batches -/

inductive StreamError where
  | decode (error : DecodeError)
  | streamFailed (metadata : List (String × String))
  /-- The result of a call is undefined and is read. -/
  | typeError
  deriving DecidableEq

/-- `NativeGrpcServerStream`, with the responses to the reads that are still to come. -/
structure NativeServerStream where
  responses : List StreamResponse
  reachedEndOfStream : Bool

inductive NextBatch where
  | batch (batch : NativeStreamBatch)
  | done
  | throws (error : StreamError)
  /-- An event that no case is for. -/
  | undefined
  /-- There is no response yet. -/
  | waits
  deriving DecidableEq

def NativeServerStream.next (stream : NativeServerStream) : NextBatch × NativeServerStream :=
  if stream.reachedEndOfStream then (.done, stream)
  else
    match stream.responses with
    | [] => (.waits, stream)
    | response :: responses =>
      match NativeStreamBatch.read response with
      | .error error => (.throws (.decode error), { stream with responses })
      | .ok batch =>
        match batch.event with
        | .flushAfterBytes => (.batch batch, { stream with responses })
        | .flushAfterTimeout => (.batch batch, { stream with responses })
        | .streamFinished => (.batch batch, ⟨responses, true⟩)
        | .flushAfterClose => (.batch batch, ⟨responses, true⟩)
        | .streamFailed => (.throws (.streamFailed batch.metadata), ⟨responses, true⟩)
        | .readIdle => (.undefined, { stream with responses })

/-- A batch takes a response. -/
theorem NativeServerStream.length_responses_next {stream stream' : NativeServerStream}
    {batch : NativeStreamBatch} (h : stream.next = (.batch batch, stream')) :
    stream'.responses.length < stream.responses.length := by
  unfold next at h
  split at h
  · cases h
  · split at h
    · cases h
    next response responses hresponses =>
      rw [hresponses]
      split at h
      · cases h
      · split at h <;> cases h <;> exact Nat.lt_succ_self _

/-! ## Messages -/

structure MessageIterator where
  stream : NativeServerStream
  currentBatch : Option NativeStreamBatch
  nextInCurrentBatch : ℕ
  metadata : InsertionMap String String

namespace MessageIterator

inductive NextMessage where
  | message (message : Bytes)
  | done
  | throws (error : StreamError)
  | waits
  deriving DecidableEq

/-- The iterator of a stream whose reads get these responses. -/
def initial (responses : List StreamResponse) : MessageIterator where
  stream := ⟨responses, false⟩
  currentBatch := none
  nextInCurrentBatch := 0
  metadata := .empty

def buffered (iterator : MessageIterator) : Option Bytes :=
  iterator.currentBatch.bind fun batch => batch.messages[iterator.nextInCurrentBatch]?

def next (iterator : MessageIterator) : NextMessage × MessageIterator :=
  match iterator.buffered with
  | some message =>
    (.message message, { iterator with nextInCurrentBatch := iterator.nextInCurrentBatch + 1 })
  | none =>
    match _hnext : iterator.stream.next with
    | (.done, stream) =>
      (.done, { iterator with stream, currentBatch := none, nextInCurrentBatch := 0 })
    | (.throws error, stream) =>
      (.throws error, { iterator with stream, currentBatch := none, nextInCurrentBatch := 0 })
    | (.undefined, stream) =>
      (.throws .typeError, { iterator with stream, currentBatch := none, nextInCurrentBatch := 0 })
    | (.waits, stream) =>
      (.waits, { iterator with stream, currentBatch := none, nextInCurrentBatch := 0 })
    | (.batch batch, stream) =>
      next {
        stream
        currentBatch := some batch
        nextInCurrentBatch := 0
        metadata := batch.metadata.foldl (fun metadata entry => metadata.set entry.1 entry.2)
          iterator.metadata }
termination_by iterator.stream.responses.length
decreasing_by exact NativeServerStream.length_responses_next _hnext

/-- The results of a number of calls, one after the other. -/
def results : ℕ → MessageIterator → List NextMessage
  | 0, _ => []
  | calls + 1, iterator => iterator.next.1 :: results calls iterator.next.2

/-! ## What a stream delivers -/

def IsEnd (event : StreamBatchEvent) : Prop :=
  event = .streamFinished ∨ event = .flushAfterClose

/-- A batch after which others come. -/
def IsFlush (event : StreamBatchEvent) : Prop :=
  event = .flushAfterBytes ∨ event = .flushAfterTimeout

/-- The messages that a stream delivers until it is done. -/
inductive Delivers : NativeServerStream → List Bytes → Prop where
  | ended (responses : List StreamResponse) : Delivers ⟨responses, true⟩ []
  | last {event : StreamBatchEvent} {messages : List Bytes} {metadata : List (String × String)}
      {responses : List StreamResponse} (hevent : IsEnd event) (hmessages : Encodable messages) :
      Delivers ⟨readGrpcServerStream event messages metadata :: responses, false⟩ messages
  | more {event : StreamBatchEvent} {messages : List Bytes} {metadata : List (String × String)}
      {responses : List StreamResponse} {rest : List Bytes} (hevent : IsFlush event)
      (hmessages : Encodable messages) (hrest : Delivers ⟨responses, false⟩ rest) :
      Delivers ⟨readGrpcServerStream event messages metadata :: responses, false⟩ (messages ++ rest)

/-- The messages that the iterator has still in its batch. -/
def inBatch (iterator : MessageIterator) : List Bytes :=
  match iterator.currentBatch with
  | none => []
  | some batch => batch.messages.drop iterator.nextInCurrentBatch

/-- The messages that an iterator gives out until it is done. -/
def Yields (iterator : MessageIterator) (messages : List Bytes) : Prop :=
  ∃ rest, Delivers iterator.stream rest ∧ messages = iterator.inBatch ++ rest

variable {messages : List Bytes}

theorem Delivers.next {stream : NativeServerStream} (h : Delivers stream messages) :
    (messages = [] ∧ stream.next = (.done, stream)) ∨
      ∃ batch stream' rest, stream.next = (.batch batch, stream') ∧ Delivers stream' rest ∧
        messages = batch.messages ++ rest := by
  cases h with
  | ended responses => exact .inl ⟨rfl, rfl⟩
  | @last event _ metadata responses hevent hmessages =>
    have hread := read_readGrpcServerStream event hmessages metadata
    refine .inr ⟨⟨event, messages, metadata⟩, ⟨responses, true⟩, [], ?_, .ended responses,
      (append_nil _).symm⟩
    rcases hevent with rfl | rfl <;> simp [NativeServerStream.next, hread]
  | @more event messages metadata responses rest hevent hmessages hrest =>
    have hread := read_readGrpcServerStream event hmessages metadata
    refine .inr ⟨⟨event, messages, metadata⟩, ⟨responses, false⟩, rest, ?_, hrest, rfl⟩
    rcases hevent with rfl | rfl <;> simp [NativeServerStream.next, hread]

variable {iterator : MessageIterator}

theorem next_of_buffered {message : Bytes} (h : iterator.buffered = some message) :
    iterator.next = (.message message,
      { iterator with nextInCurrentBatch := iterator.nextInCurrentBatch + 1 }) := by
  rw [next]
  simp only [h]

/-- A new batch is in the place of the one that is used up. -/
def receive (batch : NativeStreamBatch) (stream : NativeServerStream) (iterator : MessageIterator) :
    MessageIterator where
  stream := stream
  currentBatch := some batch
  nextInCurrentBatch := 0
  metadata := batch.metadata.foldl (fun metadata entry => metadata.set entry.1 entry.2)
    iterator.metadata

theorem next_of_batch {batch : NativeStreamBatch} {stream : NativeServerStream}
    (hbuffered : iterator.buffered = none) (hnext : iterator.stream.next = (.batch batch, stream)) :
    iterator.next = (iterator.receive batch stream).next := by
  rw [next]
  simp only [hbuffered]
  split <;> simp_all [receive]

theorem next_of_done {stream : NativeServerStream} (hbuffered : iterator.buffered = none)
    (hnext : iterator.stream.next = (.done, stream)) :
    iterator.next =
      (.done, { iterator with stream, currentBatch := none, nextInCurrentBatch := 0 }) := by
  rw [next]
  simp only [hbuffered]
  split <;> simp_all

theorem inBatch_of_buffered {message : Bytes} (h : iterator.buffered = some message) :
    iterator.inBatch =
      message :: { iterator with nextInCurrentBatch := iterator.nextInCurrentBatch + 1 }.inBatch := by
  obtain ⟨batch, hbatch, hmessage⟩ := Option.bind_eq_some_iff.mp h
  obtain ⟨hlt, rfl⟩ := List.getElem?_eq_some_iff.mp hmessage
  simp only [inBatch, hbatch]
  exact drop_eq_getElem_cons hlt

theorem inBatch_of_not_buffered (h : iterator.buffered = none) : iterator.inBatch = [] := by
  cases hbatch : iterator.currentBatch with
  | none => simp only [inBatch, hbatch]
  | some batch =>
    rw [buffered, hbatch] at h
    simp only [inBatch, hbatch]
    exact drop_of_length_le (List.getElem?_eq_none_iff.mp h)

/-- A call gives out the next message, or ends when there is none. -/
theorem next_of_yields (h : iterator.Yields messages) :
    (messages = [] ∧ iterator.next.1 = .done ∧ iterator.next.2.Yields []) ∨
      ∃ message rest, messages = message :: rest ∧ iterator.next.1 = .message message ∧
        iterator.next.2.Yields rest := by
  -- Batches are read until one has a message.
  induction hlength : iterator.stream.responses.length using Nat.strongRecOn
    generalizing iterator messages with
  | ind length ih =>
    obtain ⟨rest, hdelivers, rfl⟩ := h
    cases hbuffered : iterator.buffered with
    | some message =>
      rw [inBatch_of_buffered hbuffered, next_of_buffered hbuffered]
      exact .inr ⟨message, _, rfl, rfl, rest, hdelivers, rfl⟩
    | none =>
      rw [inBatch_of_not_buffered hbuffered, nil_append]
      rcases hdelivers.next with ⟨rfl, hnext⟩ | ⟨batch, stream', rest', hnext, hrest', rfl⟩
      · refine .inl ⟨rfl, ?_, ?_⟩
        · rw [next_of_done hbuffered hnext]
        · rw [next_of_done hbuffered hnext]
          exact ⟨[], hdelivers, rfl⟩
      · rw [next_of_batch hbuffered hnext]
        have hlt := NativeServerStream.length_responses_next hnext
        exact ih _ (hlength ▸ hlt) ⟨rest', hrest', rfl⟩ rfl

theorem results_of_yields (h : iterator.Yields messages) (extra : ℕ) :
    iterator.results (messages.length + extra) =
      messages.map NextMessage.message ++ List.replicate extra .done := by
  induction hcalls : messages.length + extra generalizing iterator messages extra with
  | zero =>
    obtain ⟨hmessages, rfl⟩ := Nat.add_eq_zero_iff.mp hcalls
    rw [length_eq_zero_iff.mp hmessages]
    rfl
  | succ calls ih =>
    rcases next_of_yields h with ⟨rfl, hdone, hrest⟩ | ⟨message, rest, rfl, hmessage, hrest⟩
    · rw [length_nil, Nat.zero_add] at hcalls
      subst hcalls
      rw [results, hdone, ih hrest calls (Nat.zero_add _)]
      rfl
    · rw [length_cons, Nat.add_right_comm] at hcalls
      rw [results, hmessage, ih hrest extra (Nat.succ.inj hcalls)]
      rfl

end MessageIterator

/-! ## Splitting messages into batches -/

structure SentBatch where
  event : StreamBatchEvent
  messages : List Bytes
  metadata : List (String × String)

def SentBatch.response (batch : SentBatch) : StreamResponse :=
  readGrpcServerStream batch.event batch.messages batch.metadata

/-- Batches of which only the last one marks the end, with messages that can be encoded. -/
def SplitRightly (front : List SentBatch) (last : SentBatch) : Prop :=
  (∀ batch ∈ front, MessageIterator.IsFlush batch.event ∧ Encodable batch.messages) ∧
    MessageIterator.IsEnd last.event ∧ Encodable last.messages

theorem delivers_of_split {front : List SentBatch} {last : SentBatch} (h : SplitRightly front last)
    (rest : List StreamResponse) :
    MessageIterator.Delivers ⟨front.map SentBatch.response ++ last.response :: rest, false⟩
      (front.flatMap SentBatch.messages ++ last.messages) := by
  obtain ⟨hfront, hevent, hmessages⟩ := h
  induction front with
  | nil => exact .last hevent hmessages
  | cons batch front ih =>
    obtain ⟨hbatch, hfront⟩ := forall_mem_cons.mp hfront
    rw [flatMap_cons, append_assoc]
    exact .more hbatch.1 hbatch.2 (ih hfront)

theorem results_eq {front : List SentBatch} {last : SentBatch} (h : SplitRightly front last)
    (rest : List StreamResponse) (extra : ℕ) :
    (MessageIterator.initial (front.map SentBatch.response ++ last.response :: rest)).results
        ((front.flatMap SentBatch.messages ++ last.messages).length + extra) =
      (front.flatMap SentBatch.messages ++ last.messages).map .message ++
        List.replicate extra .done := by
  have hyields : (MessageIterator.initial
      (front.map SentBatch.response ++ last.response :: rest)).Yields
        (front.flatMap SentBatch.messages ++ last.messages) :=
    ⟨_, delivers_of_split h rest, rfl⟩
  exact MessageIterator.results_of_yields hyields extra

/-- Both clients give back the messages of a body, and reject a body that has none. -/
structure DecodedRightly (body : Bytes) : Prop where
  grpc : ∀ messages, Encodable messages → writeMessages messages = body →
    ∀ event metadata, NativeStreamBatch.read (readGrpcServerStream event messages metadata) =
      .ok { event, messages, metadata }
  duckdb : ∀ messages, Encodable messages → writeMessages messages = body →
    decodeLengthPrefixedChunks body = .ok messages
  grpcRejects : (¬ ∃ messages, Encodable messages ∧ writeMessages messages = body) →
    ∀ event count metadata, ∃ error, NativeStreamBatch.read ⟨event, count, body, metadata⟩ =
      .error error
  duckdbRejects : (¬ ∃ messages, Encodable messages ∧ writeMessages messages = body) →
    ∃ error, decodeLengthPrefixedChunks body = .error error

/-- A body is decoded rightly exactly if it does not end within a message; the iterator is right for
all batches. -/
theorem framing_right_iff (body : Bytes) :
    (DecodedRightly body ∧ ∀ front last, SplitRightly front last → ∀ rest extra,
      (MessageIterator.initial (front.map SentBatch.response ++ last.response :: rest)).results
          ((front.flatMap SentBatch.messages ++ last.messages).length + extra) =
        (front.flatMap SentBatch.messages ++ last.messages).map .message ++
          List.replicate extra .done) ↔
      ¬ EndsWithinMessage body := by
  constructor
  · rintro ⟨hright, -⟩ hcut
    have hwritten : ¬ ∃ messages, Encodable messages ∧ writeMessages messages = body := by
      obtain ⟨chunks, -, hnone⟩ := @LengthCodec.parse_clamped_of_cut _ uint32Codec body hcut
      exact LengthCodec.parse_eq_none_iff.mp hnone
    exact (decodeLengthPrefixedChunks_error_iff hwritten).mp (hright.duckdbRejects hwritten) hcut
  · intro hcut
    refine ⟨⟨?_, ?_, ?_, ?_⟩, fun front last h => results_eq h⟩
    · intro messages hmessages _ event metadata
      exact read_readGrpcServerStream event hmessages metadata
    · rintro messages hmessages rfl
      exact decodeLengthPrefixedChunks_writeMessages hmessages
    · intro hwritten event count metadata
      exact ⟨_, read_of_not_written hwritten⟩
    · intro hwritten
      exact (decodeLengthPrefixedChunks_error_iff hwritten).mpr hcut

/-- A body that ends within its only message gives a message that is too short. -/
theorem truncated_chunk_accepted :
    (¬ ∃ messages, Encodable messages ∧ writeMessages messages = [5, 0, 0, 0, 1]) ∧
      decodeLengthPrefixedChunks [5, 0, 0, 0, 1] = .ok [[1]] := by
  have hcut : uint32Codec.CutInChunk [5, 0, 0, 0, 1] := by
    refine ⟨[], 5, [1], fun message hmessage => absurd hmessage not_mem_nil, ?_, ?_, rfl⟩
    · change 5 < 2 ^ 32
      decide
    · decide
  obtain ⟨chunks, hchunks, hnone⟩ := LengthCodec.parse_clamped_of_cut hcut
  refine ⟨LengthCodec.parse_eq_none_iff.mp hnone, ?_⟩
  have hgiven := @LengthCodec.parse_encode _ uint32Codec true [1] 5 (by change 5 < 2 ^ 32; decide)
  rw [decodeLengthPrefixedChunks, decodeChunks_eq, drop_zero]
  change orRangeError (uint32Codec.parse true (uint32Codec.encode 5 ++ [1])) = _
  rw [hgiven, if_neg (by simp), drop_of_length_le (by decide), LengthCodec.parse_nil]
  rfl

end DashQL.Native
