import DashQL.Library.LengthPrefixed
import DashQL.Native.StreamManagers

/-!
# The bodies of stream responses

The handlers that read a stream answer with the messages of a batch, each with its length in front.
The gRPC client cuts a body with `DataView.getUint32` and views into the buffer, which both throw at
the end of the buffer.  The DuckDB client cuts it with `Uint8Array.slice`, which does not: a body
that ends within a chunk gives a chunk that is too short.
-/

namespace DashQL.Native

open List

/-! ## Writing -/

/-- `write_u32::<LittleEndian>` of a length, which wraps around. -/
def writeUint32 (value : ℕ) : Bytes :=
  [UInt8.ofNat value, UInt8.ofNat (value / 2 ^ 8), UInt8.ofNat (value / 2 ^ 16),
    UInt8.ofNat (value / 2 ^ 24)]

/-- The body of `read_grpc_server_stream`, and of the handler that reads a query stream. -/
def writeMessages (messages : List Bytes) : Bytes :=
  messages.flatMap fun message => writeUint32 message.length ++ message

/-! ## Buffers -/

inductive DecodeError where
  | rangeError
  | batchMessageCountMismatch
  deriving DecidableEq

/-- The number in four bytes. -/
def readUint32 (bytes : Bytes) : ℕ :=
  bytes.foldr (fun byte value => byte.toNat + 256 * value) 0

/-- `DataView.getUint32`, in little endian. -/
def getUint32 (buffer : Bytes) (offset : ℕ) : Except DecodeError ℕ :=
  if offset + 4 ≤ buffer.length then .ok (readUint32 ((buffer.drop offset).take 4))
  else .error .rangeError

/-- `new Uint8Array` of a part of a buffer. -/
def bufferView (buffer : Bytes) (offset length : ℕ) : Except DecodeError Bytes :=
  if offset + length ≤ buffer.length then .ok ((buffer.drop offset).take length)
  else .error .rangeError

/-- `Uint8Array.slice`, which ends at the end of the buffer. -/
def bufferSlice (buffer : Bytes) (start stop : ℕ) : Bytes :=
  (buffer.drop start).take (stop - start)

/-! ## Reading -/

/-- The loop in `NativeGrpcServerStream.read`. -/
def unpackMessages (body : Bytes) (offset : ℕ) : Except DecodeError (List Bytes) :=
  if offset < body.length then
    match getUint32 body offset with
    | .error error => .error error
    | .ok length =>
      match bufferView body (offset + 4) length with
      | .error error => .error error
      | .ok message =>
        (unpackMessages body (offset + 4 + length)).map fun messages => message :: messages
  else .ok []
termination_by body.length - offset

def decodeChunks (buffer : Bytes) (offset : ℕ) : Except DecodeError (List Bytes) :=
  if offset < buffer.length then
    match getUint32 buffer offset with
    | .error error => .error error
    | .ok length =>
      (decodeChunks buffer (offset + 4 + length)).map fun chunks =>
        bufferSlice buffer (offset + 4) (offset + 4 + length) :: chunks
  else .ok []
termination_by buffer.length - offset

def decodeLengthPrefixedChunks (buffer : Bytes) : Except DecodeError (List Bytes) :=
  decodeChunks buffer 0

/-! ## Lengths -/

theorem readUint32_writeUint32 {value : ℕ} (h : value < 2 ^ 32) :
    readUint32 (writeUint32 value) = value := by
  simp only [readUint32, writeUint32, foldr_cons, foldr_nil, UInt8.toNat_ofNat']
  omega

theorem readUint32_lt {bytes : Bytes} (h : bytes.length = 4) : readUint32 bytes < 2 ^ 32 := by
  obtain ⟨a, b, c, d, rfl⟩ := length_eq_four.mp h
  have ha := a.toNat_lt
  have hb := b.toNat_lt
  have hc := c.toNat_lt
  have hd := d.toNat_lt
  simp only [readUint32, foldr_cons, foldr_nil]
  omega

theorem writeUint32_readUint32 {bytes : Bytes} (h : bytes.length = 4) :
    writeUint32 (readUint32 bytes) = bytes := by
  obtain ⟨a, b, c, d, rfl⟩ := length_eq_four.mp h
  have ha := a.toNat_lt
  have hb := b.toNat_lt
  have hc := c.toNat_lt
  have hd := d.toNat_lt
  have hbyte : ∀ (byte : UInt8) (value : ℕ), value % 256 = byte.toNat → UInt8.ofNat value = byte := by
    intro byte value hvalue
    apply UInt8.toNat_inj.mp
    rw [UInt8.toNat_ofNat']
    exact hvalue
  simp only [readUint32, writeUint32, foldr_cons, foldr_nil]
  rw [hbyte a _ (by omega), hbyte b _ (by omega), hbyte c _ (by omega), hbyte d _ (by omega)]

/-- Lengths in four bytes. -/
def uint32Codec : LengthCodec UInt8 where
  width := 4
  bound := 2 ^ 32
  encode := writeUint32
  decode := readUint32
  width_pos := by decide
  length_encode _ := rfl
  decode_encode _ h := readUint32_writeUint32 h
  encode_decode _ h := writeUint32_readUint32 h
  decode_lt _ h := readUint32_lt h

/-! ## Both loops are parsers -/

variable {body : Bytes} {offset length : ℕ} {error : DecodeError}

/-- What a parser says, as an exception. -/
def orRangeError {α : Type*} : Option α → Except DecodeError α
  | none => .error .rangeError
  | some value => .ok value

theorem orRangeError_map {α β : Type*} (found : Option α) (change : α → β) :
    orRangeError (found.map change) = (orRangeError found).map change := by
  cases found with
  | none => rfl
  | some value => rfl

/-- A length is read from four bytes, or there are less. -/
theorem getUint32_cases (hlt : offset < body.length) :
    (getUint32 body offset = .error .rangeError ∧
        ∀ clamped, uint32Codec.parse clamped (body.drop offset) = none) ∨
      ∃ length < 2 ^ 32, getUint32 body offset = .ok length ∧
        body.drop offset = writeUint32 length ++ body.drop (offset + 4) ∧
          offset + 4 ≤ body.length := by
  by_cases hle : offset + 4 ≤ body.length
  · have htake : ((body.drop offset).take 4).length = 4 := by
      rw [length_take, length_drop]
      omega
    refine .inr ⟨_, readUint32_lt htake, if_pos hle, ?_, hle⟩
    rw [writeUint32_readUint32 htake, ← drop_drop, take_append_drop]
  · refine .inl ⟨if_neg hle, fun clamped => LengthCodec.parse_of_short ?_ ?_⟩
    · exact ne_nil_of_length_pos (by rw [length_drop]; omega)
    · change (body.drop offset).length < 4
      rw [length_drop]
      omega

theorem drop_eq_nil (h : ¬ offset < body.length) : body.drop offset = [] :=
  drop_of_length_le (Nat.le_of_not_lt h)

/-- The gRPC client parses strictly. -/
theorem unpackMessages_eq (body : Bytes) (offset : ℕ) :
    unpackMessages body offset = orRangeError (uint32Codec.parse false (body.drop offset)) := by
  induction hrest : body.length - offset using Nat.strongRecOn generalizing offset with
  | ind remaining ih =>
    by_cases hlt : offset < body.length
    · rw [unpackMessages, if_pos hlt]
      rcases getUint32_cases hlt with ⟨hget, hnone⟩ | ⟨length, hlength, hget, hdrop, hle⟩
      · rw [hget, hnone false]
        rfl
      · have hparse := @LengthCodec.parse_encode _ uint32Codec false (body.drop (offset + 4))
          length hlength
        have hview : (body.drop (offset + 4)).length < length ↔
            ¬ offset + 4 + length ≤ body.length := by
          rw [length_drop]
          omega
        change uint32Codec.parse false (writeUint32 length ++ _) = _ at hparse
        rw [hget, hdrop, hparse]
        by_cases hlong : offset + 4 + length ≤ body.length
        · have hok : bufferView body (offset + 4) length =
              .ok ((body.drop (offset + 4)).take length) := if_pos hlong
          rw [if_neg (fun hcut => hview.mp hcut.1 hlong), drop_drop, orRangeError_map,
            ← ih _ (by omega) _ rfl]
          simp only [hok]
        · have herror : bufferView body (offset + 4) length = .error .rangeError := if_neg hlong
          rw [if_pos ⟨hview.mpr hlong, rfl⟩]
          simp only [herror]
          rfl
    · rw [unpackMessages, if_neg hlt, drop_eq_nil hlt, LengthCodec.parse_nil]
      rfl

/-- The DuckDB client takes a last chunk that is too short. -/
theorem decodeChunks_eq (body : Bytes) (offset : ℕ) :
    decodeChunks body offset = orRangeError (uint32Codec.parse true (body.drop offset)) := by
  induction hrest : body.length - offset using Nat.strongRecOn generalizing offset with
  | ind remaining ih =>
    by_cases hlt : offset < body.length
    · rw [decodeChunks, if_pos hlt]
      rcases getUint32_cases hlt with ⟨hget, hnone⟩ | ⟨length, hlength, hget, hdrop, hle⟩
      · rw [hget, hnone true]
        rfl
      · have hparse := @LengthCodec.parse_encode _ uint32Codec true (body.drop (offset + 4))
          length hlength
        have hslice : bufferSlice body (offset + 4) (offset + 4 + length) =
            (body.drop (offset + 4)).take length := by
          rw [bufferSlice, Nat.add_sub_cancel_left]
        change uint32Codec.parse true (writeUint32 length ++ _) = _ at hparse
        rw [hget, hdrop, hparse, if_neg (fun hcut => absurd hcut.2 (by decide)), drop_drop,
          orRangeError_map, ← ih _ (by omega) _ rfl]
        simp only [hslice]
    · rw [decodeChunks, if_neg hlt, drop_eq_nil hlt, LengthCodec.parse_nil]
      rfl

/-! ## Batches -/

/-- The response to a read of a gRPC stream; other headers are metadata. -/
structure StreamResponse where
  batchEvent : StreamBatchEvent
  batchMessages : ℤ
  body : Bytes
  metadata : List (String × String)

structure NativeStreamBatch where
  event : StreamBatchEvent
  messages : List Bytes
  metadata : List (String × String)
  deriving DecidableEq

def readGrpcServerStream (event : StreamBatchEvent) (messages : List Bytes)
    (metadata : List (String × String)) : StreamResponse where
  batchEvent := event
  batchMessages := messages.length
  body := writeMessages messages
  metadata := metadata

def NativeStreamBatch.read (response : StreamResponse) : Except DecodeError NativeStreamBatch :=
  match unpackMessages response.body 0 with
  | .error error => .error error
  | .ok messages =>
    if response.batchMessages = messages.length then
      .ok { event := response.batchEvent, messages, metadata := response.metadata }
    else .error .batchMessageCountMismatch

/-- All lengths fit into four bytes. -/
def Encodable (messages : List Bytes) : Prop := ∀ message ∈ messages, message.length < 2 ^ 32

def EndsWithinMessage (body : Bytes) : Prop :=
  ∃ messages length part, Encodable messages ∧ length < 2 ^ 32 ∧ part.length < length ∧
    body = writeMessages messages ++ (writeUint32 length ++ part)

theorem read_readGrpcServerStream (event : StreamBatchEvent) {messages : List Bytes}
    (h : Encodable messages) (metadata : List (String × String)) :
    NativeStreamBatch.read (readGrpcServerStream event messages metadata) =
      .ok { event, messages, metadata } := by
  have hparse := @LengthCodec.parse_frames _ uint32Codec false messages h
  have hunpack : unpackMessages (readGrpcServerStream event messages metadata).body 0 =
      .ok messages := by
    rw [unpackMessages_eq, drop_zero]
    exact congrArg orRangeError hparse
  unfold NativeStreamBatch.read
  rw [hunpack]
  exact if_pos rfl

theorem decodeLengthPrefixedChunks_writeMessages {messages : List Bytes} (h : Encodable messages) :
    decodeLengthPrefixedChunks (writeMessages messages) = .ok messages := by
  rw [decodeLengthPrefixedChunks, decodeChunks_eq, drop_zero]
  exact congrArg orRangeError (@LengthCodec.parse_frames _ uint32Codec true messages h)

/-- What was not written is rejected by the gRPC client. -/
theorem read_of_not_written {response : StreamResponse}
    (h : ¬ ∃ messages, Encodable messages ∧ writeMessages messages = response.body) :
    NativeStreamBatch.read response = .error .rangeError := by
  have hparse := (@LengthCodec.parse_eq_none_iff _ uint32Codec response.body).mpr h
  unfold NativeStreamBatch.read
  rw [unpackMessages_eq, drop_zero, hparse]
  rfl

/-- What was not written is rejected by the DuckDB client unless it ends within a message. -/
theorem decodeLengthPrefixedChunks_error_iff
    (h : ¬ ∃ messages, Encodable messages ∧ writeMessages messages = body) :
    (∃ error, decodeLengthPrefixedChunks body = .error error) ↔ ¬ EndsWithinMessage body := by
  have hparse := (@LengthCodec.parse_eq_none_iff _ uint32Codec body).mpr h
  rw [decodeLengthPrefixedChunks, decodeChunks_eq, drop_zero]
  constructor
  · rintro ⟨error, herror⟩ hcut
    obtain ⟨chunks, hchunks, -⟩ := @LengthCodec.parse_clamped_of_cut _ uint32Codec body hcut
    rw [hchunks] at herror
    cases herror
  · intro hcut
    rw [@LengthCodec.parse_clamped_of_not_cut _ uint32Codec body hcut, hparse]
    exact ⟨_, rfl⟩

end DashQL.Native
