import Mathlib

/-!
# The chunk buffer

Values in chunks that grow, with the offset of every chunk.  A chunk is a `std::vector`:
its values, and for how many there is room.  A read outside of a vector is `none`.

A vector that has no room grows by the policy of the library (`VectorGrowth`).
-/

namespace DashQL.Utils

variable {α : Type*}

/-- The capacity that a vector gets when it is full. -/
structure VectorGrowth where
  next : ℕ → ℕ
  lt_next : ∀ capacity, capacity < next capacity

/-- A vector. -/
structure Chunk (α : Type*) where
  values : List α
  capacity : ℕ
  fits : values.length ≤ capacity

namespace Chunk

/-- A vector without values, after a `reserve`. -/
def reserved (capacity : ℕ) : Chunk α := ⟨[], capacity, Nat.zero_le _⟩

def size (chunk : Chunk α) : ℕ := chunk.values.length

/-- `push_back` and `emplace_back`. -/
def push (growth : VectorGrowth) (value : α) (chunk : Chunk α) : Chunk α where
  values := chunk.values ++ [value]
  capacity := if chunk.size = chunk.capacity then growth.next chunk.capacity else chunk.capacity
  fits := by
    have hfits := chunk.fits
    have hgrown := growth.lt_next chunk.capacity
    rw [List.length_append, List.length_singleton]
    unfold size
    split <;> omega

/-- `emplace_back`, so many times. -/
def pushN (growth : VectorGrowth) (value : α) : ℕ → Chunk α → Chunk α
  | 0, chunk => chunk
  | n + 1, chunk => pushN growth value n (chunk.push growth value)

def clear (chunk : Chunk α) : Chunk α := ⟨[], chunk.capacity, Nat.zero_le _⟩

end Chunk

structure ChunkBufferEntryID where
  chunkId : ℕ
  chunkEntryId : ℕ
  deriving DecidableEq

structure ChunkBuffer (α : Type*) where
  front : List (Chunk α)
  back : Chunk α
  offsets : List ℕ
  nextChunkSize : ℕ
  totalValueCount : ℕ

namespace ChunkBuffer

/-- `GetChunks`. -/
def buffers (b : ChunkBuffer α) : List (Chunk α) := b.front ++ [b.back]

/-! ## Construction and changes -/

def empty (initialSize : ℕ) : ChunkBuffer α where
  front := []
  back := .reserved initialSize
  offsets := [0]
  nextChunkSize := max 0 (initialSize * 5 / 4)
  totalValueCount := 0

/-- The buffer that takes over a vector. -/
def ofVector (initialSize : ℕ) (buffer : Chunk α) : ChunkBuffer α :=
  let b : ChunkBuffer α := empty initialSize
  { b with
    front := b.buffers
    back := buffer
    offsets := b.offsets ++ [buffer.size]
    totalValueCount := buffer.size }

def grow (minNextSize : ℕ) (b : ChunkBuffer α) : ChunkBuffer α :=
  { b with
    front := b.buffers
    back := .reserved b.nextChunkSize
    offsets := b.offsets ++ [b.totalValueCount]
    nextChunkSize := max minNextSize (b.nextChunkSize * 5 / 4) }

def pushBack (growth : VectorGrowth) (value : α) (b : ChunkBuffer α) : ChunkBuffer α :=
  let b := if b.back.size = b.back.capacity then b.grow 0 else b
  { b with
    back := b.back.push growth value
    totalValueCount := b.totalValueCount + 1 }

/-- `EmplaceBackN`; the new values are those of the default constructor. -/
def emplaceBackN [Inhabited α] (growth : VectorGrowth) (n : ℕ) (b : ChunkBuffer α) :
    ChunkBuffer α :=
  if n = 0 then b
  else
    let b := if b.back.capacity - b.back.size < n then b.grow n else b
    { b with
      back := b.back.pushN growth default n
      totalValueCount := b.totalValueCount + n }

def clear (initialSize : ℕ) (b : ChunkBuffer α) : ChunkBuffer α where
  front := []
  back := (b.front.headD b.back).clear
  offsets := [0]
  nextChunkSize := initialSize
  totalValueCount := 0

/-! ## Views -/

def getSize (b : ChunkBuffer α) : ℕ := b.totalValueCount

/-- `std::upper_bound` of sorted offsets: the first one that is greater. -/
def upperBound (offsets : List ℕ) (offset : ℕ) : ℕ := offsets.findIdx (offset < ·)

def find (b : ChunkBuffer α) (offset : ℕ) : ℕ × ℕ :=
  let chunkId := upperBound b.offsets offset - 1
  (chunkId, b.offsets.getD chunkId 0)

def entry (b : ChunkBuffer α) (id : ChunkBufferEntryID) : Option α :=
  (b.buffers[id.chunkId]?).bind fun chunk => chunk.values[id.chunkEntryId]?

def get (b : ChunkBuffer α) (offset : ℕ) : Option α :=
  b.entry ⟨(b.find offset).1, offset - (b.find offset).2⟩

/-- The calls of a function for a number of values, from the chunks that follow a chunk. -/
def visitChunks : List (Chunk α) → ℕ → ℕ → ℕ → Option (List (ℕ × α))
  | _, _, _, 0 => some []
  | [], _, _, _ + 1 => none
  | chunk :: chunks, localOffset, globalOffset, count + 1 =>
    if chunk.size < localOffset then none
    else
      let here := min (chunk.size - localOffset) (count + 1)
      let visited := (List.range' globalOffset here).zip
        ((chunk.values.drop localOffset).take here)
      (visitChunks chunks 0 (globalOffset + here) (count + 1 - here)).map (visited ++ ·)

/-- `ForEachIn`, as the list of its calls. -/
def forEachIn (b : ChunkBuffer α) (begin count : ℕ) : Option (List (ℕ × α)) :=
  visitChunks (b.buffers.drop (b.find begin).1) (begin - (b.find begin).2) begin count

def flatten (b : ChunkBuffer α) : List α := b.buffers.flatMap Chunk.values

def getNext (b : ChunkBuffer α) (entry : ChunkBufferEntryID) : ChunkBufferEntryID :=
  if entry.chunkEntryId + 1 < ((b.buffers[entry.chunkId]?).map Chunk.size).getD 0 then
    ⟨entry.chunkId, entry.chunkEntryId + 1⟩
  else if entry.chunkId + 1 < b.buffers.length then ⟨entry.chunkId + 1, 0⟩
  else entry

/-- `GetPrevious`; the last value of an empty chunk is not checked for. -/
def getPrevious (b : ChunkBuffer α) (entry : ChunkBufferEntryID) : ChunkBufferEntryID :=
  if 0 < entry.chunkEntryId then ⟨entry.chunkId, entry.chunkEntryId - 1⟩
  else if 0 < entry.chunkId then
    ⟨entry.chunkId - 1, ((b.buffers[entry.chunkId - 1]?).map Chunk.size).getD 0 - 1⟩
  else entry

def getFlatEntryID (b : ChunkBuffer α) (entry : ChunkBufferEntryID) : ℕ :=
  ((b.buffers.take entry.chunkId).map Chunk.size).sum + entry.chunkEntryId

end ChunkBuffer

/-! ## Iterators -/

/-- `ConstTupleIterator`, but for the buffer that it refers to. -/
structure ConstTupleIterator where
  chunkId : ℕ
  chunkValueId : ℕ
  deriving DecidableEq

namespace ConstTupleIterator

variable (b : ChunkBuffer α) (it : ConstTupleIterator) (id : ChunkBufferEntryID)

/-- The iterator of a buffer that the constructor makes by default. -/
def start : ConstTupleIterator := ⟨0, 0⟩

def chunkSize : ℕ := ((b.buffers[it.chunkId]?).map Chunk.size).getD 0

def isAtEnd : Bool := it.chunkSize b ≤ it.chunkValueId

/-- `operator++`. -/
def next : ConstTupleIterator :=
  if it.chunkSize b ≤ it.chunkValueId + 1 ∧ it.chunkId + 1 < b.buffers.length then
    ⟨it.chunkId + 1, 0⟩
  else ⟨it.chunkId, it.chunkValueId + 1⟩

/-- `operator*`. -/
def deref : Option α := b.entry ⟨it.chunkId, it.chunkValueId⟩

def eq : Bool := it.chunkId = id.chunkId ∧ it.chunkValueId = id.chunkEntryId

def ne : Bool := it.chunkId ≠ id.chunkId ∨ it.chunkValueId ≠ id.chunkEntryId

def ge : Bool :=
  id.chunkId < it.chunkId ∨ it.chunkId = id.chunkId ∧ it.chunkValueId = id.chunkEntryId

/-- The values from an iterator to the end, if a number of steps is enough. -/
def iterate : ℕ → ConstTupleIterator → Option (List α)
  | 0, _ => none
  | fuel + 1, it =>
    if it.isAtEnd b then some []
    else (it.deref b).bind fun value => (iterate fuel (it.next b)).map (value :: ·)

end ConstTupleIterator

end DashQL.Utils
