import DashQL.Library.Replay

/-!
# The log buffer

Records are appended to a list, and the list is frozen into a chunk when it has become longer than
the chunk size.  A frozen chunk therefore has one record more than the positions account for: the
length of the buffer and the position of a record are computed from the chunk size itself.

* `traces_of_run`: trace collection gives the records of a trace in every run; a chunk is skipped
  only if the trace is outside of its range, and the range is part of what a chunk is.
* `atIndex_of_run`: the position that is found under an index, chunk by chunk.
* `represents_iff`: the buffer represents the records that it accepted exactly as long as nothing
  is frozen.
-/

namespace DashQL.Logger

open List Option

/-! ## Records -/

inductive LogLevel where
  | trace
  | debug
  | info
  | warn
  | error
  deriving DecidableEq

def LogLevel.value : LogLevel → ℕ
  | .trace => 1
  | .debug => 2
  | .info => 3
  | .warn => 4
  | .error => 5

/-- Trace information of a log record; `N` are the numbers. -/
structure TraceInfo (N : Type) where
  traceId : N
  spanId : N
  parentSpanId : Option N
  deriving DecidableEq

structure LogRecord (N : Type) where
  timestamp : N
  level : LogLevel
  target : String
  message : String
  context : Option String
  tracing : Option (TraceInfo N)
  /-- The log details; a value may be null or undefined. -/
  keyValues : List (String × Option String)
  deriving DecidableEq

variable {N : Type}

def LogRecord.traceId (entry : LogRecord N) : Option N := entry.tracing.map TraceInfo.traceId

/-! ## Frozen chunks -/

/-- The better of two trace ids, as the constructor of a chunk keeps it. -/
def keepBetter (better : N → N → Prop) [DecidableRel better] (best : Option N) (traceId : N) :
    Option N :=
  match best with
  | none => some traceId
  | some kept => if better traceId kept then some traceId else best

def bestTraceId (better : N → N → Prop) [DecidableRel better] (entries : List (LogRecord N)) :
    Option N :=
  entries.foldl (fun best entry =>
    match entry.traceId with
    | none => best
    | some traceId => keepBetter better best traceId) none

section Best

variable {better le : N → N → Prop} [DecidableRel better]

theorem keepBetter_le [IsPreorder N le] (hbetter : ∀ a b, better a b → le a b)
    (hworse : ∀ a b, ¬ better a b → le b a) (best : Option N) (traceId : N) :
    ∃ found, keepBetter better best traceId = some found ∧ le found traceId ∧
      ∀ kept, best = some kept → le found kept := by
  unfold keepBetter
  split
  next =>
    exact ⟨traceId, rfl, refl_of le traceId, fun _ hkept => absurd hkept (by simp)⟩
  next kept =>
    split_ifs with hcompare
    · refine ⟨traceId, rfl, refl_of le traceId, fun kept' hkept => ?_⟩
      exact some.inj hkept ▸ hbetter _ _ hcompare
    · refine ⟨kept, rfl, hworse _ _ hcompare, fun kept' hkept => ?_⟩
      exact some.inj hkept ▸ refl_of le kept

theorem exists_bestTraceId_le (le : N → N → Prop) [IsPreorder N le] (hbetter : ∀ a b, better a b → le a b)
    (hworse : ∀ a b, ¬ better a b → le b a) {entries : List (LogRecord N)} {entry : LogRecord N}
    (hentry : entry ∈ entries) {traceId : N} (htraceId : entry.traceId = some traceId) :
    ∃ found, bestTraceId better entries = some found ∧ le found traceId := by
  induction entries using List.reverseRecOn with
  | nil => exact absurd hentry not_mem_nil
  | append_singleton entries last ih =>
    rw [bestTraceId, foldl_concat]
    change ∃ found, (match last.traceId with
      | none => bestTraceId better entries
      | some traceId => keepBetter better (bestTraceId better entries) traceId) = some found ∧
        le found traceId
    split
    next hlast =>
      rcases mem_append.mp hentry with hmem | hmem
      · exact ih hmem
      · rw [mem_singleton.mp hmem, hlast] at htraceId
        exact absurd htraceId (by simp)
    next lastId hlast =>
      obtain ⟨found, hfound, hlastId, hkept⟩ :=
        keepBetter_le hbetter hworse (bestTraceId better entries) lastId
      refine ⟨found, hfound, ?_⟩
      rcases mem_append.mp hentry with hmem | hmem
      · obtain ⟨kept, hbest, hle⟩ := ih hmem
        exact trans_of le (hkept kept hbest) hle
      · rw [mem_singleton.mp hmem, hlast] at htraceId
        exact some.inj htraceId ▸ hlastId

end Best

variable [LinearOrder N]

/-- A frozen chunk; the range of the trace ids is that of its entries. -/
structure FrozenLogChunk (N : Type) [LinearOrder N] where
  entries : List (LogRecord N)
  minTraceId : Option N
  maxTraceId : Option N
  covers : ∀ entry ∈ entries, ∀ traceId, entry.traceId = some traceId →
    (∃ least, minTraceId = some least ∧ least ≤ traceId) ∧
      ∃ greatest, maxTraceId = some greatest ∧ traceId ≤ greatest

def FrozenLogChunk.new (entries : List (LogRecord N)) : FrozenLogChunk N where
  entries
  minTraceId := bestTraceId (· < ·) entries
  maxTraceId := bestTraceId (· > ·) entries
  covers _ hentry _ htraceId :=
    ⟨exists_bestTraceId_le (· ≤ ·) (fun _ _ => le_of_lt) (fun _ _ => le_of_not_gt) hentry htraceId,
      exists_bestTraceId_le (· ≥ ·) (fun _ _ => le_of_lt) (fun _ _ => le_of_not_gt) hentry htraceId⟩

/-- The test whether a chunk is passed over in the search for a trace. -/
def FrozenLogChunk.skips (chunk : FrozenLogChunk N) (traceId : N) : Bool :=
  match chunk.minTraceId, chunk.maxTraceId with
  | some least, some greatest => traceId < least || traceId > greatest
  | _, _ => false

/-! ## The buffer -/

def targetChunkSize : ℕ := 1024

structure LogBuffer (N : Type) [LinearOrder N] where
  version : ℕ
  lastEntries : List (LogRecord N)
  frozenChunks : List (FrozenLogChunk N)
  minLogLevel : LogLevel

namespace LogBuffer

def new : LogBuffer N :=
  { version := 1, lastEntries := [], frozenChunks := [], minLogLevel := .info }

def length (buffer : LogBuffer N) : ℕ :=
  buffer.lastEntries.length + buffer.frozenChunks.length * targetChunkSize

def setMinLogLevel (level : LogLevel) (buffer : LogBuffer N) : LogBuffer N :=
  { buffer with minLogLevel := level }

def push (entry : LogRecord N) (buffer : LogBuffer N) : LogBuffer N :=
  if entry.level.value < buffer.minLogLevel.value then buffer
  else
    let lastEntries := buffer.lastEntries ++ [entry]
    if lastEntries.length > targetChunkSize then
      { buffer with
        frozenChunks := buffer.frozenChunks ++ [FrozenLogChunk.new lastEntries]
        lastEntries := []
        version := buffer.version + 1 }
    else
      { buffer with lastEntries, version := buffer.version + 1 }

def atIndex (index : ℕ) (buffer : LogBuffer N) : Option (LogRecord N) :=
  let frozenEntries := buffer.frozenChunks.length * targetChunkSize
  if index < frozenEntries then
    let chunkIndex := index / targetChunkSize
    let indexInChunk := index - chunkIndex * targetChunkSize
    buffer.frozenChunks[chunkIndex]?.bind fun chunk => chunk.entries[indexInChunk]?
  else
    buffer.lastEntries[index - frozenEntries]?

/-- The entries that carry a trace id. -/
def collect (traceId : N) (entries : List (LogRecord N)) : List (LogRecord N) :=
  entries.filter fun entry => entry.traceId = some traceId

def collectTraceLogs (traceId : N) (buffer : LogBuffer N) : List (LogRecord N) :=
  (buffer.frozenChunks.flatMap fun chunk =>
    if chunk.skips traceId then [] else collect traceId chunk.entries) ++
  collect traceId buffer.lastEntries

end LogBuffer

/-! ## Calls -/

inductive LogCall (N : Type) where
  | push (entry : LogRecord N)
  | setMinLogLevel (level : LogLevel)

def LogBuffer.call (logCall : LogCall N) (buffer : LogBuffer N) : LogBuffer N :=
  match logCall with
  | .push entry => buffer.push entry
  | .setMinLogLevel level => buffer.setMinLogLevel level

/-- The records that are at or above the minimum level when they are pushed. -/
def accepted : LogLevel → List (LogCall N) → List (LogRecord N)
  | _, [] => []
  | minLogLevel, .push entry :: calls =>
    if entry.level.value < minLogLevel.value then accepted minLogLevel calls
    else entry :: accepted minLogLevel calls
  | _, .setMinLogLevel level :: calls => accepted level calls

/-- A buffer represents a list of records: it has its length, its records under their indices and
none behind, and the sublists of all traces. -/
structure LogBuffer.Represents (buffer : LogBuffer N) (records : List (LogRecord N)) : Prop where
  length : buffer.length = records.length
  found : ∀ index (hindex : index < records.length), buffer.atIndex index = some records[index]
  missing : ∀ index, records.length ≤ index → buffer.atIndex index = none
  traces : ∀ traceId, buffer.collectTraceLogs traceId =
    records.filter fun entry => entry.traceId = some traceId

/-! ## What a buffer contains -/

/-- The records of a buffer in its chunks and behind them; a chunk is one longer than its size. -/
structure LogBuffer.Contains (buffer : LogBuffer N) (records : List (LogRecord N)) : Prop where
  entries : (buffer.frozenChunks.flatMap fun chunk => chunk.entries) ++ buffer.lastEntries = records
  frozen : ∀ chunk ∈ buffer.frozenChunks, chunk.entries.length = targetChunkSize + 1
  pending : buffer.lastEntries.length ≤ targetChunkSize

variable {buffer : LogBuffer N} {records : List (LogRecord N)}

theorem LogBuffer.contains_new : (LogBuffer.new : LogBuffer N).Contains [] where
  entries := rfl
  frozen _ hchunk := absurd hchunk not_mem_nil
  pending := Nat.zero_le _

theorem LogBuffer.minLogLevel_push {entry : LogRecord N} :
    (buffer.push entry).minLogLevel = buffer.minLogLevel := by
  unfold push
  dsimp only
  split_ifs <;> rfl

/-- A record that is at or above the minimum level is added behind the others. -/
theorem LogBuffer.contains_push (h : buffer.Contains records) (entry : LogRecord N) :
    (buffer.push entry).Contains
      (if entry.level.value < buffer.minLogLevel.value then records else records ++ [entry]) := by
  unfold push
  dsimp only
  split_ifs with hlevel hfull
  · exact h
  · -- the entries with the new one are frozen
    have hlength : buffer.lastEntries.length + 1 > targetChunkSize := by
      rwa [length_append, length_singleton] at hfull
    have hpending := h.pending
    refine ⟨?_, ?_, Nat.zero_le _⟩
    · rw [flatMap_append, flatMap_singleton, append_nil]
      exact (append_assoc ..).symm.trans (congrArg (· ++ [entry]) h.entries)
    · intro chunk hchunk
      rcases mem_append.mp hchunk with hmem | hmem
      · exact h.frozen chunk hmem
      · rw [mem_singleton.mp hmem]
        change (buffer.lastEntries ++ [entry]).length = _
        rw [length_append, length_singleton]
        omega
  · refine ⟨?_, h.frozen, Nat.le_of_not_gt hfull⟩
    exact (append_assoc ..).symm.trans (congrArg (· ++ [entry]) h.entries)

theorem LogBuffer.contains_run {calls : List (LogCall N)} (h : buffer.Contains records) :
    (replay LogBuffer.call calls buffer).Contains
      (records ++ accepted buffer.minLogLevel calls) := by
  induction calls generalizing buffer records with
  | nil => rwa [accepted, append_nil]
  | cons logCall calls ih =>
    cases logCall with
    | push entry =>
      have hpush := ih (contains_push h entry)
      rw [minLogLevel_push] at hpush
      rw [replay_cons, accepted]
      change (replay LogBuffer.call calls (buffer.push entry)).Contains _
      split_ifs at hpush ⊢ with hlevel
      · exact hpush
      · rwa [append_assoc, singleton_append] at hpush
    | setMinLogLevel level =>
      have hset : (buffer.setMinLogLevel level).Contains records :=
        ⟨h.entries, h.frozen, h.pending⟩
      exact ih hset

/-! ## Positions -/

theorem LogBuffer.Contains.frozen_length (h : buffer.Contains records) :
    (buffer.frozenChunks.flatMap fun chunk => chunk.entries).length =
      buffer.frozenChunks.length * (targetChunkSize + 1) := by
  have hall := h.frozen
  generalize buffer.frozenChunks = chunks at hall ⊢
  induction chunks with
  | nil => rw [flatMap_nil, length_nil, length_nil, Nat.zero_mul]
  | cons chunk chunks ih =>
    rw [flatMap_cons, length_append, hall chunk mem_cons_self,
      ih fun chunk hchunk => hall chunk (mem_cons_of_mem _ hchunk), length_cons,
      Nat.succ_mul, Nat.add_comm]

theorem LogBuffer.Contains.records_length (h : buffer.Contains records) :
    records.length =
      buffer.frozenChunks.length * (targetChunkSize + 1) + buffer.lastEntries.length := by
  rw [← h.entries, length_append, h.frozen_length]

theorem LogBuffer.Contains.chunks (h : buffer.Contains records) :
    buffer.frozenChunks.length = records.length / (targetChunkSize + 1) := by
  have hlength := h.records_length
  have hpending := h.pending
  unfold targetChunkSize at *
  omega

/-- In a list of pieces of one length, an element is found by the number of its piece. -/
theorem getElem?_flatMap_of_length {α β : Type} {piece : α → List β} {size : ℕ} {xs : List α}
    {rest : List β} (h : ∀ x ∈ xs, (piece x).length = size) {i j : ℕ} (hi : i < xs.length)
    (hj : j < size) :
    (xs.flatMap piece ++ rest)[i * size + j]? = xs[i]?.bind fun x => (piece x)[j]? := by
  induction xs generalizing i with
  | nil => exact absurd hi (Nat.not_lt_zero _)
  | cons x xs ih =>
    have hx := h x mem_cons_self
    rw [flatMap_cons, append_assoc]
    cases i with
    | zero =>
      rw [Nat.zero_mul, Nat.zero_add, getElem?_append_left (by omega)]
      rfl
    | succ i =>
      have hindex : (i + 1) * size + j - (piece x).length = i * size + j := by
        rw [hx, Nat.succ_mul]
        omega
      have hbehind : (piece x).length ≤ (i + 1) * size + j := by
        rw [hx, Nat.succ_mul]
        omega
      rw [getElem?_append_right hbehind, hindex, getElem?_cons_succ]
      exact ih (fun x hx => h x (mem_cons_of_mem _ hx)) (Nat.lt_of_succ_lt_succ hi)

/-- The position under an index is too small by the number of chunks in front of it. -/
theorem LogBuffer.Contains.atIndex (h : buffer.Contains records) (index : ℕ) :
    buffer.atIndex index =
      records[index + min (index / targetChunkSize) buffer.frozenChunks.length]? := by
  have hlength := h.frozen_length
  unfold LogBuffer.atIndex
  dsimp only
  split_ifs with hfrozen
  · have hsize : 0 < targetChunkSize := by decide
    have hchunk : index / targetChunkSize < buffer.frozenChunks.length :=
      Nat.div_lt_of_lt_mul (by rwa [Nat.mul_comm])
    have hinChunk : index - index / targetChunkSize * targetChunkSize < targetChunkSize + 1 := by
      unfold targetChunkSize
      omega
    have hposition : index + min (index / targetChunkSize) buffer.frozenChunks.length =
        index / targetChunkSize * (targetChunkSize + 1) +
          (index - index / targetChunkSize * targetChunkSize) := by
      rw [Nat.min_eq_left hchunk.le]
      unfold targetChunkSize
      omega
    rw [hposition, ← h.entries]
    exact (getElem?_flatMap_of_length h.frozen hchunk hinChunk).symm
  · have hchunks : buffer.frozenChunks.length ≤ index / targetChunkSize := by
      unfold targetChunkSize at hfrozen ⊢
      omega
    have hbehind : buffer.frozenChunks.length * (targetChunkSize + 1) ≤
        index + buffer.frozenChunks.length := by
      unfold targetChunkSize at hfrozen ⊢
      omega
    rw [Nat.min_eq_right hchunks, ← h.entries, getElem?_append_right (by omega), hlength]
    congr 1
    unfold targetChunkSize at hfrozen ⊢
    omega

/-! ## Traces -/

/-- A chunk that is passed over has no entry of the trace. -/
theorem collect_of_skips {chunk : FrozenLogChunk N} {traceId : N} (h : chunk.skips traceId) :
    LogBuffer.collect traceId chunk.entries = [] := by
  rw [LogBuffer.collect, filter_eq_nil_iff]
  intro entry hentry hcarries
  have hcarries : entry.traceId = some traceId := of_decide_eq_true hcarries
  obtain ⟨⟨least, hleast, hle⟩, greatest, hgreatest, hge⟩ :=
    chunk.covers entry hentry traceId hcarries
  rw [FrozenLogChunk.skips, hleast, hgreatest] at h
  rcases Bool.or_eq_true_iff.mp h with hless | hmore
  · exact absurd (of_decide_eq_true hless) (not_lt.mpr hle)
  · exact absurd (of_decide_eq_true hmore) (not_lt.mpr hge)

theorem LogBuffer.Contains.collectTraceLogs (h : buffer.Contains records) (traceId : N) :
    buffer.collectTraceLogs traceId = collect traceId records := by
  have hchunks : (buffer.frozenChunks.flatMap fun chunk =>
      if chunk.skips traceId then [] else collect traceId chunk.entries) =
      buffer.frozenChunks.flatMap fun chunk => collect traceId chunk.entries := by
    refine flatMap_congr fun chunk _ => ?_
    split_ifs with hskips
    · exact (collect_of_skips hskips).symm
    · rfl
  rw [LogBuffer.collectTraceLogs, hchunks, ← h.entries, collect, collect, filter_append,
    filter_flatMap]
  rfl

/-! ## Runs -/

variable (calls : List (LogCall N))

theorem LogBuffer.contains_of_run :
    (replay LogBuffer.call calls LogBuffer.new).Contains (accepted .info calls) :=
  contains_run contains_new

theorem traces_of_run (traceId : N) :
    (replay LogBuffer.call calls LogBuffer.new).collectTraceLogs traceId =
      (accepted .info calls).filter fun entry => entry.traceId = some traceId :=
  (LogBuffer.contains_of_run calls).collectTraceLogs traceId

theorem length_of_run :
    (replay LogBuffer.call calls LogBuffer.new).length =
      (accepted .info calls).length - (accepted .info calls).length / (targetChunkSize + 1) := by
  have hcontains := LogBuffer.contains_of_run calls
  have hlength := hcontains.records_length
  rw [← hcontains.chunks, LogBuffer.length]
  unfold targetChunkSize at *
  omega

/-- An index leads to the record that is further behind by the chunks in front of it. -/
theorem atIndex_of_run (index : ℕ) :
    (replay LogBuffer.call calls LogBuffer.new).atIndex index =
      (accepted .info calls)[index + min (index / targetChunkSize)
        ((accepted .info calls).length / (targetChunkSize + 1))]? := by
  have hcontains := LogBuffer.contains_of_run calls
  rw [hcontains.atIndex, hcontains.chunks]

/-- The buffer represents the records that were at or above the minimum level when they were pushed
exactly if there are not more of them than fit in a chunk. -/
theorem represents_iff :
    (replay LogBuffer.call calls LogBuffer.new).Represents (accepted .info calls) ↔
      (accepted .info calls).length ≤ targetChunkSize := by
  constructor
  · intro hrepresents
    have hlength := hrepresents.length
    rw [length_of_run] at hlength
    unfold targetChunkSize at *
    omega
  · intro hfew
    have hnone : (accepted .info calls).length / (targetChunkSize + 1) = 0 :=
      Nat.div_eq_of_lt (Nat.lt_succ_of_le hfew)
    have hat : ∀ index, (replay LogBuffer.call calls LogBuffer.new).atIndex index =
        (accepted .info calls)[index]? := by
      intro index
      rw [atIndex_of_run, hnone, Nat.min_zero, Nat.add_zero]
    refine ⟨?_, ?_, ?_, traces_of_run calls⟩
    · rw [length_of_run, hnone, Nat.sub_zero]
    · intro index hindex
      rw [hat, getElem?_eq_getElem hindex]
    · intro index hbehind
      rw [hat, getElem?_eq_none hbehind]

/-- With the first chunk a record is lost from the length. -/
theorem unrepresented_after_freeze :
    ¬ (replay LogBuffer.call (List.replicate 1025 (.push
          { timestamp := 0, level := .info, target := "", message := "", context := none,
            tracing := none, keyValues := [] })) LogBuffer.new : LogBuffer ℕ).Represents
        (accepted .info (List.replicate 1025 (.push
          { timestamp := 0, level := .info, target := "", message := "", context := none,
            tracing := none, keyValues := [] }))) := by
  intro hrepresents
  have hlength := hrepresents.length
  rw [length_of_run] at hlength
  revert hlength
  decide +kernel

end DashQL.Logger
