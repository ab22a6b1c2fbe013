import DashQL.Library.RowPositions
import DashQL.Utils.ChunkBuffer

/-!
# The views of a chunk buffer

What a history of constructions and changes should have made is one list
(`History.logical`), and the chunks always hold it (`kept_run`).  The views look at it
through the offsets and through the sizes of the chunks:

* the offsets are those of the chunks unless the buffer took over a vector that is not
  empty, and then the first value is not found;
* the iterator starts in the first chunk, and is at the end if that is empty;
* `operator>=` compares the places in a chunk by equality.

`agrees_iff` says when all views agree with the list.
-/

namespace DashQL.Utils

open List

variable {α : Type*}

namespace ChunkBuffer

/-! ## Histories -/

inductive Construction (α : Type*)
  | empty
  | ofVector (buffer : Chunk α)

inductive Change (α : Type*)
  | pushBack (value : α)
  | emplaceBackN (n : ℕ)
  | clear

structure History (α : Type*) where
  construction : Construction α
  changes : List (Change α)

variable [Inhabited α]

def Construction.buffer (initialSize : ℕ) : Construction α → ChunkBuffer α
  | .empty => .empty initialSize
  | .ofVector buffer => .ofVector initialSize buffer

def change (initialSize : ℕ) (growth : VectorGrowth) (b : ChunkBuffer α) : Change α → ChunkBuffer α
  | .pushBack value => b.pushBack growth value
  | .emplaceBackN n => b.emplaceBackN growth n
  | .clear => b.clear initialSize

def History.buffer (initialSize : ℕ) (growth : VectorGrowth) (h : History α) : ChunkBuffer α :=
  h.changes.foldl (change initialSize growth) (h.construction.buffer initialSize)

def Construction.logical : Construction α → List α
  | .empty => []
  | .ofVector buffer => buffer.values

def logicalChange (values : List α) : Change α → List α
  | .pushBack value => values ++ [value]
  | .emplaceBackN n => values ++ List.replicate n default
  | .clear => []

def History.logical (h : History α) : List α :=
  h.changes.foldl logicalChange h.construction.logical

def Construction.tookOver : Construction α → Bool
  | .empty => false
  | .ofVector buffer => !buffer.values.isEmpty

def tookOverChange (tookOver : Bool) : Change α → Bool
  | .clear => false
  | _ => tookOver

/-- The buffer took over a vector that is not empty, and was not cleared since. -/
def History.tookOver (h : History α) : Bool :=
  h.changes.foldl tookOverChange h.construction.tookOver

/-! ## Chunks and offsets -/

omit [Inhabited α]

def rows (b : ChunkBuffer α) : List (List α) := b.buffers.map Chunk.values

theorem rows_eq (b : ChunkBuffer α) : b.rows = b.front.map Chunk.values ++ [b.back.values] := by
  unfold rows buffers
  rw [map_append]
  rfl

theorem flatten_eq (b : ChunkBuffer α) : b.flatten = b.rows.flatten := by
  unfold flatten rows
  rw [flatMap_def]

/-- The offsets of the chunks, as the sizes before them make them. -/
def chunkOffsets (rows : List (List α)) : List ℕ := (List.range rows.length).map (rowOffset rows)

theorem chunkOffsets_concat (front : List (List α)) (last : List α) :
    chunkOffsets (front ++ [last]) = chunkOffsets front ++ [front.flatten.length] := by
  have hkept : ∀ row ≤ front.length, rowOffset (front ++ [last]) row = rowOffset front row := by
    intro row hrow
    unfold rowOffset
    rw [take_append_of_le_length hrow]
  unfold chunkOffsets
  rw [length_append, length_singleton, range_succ, map_append,
    map_singleton, hkept _ le_rfl, rowOffset_length]
  congr 1
  exact map_congr_left fun row hrow => hkept row (mem_range.mp hrow).le

/-- What a change adds to the buffer: values in the last chunk, or in a new one. -/
inductive Extended (b : ChunkBuffer α) (added : List α) (b' : ChunkBuffer α) : Prop
  | inside (front : b'.front = b.front) (back : b'.back.values = b.back.values ++ added)
      (offsets : b'.offsets = b.offsets)
      (total : b'.totalValueCount = b.totalValueCount + added.length)
  | behind (front : b'.front = b.buffers) (back : b'.back.values = added)
      (offsets : b'.offsets = b.offsets ++ [b.totalValueCount])
      (total : b'.totalValueCount = b.totalValueCount + added.length)

theorem extended_pushBack (growth : VectorGrowth) (value : α) (b : ChunkBuffer α) :
    Extended b [value] (b.pushBack growth value) := by
  unfold pushBack
  by_cases hfull : b.back.size = b.back.capacity
  · rw [if_pos hfull]
    exact .behind rfl rfl rfl rfl
  · rw [if_neg hfull]
    exact .inside rfl rfl rfl rfl

theorem values_pushN (growth : VectorGrowth) (value : α) (n : ℕ) (chunk : Chunk α) :
    (chunk.pushN growth value n).values = chunk.values ++ List.replicate n value := by
  induction n generalizing chunk with
  | zero => exact (append_nil _).symm
  | succ n ih =>
    unfold Chunk.pushN
    rw [ih]
    unfold Chunk.push
    rw [append_assoc]
    rfl

theorem extended_emplaceBackN [Inhabited α] (growth : VectorGrowth) {n : ℕ} (hn : n ≠ 0)
    (b : ChunkBuffer α) :
    Extended b (List.replicate n default) (b.emplaceBackN growth n) := by
  unfold emplaceBackN
  rw [if_neg hn]
  by_cases hroom : b.back.capacity - b.back.size < n
  · rw [if_pos hroom]
    refine .behind rfl ?_ rfl ?_
    · exact values_pushN growth default n _
    · rw [length_replicate]
      rfl
  · rw [if_neg hroom]
    refine .inside rfl ?_ rfl ?_
    · exact values_pushN growth default n _
    · rw [length_replicate]

/-! ## The chunks hold the list -/

/-- The offsets of a buffer that took over a vector: all but the first are behind its first value,
although the first chunk is empty. -/
structure TakenOver (b : ChunkBuffer α) (values : List α) : Prop where
  offsets : ∃ rest, b.offsets = 0 :: rest ∧ ∀ offset ∈ rest, 0 < offset
  first : b.rows.getD 0 [] = []
  values_ne : values ≠ []

/-- What the chunks and their offsets are after a history. -/
structure Kept (b : ChunkBuffer α) (values : List α) (tookOver : Bool) : Prop where
  flat : b.rows.flatten = values
  total : b.totalValueCount = values.length
  dense : Dense b.rows
  offsets : tookOver = false → b.offsets = chunkOffsets b.rows
  takenOver : tookOver = true → TakenOver b values

theorem kept_empty (initialSize : ℕ) : Kept (.empty initialSize : ChunkBuffer α) [] false := by
  refine ⟨rfl, rfl, dense_singleton [], fun _ => rfl, fun h => ?_⟩
  cases h

theorem kept_ofVector (initialSize : ℕ) (buffer : Chunk α) :
    Kept (.ofVector initialSize buffer) buffer.values (!buffer.values.isEmpty) := by
  have hrows : (ofVector initialSize buffer).rows = [[], buffer.values] := rfl
  refine ⟨?_, rfl, ?_, fun h => ?_, fun h => ⟨⟨[buffer.size], rfl, ?_⟩, rfl, ?_⟩⟩
  · rw [hrows]
    exact append_nil _
  · rw [hrows]
    intro row hrow hlt
    have hzero : row = 0 := Nat.lt_one_iff.mp (Nat.lt_of_succ_lt_succ hlt)
    subst hzero
    exact (hrow rfl).elim
  · have hnil : buffer.values = [] := List.isEmpty_iff.mp ((Bool.not_eq_false' _).mp h)
    rw [hrows, hnil]
    unfold ofVector Chunk.size
    rw [hnil]
    rfl
  · intro offset hoffset
    rw [mem_singleton.mp hoffset]
    exact length_pos_iff.mpr fun hnil => by
      rw [hnil] at h
      cases h
  · rintro hnil
    rw [hnil] at h
    cases h

theorem Kept.extend {b b' : ChunkBuffer α} {values added : List α} {tookOver : Bool}
    (h : Kept b values tookOver) (hadded : added ≠ []) (hext : Extended b added b') :
    Kept b' (values ++ added) tookOver := by
  have hflat := h.flat
  have hdense := h.dense
  have hne : values ++ added ≠ [] := append_ne_nil_of_right_ne_nil _ hadded
  cases hext with
  | inside front back offsets total =>
    have hrows : b'.rows = b.front.map Chunk.values ++ [b.back.values ++ added] := by
      rw [rows_eq, front, back]
    rw [rows_eq] at hflat hdense
    refine ⟨?_, ?_, ?_, fun hkind => ?_, fun hkind => ⟨?_, ?_, hne⟩⟩
    · rw [hrows, ← hflat, flatten_append, flatten_append, flatten_singleton,
        flatten_singleton, append_assoc]
    · rw [total, h.total, length_append]
    · rw [hrows]
      exact hdense.replace_last (append_ne_nil_of_right_ne_nil _ hadded)
    · rw [offsets, h.offsets hkind, hrows, rows_eq, chunkOffsets_concat, chunkOffsets_concat]
    · rw [offsets]
      exact (h.takenOver hkind).offsets
    · have hfirst := (h.takenOver hkind).first
      have hvalues := (h.takenOver hkind).values_ne
      rw [rows_eq] at hfirst
      rw [hrows]
      cases hfront : b.front.map Chunk.values with
      | nil =>
        rw [hfront] at hfirst hflat
        have hback : b.back.values = [] := hfirst
        rw [hback] at hflat
        exact (hvalues hflat.symm).elim
      | cons head rest =>
        rw [hfront] at hfirst
        exact hfirst
  | behind front back offsets total =>
    have hrows : b'.rows = b.rows ++ [added] := by
      rw [rows_eq, front, back]
      rfl
    refine ⟨?_, ?_, ?_, fun hkind => ?_, fun hkind => ⟨?_, ?_, hne⟩⟩
    · rw [hrows, flatten_append, hflat, flatten_singleton]
    · rw [total, h.total, length_append]
    · rw [hrows]
      exact hdense.concat hadded
    · rw [offsets, h.offsets hkind, hrows, chunkOffsets_concat, hflat, h.total]
    · obtain ⟨rest, hoffsets, hpos⟩ := (h.takenOver hkind).offsets
      refine ⟨rest ++ [b.totalValueCount], ?_, fun offset hoffset => ?_⟩
      · rw [offsets, hoffsets]
        rfl
      · rcases mem_append.mp hoffset with hmem | hmem
        · exact hpos offset hmem
        · rw [mem_singleton.mp hmem, h.total]
          exact length_pos_iff.mpr (h.takenOver hkind).values_ne
    · have hfirst := (h.takenOver hkind).first
      rw [hrows]
      have hlength : 0 < b.rows.length := by
        rw [rows_eq, length_append]
        exact Nat.succ_pos _
      rw [getD_append _ _ _ _ hlength]
      exact hfirst

theorem kept_clear (initialSize : ℕ) (b : ChunkBuffer α) : Kept (b.clear initialSize) [] false := by
  refine ⟨rfl, rfl, dense_singleton [], fun _ => rfl, fun h => ?_⟩
  cases h

theorem Kept.change [Inhabited α] (initialSize : ℕ) (growth : VectorGrowth) {b : ChunkBuffer α}
    {values : List α} {tookOver : Bool} (h : Kept b values tookOver) (c : Change α) :
    Kept (b.change initialSize growth c) (logicalChange values c) (tookOverChange tookOver c) := by
  cases c with
  | pushBack value => exact h.extend (cons_ne_nil _ _) (extended_pushBack growth value b)
  | emplaceBackN n =>
    by_cases hn : n = 0
    · subst hn
      change Kept b (values ++ []) tookOver
      rw [append_nil]
      exact h
    · refine h.extend ?_ (extended_emplaceBackN growth hn b)
      exact fun hnil => hn (length_replicate.symm.trans (congrArg List.length hnil))
  | clear => exact kept_clear initialSize b

/-- The chunks hold the list that the history makes. -/
theorem kept_run [Inhabited α] (initialSize : ℕ) (growth : VectorGrowth) (h : History α) :
    Kept (h.buffer initialSize growth) h.logical h.tookOver := by
  obtain ⟨construction, changes⟩ := h
  have hstart : Kept (construction.buffer initialSize) construction.logical
      construction.tookOver := by
    cases construction with
    | empty => exact kept_empty initialSize
    | ofVector buffer => exact kept_ofVector initialSize buffer
  unfold History.buffer History.logical History.tookOver
  dsimp only
  generalize construction.buffer initialSize = b at hstart ⊢
  generalize construction.logical = values at hstart ⊢
  generalize construction.tookOver = tookOver at hstart ⊢
  induction changes generalizing b values tookOver with
  | nil => exact hstart
  | cons c changes ih => exact ih _ _ _ (hstart.change initialSize growth c)

/-! ## Offsets -/

section Offsets

variable {b : ChunkBuffer α} {values : List α} {index row place : ℕ}

theorem buffers_getElem? (b : ChunkBuffer α) (row : ℕ) :
    b.rows[row]? = (b.buffers[row]?).map Chunk.values := getElem?_map ..

theorem chunkSize_eq (b : ChunkBuffer α) (row : ℕ) :
    ((b.buffers[row]?).map Chunk.size).getD 0 = (b.rows.getD row []).length := by
  rw [getD_eq_getElem?_getD, buffers_getElem?]
  cases b.buffers[row]? <;> rfl

theorem length_rows (b : ChunkBuffer α) : b.rows.length = b.buffers.length := length_map ..

theorem entry_eq (b : ChunkBuffer α) (id : ChunkBufferEntryID) :
    b.entry id = (b.rows.getD id.chunkId [])[id.chunkEntryId]? := by
  unfold entry
  rw [getD_eq_getElem?_getD, buffers_getElem?]
  cases b.buffers[id.chunkId]? <;> rfl

/-- The search in the offsets finds the chunk of an element. -/
theorem upperBound_chunkOffsets {rows : List (List α)} (h : IsPosition rows index row place) :
    upperBound (chunkOffsets rows) index = row + 1 := by
  have hlength : (chunkOffsets rows).length = rows.length := by
    unfold chunkOffsets
    rw [length_map, length_range]
  have hget : ∀ i (hi : i < (chunkOffsets rows).length),
      (chunkOffsets rows)[i] = rowOffset rows i := by
    intro i hi
    simp only [chunkOffsets, getElem_map, getElem_range]
  have hbefore : ∀ i (hi : i < (chunkOffsets rows).length), i ≤ row →
      decide (index < (chunkOffsets rows)[i]) = false := by
    intro i hi hle
    rw [hget i hi, decide_eq_false_iff_not, not_lt]
    exact (rowOffset_mono rows hle).trans h.rowOffset_le
  unfold upperBound
  have hrow := h.row_lt
  by_cases hlast : row + 1 < rows.length
  · rw [findIdx_eq (by rw [hlength]; exact hlast)]
    refine ⟨?_, fun i hi => hbefore i _ (Nat.le_of_lt_succ hi)⟩
    rw [hget, decide_eq_true_eq]
    exact h.lt_rowOffset_succ
  · have hend : row + 1 = (chunkOffsets rows).length := by omega
    rw [hend, findIdx_eq_length]
    intro offset hoffset
    obtain ⟨i, hi, rfl⟩ := mem_iff_getElem.mp hoffset
    exact hbefore i hi (by omega)

theorem find_eq (hoffsets : b.offsets = chunkOffsets b.rows)
    (h : IsPosition b.rows index row place) : b.find index = (row, rowOffset b.rows row) := by
  unfold find
  rw [hoffsets, upperBound_chunkOffsets h]
  dsimp only
  rw [Nat.add_sub_cancel, getD_eq_getElem?_getD]
  unfold chunkOffsets
  rw [getElem?_map, getElem?_range h.row_lt]
  rfl

theorem get_eq (hoffsets : b.offsets = chunkOffsets b.rows)
    (h : IsPosition b.rows index row place) : b.get index = b.rows.flatten[index]? := by
  unfold get
  rw [find_eq hoffsets h, entry_eq, h.getElem?]
  dsimp only
  rw [← h.2, Nat.add_sub_cancel_left]

/-- Without the chunks' own offsets the first value is looked for in the empty first chunk. -/
theorem TakenOver.get_zero (h : TakenOver b values) : b.get 0 = none := by
  obtain ⟨rest, hoffsets, hpos⟩ := h.offsets
  have hbound : upperBound b.offsets 0 = 1 := by
    unfold upperBound
    rw [hoffsets, findIdx_cons]
    cases rest with
    | nil => rfl
    | cons offset rest =>
      have hoffset : decide (0 < offset) = true :=
        decide_eq_true (hpos offset mem_cons_self)
      rw [findIdx_cons, hoffset]
      rfl
  unfold get find
  rw [hbound, entry_eq]
  dsimp only
  rw [h.first]
  rfl

theorem visitChunks_eq (chunks : List (Chunk α)) (localOffset globalOffset count : ℕ)
    (hlocal : localOffset ≤ (((chunks.map Chunk.values).getD 0 [])).length)
    (hcount : localOffset + count ≤ (chunks.map Chunk.values).flatten.length) :
    visitChunks chunks localOffset globalOffset count = some ((List.range' globalOffset count).zip
      (((chunks.map Chunk.values).flatten.drop localOffset).take count)) := by
  induction chunks generalizing localOffset globalOffset count with
  | nil =>
    cases count with
    | zero => rfl
    | succ count => exact absurd hcount (by rw [map_nil]; simp)
  | cons chunk chunks ih =>
    cases count with
    | zero => simp [visitChunks]
    | succ count =>
      rw [map_cons, getD_cons_zero] at hlocal
      rw [map_cons, flatten_cons, length_append] at hcount
      unfold visitChunks
      have hnot : ¬ chunk.size < localOffset := Nat.not_lt.mpr hlocal
      rw [if_neg hnot]
      have hsize : chunk.size = chunk.values.length := rfl
      have hrest := ih 0 (globalOffset + min (chunk.size - localOffset) (count + 1))
        (count + 1 - min (chunk.size - localOffset) (count + 1)) (Nat.zero_le _) (by omega)
      dsimp only
      rw [hrest, drop_zero, map_cons, flatten_cons, Option.map_some,
        drop_append_of_le_length hlocal]
      congr 1
      generalize hhere : min (chunk.size - localOffset) (count + 1) = here at hrest ⊢
      have hlength : (chunk.values.drop localOffset).length = chunk.size - localOffset :=
        length_drop
      have hle : here ≤ (chunk.values.drop localOffset).length := by omega
      have htake : (chunk.values.drop localOffset ++ (chunks.map Chunk.values).flatten).take
          (count + 1) = (chunk.values.drop localOffset).take here ++
            ((chunks.map Chunk.values).flatten).take (count + 1 - here) := by
        rw [take_append]
        congr 1
        · rw [take_eq_take_iff]
          omega
        · congr 1
          omega
      have hrange : List.range' globalOffset (count + 1) =
          List.range' globalOffset here ++
            List.range' (globalOffset + here) (count + 1 - here) := by
        rw [range'_append_1]
        congr 1
        omega
      rw [htake, hrange, zip_append]
      rw [length_range', length_take]
      omega

/-- The calls of `ForEachIn`, for values that are there. -/
theorem forEachIn_eq (hoffsets : b.offsets = chunkOffsets b.rows) (count : ℕ)
    (hcount : index + count ≤ b.rows.flatten.length) :
    b.forEachIn index count =
      some ((List.range' index count).zip ((b.rows.flatten.drop index).take count)) := by
  cases count with
  | zero =>
    unfold forEachIn visitChunks
    rfl
  | succ count =>
    obtain ⟨row, place, h⟩ := @exists_isPosition _ b.rows index (by omega)
    have hplace := h.1
    have hindex := h.2
    have hsplit : b.rows.flatten.drop (rowOffset b.rows row) = (b.rows.drop row).flatten := by
      have hflat : b.rows.flatten = (b.rows.take row).flatten ++ (b.rows.drop row).flatten := by
        rw [← flatten_append, take_append_drop]
      rw [hflat]
      exact drop_left
    have hdrop : (b.rows.drop row).flatten.drop place = b.rows.flatten.drop index := by
      rw [← hsplit, drop_drop, hindex]
    have hrows : (b.buffers.drop row).map Chunk.values = b.rows.drop row := map_drop
    have hlength := congrArg List.length hsplit
    rw [length_drop] at hlength
    unfold forEachIn
    rw [find_eq hoffsets h]
    dsimp only
    have hlocal : index - rowOffset b.rows row = place := by omega
    rw [hlocal, visitChunks_eq, hrows, hdrop]
    · rw [hrows, getD_eq_getElem?_getD, getElem?_drop, Nat.add_zero, ← getD_eq_getElem?_getD]
      exact hplace.le
    · rw [hrows, ← hlength]
      omega

end Offsets

/-! ## Sizes -/

section Sizes

variable {b : ChunkBuffer α} {index row place row' place' : ℕ}

theorem getFlatEntryID_eq (h : IsPosition b.rows index row place) :
    b.getFlatEntryID ⟨row, place⟩ = index := by
  have hsum : ((b.buffers.take row).map Chunk.size).sum = rowOffset b.rows row := by
    unfold rowOffset rows
    rw [length_flatten, ← map_take, map_map]
    rfl
  unfold getFlatEntryID
  rw [hsum]
  exact h.2

theorem getNext_eq (hdense : Dense b.rows) (h : IsPosition b.rows index row place)
    (h' : IsPosition b.rows (index + 1) row' place') :
    b.getNext ⟨row, place⟩ = ⟨row', place'⟩ := by
  have hnext : ∀ {r p}, IsPosition b.rows (index + 1) r p →
      (⟨r, p⟩ : ChunkBufferEntryID) = ⟨row', place'⟩ := by
    intro r p hpos
    rw [hpos.row_unique h', hpos.place_unique h']
  unfold getNext
  dsimp only
  rw [chunkSize_eq, ← length_rows]
  split_ifs with hplace hrow
  · exact hnext (h.succ_place hplace)
  · exact hnext (h.succ_row hdense (Nat.not_lt.mp hplace) hrow)
  · have hlast := h.last (Nat.not_lt.mp hplace) (Nat.not_lt.mp hrow)
    exact (Nat.lt_irrefl _ (hlast ▸ h'.index_lt)).elim

/-- The position before the first one of a row is the last one of the row in front. -/
theorem getPrevious_eq (hdense : Dense b.rows) (h : IsPosition b.rows index row place)
    (h' : IsPosition b.rows (index + 1) row' place') :
    b.getPrevious ⟨row', place'⟩ = ⟨row, place⟩ := by
  unfold getPrevious
  dsimp only
  by_cases hplace : place + 1 < (b.rows.getD row []).length
  · have hnext := h.succ_place hplace
    rw [← hnext.row_unique h', ← hnext.place_unique h', if_pos (Nat.succ_pos _)]
    rfl
  · have hfull : (b.rows.getD row []).length = place + 1 :=
      Nat.le_antisymm (Nat.not_lt.mp hplace) h.1
    by_cases hrow : row + 1 < b.rows.length
    · have hnext := h.succ_row hdense (Nat.not_lt.mp hplace) hrow
      rw [← hnext.row_unique h', ← hnext.place_unique h', if_neg (Nat.lt_irrefl 0),
        if_pos (Nat.succ_pos _), Nat.add_sub_cancel, chunkSize_eq, hfull]
      rfl
    · have hlast := h.last (Nat.not_lt.mp hplace) (Nat.not_lt.mp hrow)
      exact (Nat.lt_irrefl _ (hlast ▸ h'.index_lt)).elim

end Sizes

end ChunkBuffer

/-! ## Iterators -/

namespace ConstTupleIterator

open ChunkBuffer

variable {b : ChunkBuffer α} {index index' row row' place place' : ℕ}

theorem chunkSize_eq (b : ChunkBuffer α) (it : ConstTupleIterator) :
    it.chunkSize b = (b.rows.getD it.chunkId []).length := ChunkBuffer.chunkSize_eq b it.chunkId

/-- From the position of an element, the iterator goes through the elements that follow. -/
theorem iterate_eq (hdense : Dense b.rows) (fuel : ℕ) (h : IsPosition b.rows index row place)
    (hfuel : b.rows.flatten.length < index + fuel) :
    iterate b fuel ⟨row, place⟩ = some (b.rows.flatten.drop index) := by
  induction fuel generalizing index row place with
  | zero => exact absurd h.index_lt (by omega)
  | succ fuel ih =>
    have hindex : index < b.rows.flatten.length := h.index_lt
    have hvalue : b.rows.flatten.drop index =
        b.rows.flatten[index] :: b.rows.flatten.drop (index + 1) :=
      drop_eq_getElem_cons hindex
    have hderef : (⟨row, place⟩ : ConstTupleIterator).deref b = some b.rows.flatten[index] := by
      unfold deref
      rw [entry_eq, ← h.getElem?]
      exact getElem?_eq_getElem hindex
    have hnotEnd : (⟨row, place⟩ : ConstTupleIterator).isAtEnd b = false := by
      unfold isAtEnd
      rw [chunkSize_eq, decide_eq_false_iff_not]
      exact Nat.not_le.mpr h.1
    unfold iterate
    rw [hnotEnd, hderef, if_neg Bool.false_ne_true, Option.bind_some, hvalue]
    have hrest : iterate b fuel ((⟨row, place⟩ : ConstTupleIterator).next b) =
        some (b.rows.flatten.drop (index + 1)) := by
      unfold next
      rw [chunkSize_eq, ← length_rows]
      dsimp only
      by_cases hplace : place + 1 < (b.rows.getD row []).length
      · rw [if_neg (by omega)]
        exact ih (h.succ_place hplace) (by omega)
      · by_cases hrow : row + 1 < b.rows.length
        · rw [if_pos ⟨Nat.not_lt.mp hplace, hrow⟩]
          exact ih (h.succ_row hdense (Nat.not_lt.mp hplace) hrow) (by omega)
        · have hlast := h.last (Nat.not_lt.mp hplace) (Nat.not_lt.mp hrow)
          rw [if_neg (by omega), hlast, drop_length]
          cases fuel with
          | zero => omega
          | succ fuel =>
            unfold iterate isAtEnd
            rw [chunkSize_eq, if_pos (decide_eq_true (Nat.not_lt.mp hplace))]
    rw [hrest]
    rfl

/-- An iterator that starts in an empty chunk is at the end. -/
theorem iterate_start_of_empty (hfirst : b.rows.getD 0 [] = []) (fuel : ℕ) :
    iterate b (fuel + 1) start = some [] := by
  have hend : start.isAtEnd b = true := by
    unfold isAtEnd start
    rw [chunkSize_eq]
    dsimp only
    rw [hfirst]
    rfl
  unfold iterate
  rw [if_pos hend]

/-- The comparisons of the positions of two elements agree with their indices. -/
def Ordered (b : ChunkBuffer α) : Prop :=
  ∀ index row place index' row' place', IsPosition b.rows index row place →
    IsPosition b.rows index' row' place' →
      (eq ⟨row, place⟩ ⟨row', place'⟩ = true ↔ index = index') ∧
      (ne ⟨row, place⟩ ⟨row', place'⟩ = true ↔ index ≠ index') ∧
      (ge ⟨row, place⟩ ⟨row', place'⟩ = true ↔ index' ≤ index)

theorem eq_iff (h : IsPosition b.rows index row place) (h' : IsPosition b.rows index' row' place') :
    eq ⟨row, place⟩ ⟨row', place'⟩ = true ↔ index = index' := by
  unfold eq
  rw [decide_eq_true_iff]
  constructor
  · rintro ⟨hrow, hplace⟩
    dsimp only at hrow hplace
    subst hrow hplace
    exact h.index_unique h'
  · rintro rfl
    exact ⟨h.row_unique h', h.place_unique h'⟩

theorem ge_iff (h : IsPosition b.rows index row place) (h' : IsPosition b.rows index' row' place') :
    ge ⟨row, place⟩ ⟨row', place'⟩ = true ↔ row' < row ∨ index = index' := by
  unfold ge
  rw [decide_eq_true_iff, ← eq_iff h h']
  unfold eq
  rw [decide_eq_true_iff]

/-- The comparisons agree exactly if no chunk has two elements. -/
theorem ordered_iff : Ordered b ↔ ∀ values ∈ b.rows, values.length ≤ 1 := by
  constructor
  · intro hordered values hmem
    by_contra hlong
    obtain ⟨row, hrow, hvalues⟩ := mem_iff_getElem.mp hmem
    have hget : b.rows.getD row [] = values := by
      rw [getD_eq_getElem _ _ hrow, hvalues]
    have hfirst : IsPosition b.rows (rowOffset b.rows row) row 0 :=
      ⟨by rw [hget]; omega, rfl⟩
    have hsecond : IsPosition b.rows (rowOffset b.rows row + 1) row 1 :=
      ⟨by rw [hget]; omega, rfl⟩
    have hge := ((hordered _ _ _ _ _ _ hsecond hfirst).2.2).mpr (Nat.le_succ _)
    rcases (ge_iff hsecond hfirst).mp hge with hlt | heq
    · exact Nat.lt_irrefl _ hlt
    · exact Nat.succ_ne_self _ heq
  · intro hshort index row place index' row' place' h h'
    have hplace : ∀ {i r p}, IsPosition b.rows i r p → p = 0 := by
      intro i r p hpos
      have hlength := hshort (b.rows.getD r []) (by
        rw [getD_eq_getElem _ _ hpos.row_lt]
        exact getElem_mem _)
      have hlt := hpos.1
      omega
    refine ⟨eq_iff h h', ?_, ?_⟩
    · refine Iff.trans ?_ (not_congr (eq_iff h h'))
      unfold ne eq
      rw [decide_eq_true_iff, decide_eq_true_iff, not_and_or]
    · rw [ge_iff h h', h.le_iff h', ← eq_iff h h']
      unfold eq
      rw [decide_eq_true_iff, hplace h, hplace h']
      simp only [and_true, le_refl]
      exact or_congr_right ⟨Eq.symm, Eq.symm⟩

end ConstTupleIterator

namespace ChunkBuffer

open ConstTupleIterator

/-- All views of the buffer agree with a list. -/
structure Agrees (b : ChunkBuffer α) (values : List α) : Prop where
  size : b.getSize = values.length
  index : ∀ index < values.length, b.get index = values[index]?
  visits : ∀ first count, first + count ≤ values.length →
    b.forEachIn first count = some ((List.range' first count).zip ((values.drop first).take count))
  iterates : ∀ fuel, values.length < fuel → iterate b fuel start = some values
  flat : b.flatten = values
  entry : ∀ index row place, IsPosition b.rows index row place →
    b.entry ⟨row, place⟩ = values[index]? ∧ b.getFlatEntryID ⟨row, place⟩ = index
  steps : ∀ index row place row' place', IsPosition b.rows index row place →
    IsPosition b.rows (index + 1) row' place' →
      b.getNext ⟨row, place⟩ = ⟨row', place'⟩ ∧ b.getPrevious ⟨row', place'⟩ = ⟨row, place⟩
  ordered : Ordered b

variable {b : ChunkBuffer α} {values : List α} {tookOver : Bool}

theorem Kept.agrees (h : Kept b values tookOver) (htook : tookOver = false)
    (hfirst : values ≠ [] → b.rows.getD 0 [] ≠ [])
    (hshort : ∀ row ∈ b.rows, row.length ≤ 1) : Agrees b values := by
  have hoffsets := h.offsets htook
  have hflat := h.flat
  refine ⟨h.total, fun index hindex => ?_, fun first count hcount => ?_, fun fuel hfuel => ?_, ?_,
    fun index row place hpos => ⟨?_, getFlatEntryID_eq hpos⟩, ?_, ordered_iff.mpr hshort⟩
  · rw [← hflat] at hindex ⊢
    obtain ⟨row, place, hpos⟩ := exists_isPosition hindex
    exact get_eq hoffsets hpos
  · rw [← hflat] at hcount ⊢
    exact forEachIn_eq hoffsets count hcount
  · by_cases hnil : values = []
    · have hempty : b.rows.getD 0 [] = [] := by
        by_contra hne
        have hlt := (isPosition_zero hne).index_lt
        rw [hflat, hnil] at hlt
        exact Nat.not_lt_zero _ hlt
      rw [hnil]
      obtain ⟨fuel, rfl⟩ := Nat.exists_eq_succ_of_ne_zero (Nat.ne_zero_of_lt hfuel)
      exact iterate_start_of_empty hempty fuel
    · have hpos := isPosition_zero (hfirst hnil)
      have hall := iterate_eq h.dense fuel hpos (by rw [hflat]; omega)
      rw [hflat] at hall
      exact hall
  · rw [flatten_eq, hflat]
  · rw [entry_eq, ← hpos.getElem?, hflat]
  · intro index row place row' place' hpos hpos'
    exact ⟨getNext_eq h.dense hpos hpos', getPrevious_eq h.dense hpos hpos'⟩

variable [Inhabited α]

/-- The views agree with the list that a history makes exactly if the buffer did not take over a
vector that is not empty, or was cleared since; the first chunk is not empty, or all are; and no
chunk has two values. -/
theorem agrees_iff (initialSize : ℕ) (growth : VectorGrowth) (h : History α) :
    Agrees (h.buffer initialSize growth) h.logical ↔
      h.tookOver = false ∧
      (h.logical ≠ [] → (h.buffer initialSize growth).rows.getD 0 [] ≠ []) ∧
      ∀ row ∈ (h.buffer initialSize growth).rows, row.length ≤ 1 := by
  have hkept := kept_run initialSize growth h
  constructor
  · intro hagrees
    refine ⟨?_, fun hne hempty => ?_, ordered_iff.mp hagrees.ordered⟩
    · by_contra htook
      have htaken := hkept.takenOver (Bool.eq_true_of_not_eq_false htook)
      have hlength := length_pos_iff.mpr htaken.values_ne
      have hget := hagrees.index 0 hlength
      rw [htaken.get_zero, getElem?_eq_getElem hlength] at hget
      cases hget
    · have hiterates := hagrees.iterates (h.logical.length + 1) (Nat.lt_succ_self _)
      rw [iterate_start_of_empty hempty] at hiterates
      exact hne (Option.some.inj hiterates).symm
  · rintro ⟨htook, hfirst, hshort⟩
    exact hkept.agrees htook hfirst hshort

def doubling : VectorGrowth where
  next := fun capacity => if capacity = 0 then 1 else 2 * capacity
  lt_next := by
    intro capacity
    split <;> omega

/-- Two values in the first chunk: the iterator at the second is not at or behind the first. -/
theorem not_agrees_pushBack : ¬ Agrees
    ((⟨.empty, [.pushBack 0, .pushBack 1]⟩ : History ℕ).buffer 1024 doubling)
    (⟨.empty, [.pushBack 0, .pushBack 1]⟩ : History ℕ).logical := by
  intro hagrees
  have hge : ConstTupleIterator.ge ⟨0, 1⟩ ⟨0, 0⟩ = true :=
    ((hagrees.ordered 1 0 1 0 0 0 ⟨by decide, by decide⟩
      ⟨by decide, by decide⟩).2.2).mpr (by decide)
  cases hge

end ChunkBuffer

end DashQL.Utils
