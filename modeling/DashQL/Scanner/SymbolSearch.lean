import DashQL.Scanner.Scan
import DashQL.Utils.ChunkViews

/-!
# The symbol at a text offset

`findSymbol` searches the chunks and then the symbols of a chunk for the last symbol that does not
begin behind an offset.  The symbol for the end of the text does not count, and if it opens a chunk
then the search steps back into the chunk in front, but the id of the chunk stays: the location has
the id of no symbol or of another one.  `findSymbol_located_iff` says that nothing else goes wrong.
-/

namespace DashQL.Scanner

open List Utils Option

variable {κ : Type}

/-- A scanned script: the symbols, in text order and with that for the end of the text as the last,
in chunks that are not empty. -/
structure SymbolStream (κ : Type) where
  /-- The size of the text buffer, which has two zero bytes behind the text. -/
  bufferSize : ℕ
  symbols : ChunkBuffer (Symbol κ)
  tokens : List (Symbol κ)
  eof : Symbol κ
  flatten_eq : symbols.rows.flatten = tokens ++ [eof]
  filled : ∀ row ∈ symbols.rows, row ≠ []
  tokens_isEof : ∀ token ∈ tokens, token.kind.isEof = false
  eof_isEof : eof.kind.isEof = true
  sorted : (tokens ++ [eof]).Pairwise fun symbol other =>
    symbol.location.offset ≤ other.location.offset
  tokens_within : ∀ token ∈ tokens, token.location.offset ≤ max bufferSize 2 - 2

inductive RelativePosition
  | beforeSymbol | afterSymbol | beginOfSymbol | midOfSymbol | endOfSymbol
  deriving DecidableEq

structure SymbolLocationInfo (κ : Type) where
  symbolId : ChunkBufferEntryID
  symbol : Symbol κ
  textOffset : ℕ
  relativePos : RelativePosition
  deriving DecidableEq

structure LocationInfo (κ : Type) where
  current : SymbolLocationInfo κ
  previous : Option (SymbolLocationInfo κ)
  deriving DecidableEq

namespace SymbolStream

variable (script : SymbolStream κ) (textOffset : ℕ)

def getRelativePosition (symbolId : ChunkBufferEntryID) : Option RelativePosition :=
  if symbolId.chunkId ≥ script.symbols.buffers.length then some .afterSymbol
  else do
    let symbol ← script.symbols.entry symbolId
    let symbolBegin := symbol.location.offset
    let symbolEnd := symbol.location.offset + symbol.location.length
    if textOffset < symbolBegin then some .beforeSymbol
    else if textOffset = symbolBegin then some .beginOfSymbol
    else if textOffset = symbolEnd then some .endOfSymbol
    else if textOffset > symbolBegin ∧ textOffset < symbolEnd then some .midOfSymbol
    else some .afterSymbol

def locate (symbolId : ChunkBufferEntryID) (symbol : Symbol κ) : Option (LocationInfo κ) := do
  let relativePos ← script.getRelativePosition textOffset symbolId
  let prevSymbolId := script.symbols.getPrevious symbolId
  let prevSymbol ← script.symbols.entry prevSymbolId
  let prevRelativePos ← script.getRelativePosition textOffset prevSymbolId
  some ⟨⟨symbolId, symbol, textOffset, relativePos⟩,
    some ⟨prevSymbolId, prevSymbol, textOffset, prevRelativePos⟩⟩

/-- The offset that is searched for. -/
def clamp : ℕ := min (max script.bufferSize 2 - 2) textOffset

def isBehind (symbol : Symbol κ) : Bool := textOffset < symbol.location.offset

def findSymbol : Option (LocationInfo κ) :=
  let textOffset := script.clamp textOffset
  let chunks := script.symbols.rows
  let chunkId := (chunks.findIdx fun chunk => chunk.head?.any (isBehind textOffset)) - 1
  let chunk := chunks.getD chunkId []
  let chunkSymbolId := chunk.findIdx (isBehind textOffset) - 1
  do
    let symbol ← chunk[chunkSymbolId]?
    if symbol.kind.isEof then
      if chunkSymbolId = 0 then
        if 0 < chunkId then
          -- the chunk is the one in front, and its id is not
          let chunk := chunks.getD (chunkId - 1) []
          let symbol ← chunk[chunk.length - 1]?
          script.locate textOffset ⟨chunkId, chunk.length - 1⟩ symbol
        else some ⟨⟨⟨0, 0⟩, symbol, textOffset, .beforeSymbol⟩, none⟩
      else
        let symbol ← chunk[chunkSymbolId - 1]?
        script.locate textOffset ⟨chunkId, chunkSymbolId - 1⟩ symbol
    else script.locate textOffset ⟨chunkId, chunkSymbolId⟩ symbol

/-- The location has the id of its symbol, which is the last one in front of the end that begins at
or before the offset, or the first one if there is none. -/
structure Located (info : LocationInfo κ) : Prop where
  id_lt : script.symbols.getFlatEntryID info.current.symbolId < script.symbols.rows.flatten.length
  entry : script.symbols.entry info.current.symbolId = some info.current.symbol
  last : (∀ token ∈ script.tokens, textOffset < token.location.offset) ∧
      script.symbols.getFlatEntryID info.current.symbolId = 0 ∨
    info.current.symbol.kind.isEof = false ∧ info.current.symbol.location.offset ≤ textOffset ∧
      ∀ j token, script.symbols.getFlatEntryID info.current.symbolId < j →
        script.tokens[j]? = some token → textOffset < token.location.offset

/-- The symbol for the end of the text opens a chunk behind others. -/
def EofOpensChunk : Prop := ∃ row, 0 < row ∧ script.symbols.rows[row]? = some [script.eof]

variable {script textOffset} {index row place : ℕ} {symbol : Symbol κ}

theorem dense : Dense script.symbols.rows := by
  intro row _ hlt
  rw [getD_eq_getElem?_getD, getElem?_eq_getElem hlt, getD_some]
  exact script.filled _ (getElem_mem hlt)

theorem entry_of_position (h : IsPosition script.symbols.rows index row place) :
    script.symbols.entry ⟨row, place⟩ = script.symbols.rows.flatten[index]? :=
  (script.symbols.entry_eq _).trans h.getElem?.symm

theorem exists_getElem?_flatten (h : IsPosition script.symbols.rows index row place) :
    ∃ symbol, script.symbols.rows.flatten[index]? = some symbol :=
  ⟨_, getElem?_eq_getElem h.index_lt⟩

theorem zero_of_position (h : IsPosition script.symbols.rows 0 row place) :
    row = 0 ∧ place = 0 := by
  have hfirst : script.symbols.rows.getD 0 [] ≠ [] := by
    have hlt := Nat.zero_lt_of_lt h.row_lt
    rw [getD_eq_getElem?_getD, getElem?_eq_getElem hlt, getD_some]
    exact script.filled _ (getElem_mem hlt)
  exact ⟨h.row_unique (isPosition_zero hfirst), h.place_unique (isPosition_zero hfirst)⟩

theorem exists_relativePosition (h : IsPosition script.symbols.rows index row place) :
    ∃ pos, script.getRelativePosition textOffset ⟨row, place⟩ = some pos := by
  unfold getRelativePosition
  rw [entry_of_position h, getElem?_eq_getElem h.index_lt]
  simp only [bind_eq_bind, bind_some]
  split_ifs <;> exact ⟨_, rfl⟩

theorem exists_locate (h : IsPosition script.symbols.rows index row place) :
    ∃ info, script.locate textOffset ⟨row, place⟩ symbol = some info ∧
      info.current.symbolId = ⟨row, place⟩ ∧ info.current.symbol = symbol := by
  obtain ⟨previous, row', place', hprevious, heq⟩ : ∃ previous row' place',
      IsPosition script.symbols.rows previous row' place' ∧
        script.symbols.getPrevious ⟨row, place⟩ = ⟨row', place'⟩ := by
    cases index with
    | zero =>
      obtain ⟨rfl, rfl⟩ := zero_of_position h
      exact ⟨0, 0, 0, h, rfl⟩
    | succ previous =>
      obtain ⟨row', place', h'⟩ := exists_isPosition (Nat.lt_of_succ_lt h.index_lt)
      exact ⟨previous, row', place', h', ChunkBuffer.getPrevious_eq dense h' h⟩
  obtain ⟨pos, hpos⟩ := @exists_relativePosition κ script textOffset _ _ _ h
  obtain ⟨pos', hpos'⟩ := @exists_relativePosition κ script textOffset _ _ _ hprevious
  obtain ⟨symbol', hsymbol'⟩ := exists_getElem?_flatten hprevious
  unfold locate
  simp only [hpos, heq, hpos', entry_of_position hprevious, hsymbol', bind_eq_bind, bind_some]
  exact ⟨_, rfl, rfl, rfl⟩

theorem current_of_locate {id : ChunkBufferEntryID} {info : LocationInfo κ}
    (h : script.locate textOffset id symbol = some info) :
    info.current.symbolId = id ∧ info.current.symbol = symbol := by
  unfold locate at h
  simp only [bind_eq_bind, bind_eq_some_iff, some.injEq] at h
  obtain ⟨pos, -, previous, -, pos', -, rfl⟩ := h
  exact ⟨rfl, rfl⟩

/-! ## The symbol that is found -/

theorem rows_ne_nil : script.symbols.rows ≠ [] := by
  intro hnil
  have h := script.flatten_eq
  rw [hnil] at h
  simp at h

theorem le_clamp_iff (h : symbol ∈ script.tokens) :
    symbol.location.offset ≤ script.clamp textOffset ↔ symbol.location.offset ≤ textOffset :=
  le_min_iff.trans (and_iff_right (script.tokens_within symbol h))

/-- A symbol is that for the end of the text or one in front of it. -/
theorem symbol_cases (h : script.symbols.rows.flatten[index]? = some symbol) :
    script.tokens[index]? = some symbol ∧ symbol.kind.isEof = false ∨
      index = script.tokens.length ∧ symbol = script.eof := by
  rw [script.flatten_eq] at h
  by_cases hlt : index < script.tokens.length
  · rw [getElem?_append_left hlt] at h
    exact .inl ⟨h, script.tokens_isEof symbol (mem_of_getElem? h)⟩
  · rw [getElem?_append_right (Nat.not_lt.mp hlt)] at h
    have hzero : index - script.tokens.length = 0 := by
      have := (List.getElem?_eq_some_iff.mp h).1
      rw [length_singleton] at this
      omega
    rw [hzero] at h
    exact .inr ⟨by omega, (some.inj h).symm⟩

theorem not_eofOpensChunk (h : IsPosition script.symbols.rows script.tokens.length row place)
    (hfirst : 0 < place ∨ row = 0) : ¬ script.EofOpensChunk := by
  rintro ⟨row', hpos, hrow⟩
  have hget : script.symbols.rows.getD row' [] = [script.eof] := by
    rw [getD_eq_getElem?_getD, hrow, getD_some]
  have h' : IsPosition script.symbols.rows _ row' 0 := ⟨by rw [hget]; exact Nat.one_pos, rfl⟩
  have hsymbol := h'.getElem?
  rw [hget] at hsymbol
  rcases symbol_cases hsymbol with ⟨-, heof⟩ | ⟨hindex, -⟩
  · rw [script.eof_isEof] at heof
    cases heof
  · rw [hindex] at h'
    have := h.row_unique h'
    have := h.place_unique h'
    omega

theorem eofOpensChunk_of_position (h : IsPosition script.symbols.rows script.tokens.length row 0) :
    script.symbols.rows[row]? = some [script.eof] := by
  have hrow := h.row_lt
  have hsome := getElem?_eq_getElem hrow
  have hget : script.symbols.rows.getD row [] = script.symbols.rows[row] := by
    rw [getD_eq_getElem?_getD, hsome, getD_some]
  have hsymbol := h.getElem?
  rw [script.flatten_eq, getElem?_concat_length] at hsymbol
  have hlength : ¬ 1 < (script.symbols.rows.getD row []).length := by
    intro hlt
    have hnext := (h.succ_place hlt).index_lt
    rw [script.flatten_eq, length_append, length_singleton] at hnext
    exact Nat.lt_irrefl _ hnext
  rw [hget] at hsymbol hlength
  generalize script.symbols.rows[row] = chunk at hsome hsymbol hlength
  cases chunk with
  | nil => cases hsymbol
  | cons first rest =>
    obtain rfl : rest = [] := length_eq_zero_iff.mp (by rw [length_cons] at hlength; omega)
    rw [hsome, some.inj hsymbol]

/-- A symbol in front of the end is located if no later one begins at or before the offset. -/
theorem located_of_position {info : LocationInfo κ}
    (h : IsPosition script.symbols.rows index row place)
    (hid : info.current.symbolId = ⟨row, place⟩)
    (htoken : script.tokens[index]? = some info.current.symbol)
    (hbehind : ∀ j token, index < j → script.tokens[j]? = some token →
      textOffset < token.location.offset)
    (hfirst : index = 0 ∨ info.current.symbol.location.offset ≤ textOffset) :
    script.Located textOffset info := by
  have hflat : script.symbols.getFlatEntryID info.current.symbolId = index := by
    rw [hid]
    exact ChunkBuffer.getFlatEntryID_eq h
  refine ⟨hflat.symm ▸ h.index_lt, ?_, ?_⟩
  · rw [hid, entry_of_position h, script.flatten_eq]
    exact (getElem?_append_left (List.getElem?_eq_some_iff.mp htoken).1).trans htoken
  · rw [hflat]
    by_cases hle : info.current.symbol.location.offset ≤ textOffset
    · exact .inr ⟨script.tokens_isEof _ (mem_of_getElem? htoken), hle, hbehind⟩
    · have hzero := hfirst.resolve_right hle
      refine .inl ⟨fun token hmem => ?_, hzero⟩
      obtain ⟨j, hj⟩ := mem_iff_getElem?.mp hmem
      rcases Nat.eq_zero_or_pos j with rfl | hpos
      · rw [hzero] at htoken
        obtain rfl := some.inj (hj.symm.trans htoken)
        omega
      · exact hbehind j token (hzero ▸ hpos) hj

/-- The search finds the last symbol that does not begin behind the offset. -/
theorem exists_found (script : SymbolStream κ) (offset : ℕ) :
    ∃ index row place symbol, IsPosition script.symbols.rows index row place ∧
      (script.symbols.rows.findIdx fun chunk => chunk.head?.any (isBehind offset)) - 1 = row ∧
      (script.symbols.rows.getD row []).findIdx (isBehind offset) - 1 = place ∧
      script.symbols.rows.flatten[index]? = some symbol ∧
      (∀ j other, index < j → script.symbols.rows.flatten[j]? = some other →
        offset < other.location.offset) ∧
      (index = 0 ∨ symbol.location.offset ≤ offset) := by
  have hsorted : script.symbols.rows.flatten.Pairwise fun symbol other =>
      isBehind offset symbol = true → isBehind offset other = true := by
    rw [script.flatten_eq]
    refine script.sorted.imp fun hle hbehind => ?_
    exact decide_eq_true ((of_decide_eq_true hbehind).trans_le hle)
  obtain ⟨index, h, hbehind, hfirst⟩ :=
    exists_searched rows_ne_nil script.filled hsorted rfl rfl
  obtain ⟨symbol, hsymbol⟩ := exists_getElem?_flatten h
  exact ⟨index, _, _, symbol, h, rfl, rfl, hsymbol,
    fun j other hj hother => of_decide_eq_true (hbehind j other hj hother),
    hfirst.imp_right fun hnot => Nat.not_lt.mp (of_decide_eq_false (hnot symbol hsymbol))⟩

/-- The symbol is located exactly if the search does not reach a symbol for the end of the text
that opens a chunk behind others. -/
theorem findSymbol_located_iff (script : SymbolStream κ) (textOffset : ℕ) :
    (∃ info, script.findSymbol textOffset = some info ∧ script.Located textOffset info) ↔
      ¬ (script.EofOpensChunk ∧ script.eof.location.offset ≤ script.clamp textOffset) := by
  obtain ⟨index, row, place, symbol, h, hrow, hplace, hsymbol, hbehind, hfirst⟩ :=
    exists_found script (script.clamp textOffset)
  have htoken (j : ℕ) (token : Symbol κ) (hj : index < j) (hget : script.tokens[j]? = some token) :
      textOffset < token.location.offset := by
    rw [← Nat.not_le, ← le_clamp_iff (mem_of_getElem? hget), Nat.not_le]
    refine hbehind j token hj ?_
    rw [script.flatten_eq]
    exact (getElem?_append_left (List.getElem?_eq_some_iff.mp hget).1).trans hget
  have hget := h.getElem?.symm.trans hsymbol
  unfold findSymbol
  dsimp only
  rw [hrow, hplace, hget]
  simp only [bind_eq_bind, bind_some]
  rcases symbol_cases hsymbol with ⟨hmem, heof⟩ | ⟨rfl, rfl⟩
  · -- a symbol in front of the end is found
    obtain ⟨info, hinfo, hid, hcurrent⟩ := @exists_locate κ script (script.clamp textOffset) _ _ _
      symbol h
    rw [heof, if_neg Bool.false_ne_true]
    refine iff_of_true ⟨info, hinfo, located_of_position h hid (hcurrent ▸ hmem) htoken ?_⟩ ?_
    · rw [hcurrent]
      exact hfirst.imp_right (le_clamp_iff (mem_of_getElem? hmem)).mp
    · rintro ⟨-, hle⟩
      have hlt := (List.getElem?_eq_some_iff.mp hmem).1
      refine absurd (hbehind script.tokens.length script.eof hlt ?_) (Nat.not_lt.mpr hle)
      rw [script.flatten_eq, getElem?_concat_length]
  · rw [script.eof_isEof, if_pos rfl]
    by_cases hzero : place = 0
    · rw [if_pos hzero]
      by_cases hchunk : 0 < row
      · rw [if_pos hchunk]
        subst hzero
        obtain ⟨front, rfl⟩ := Nat.exists_eq_add_one.mpr hchunk
        have hopens := eofOpensChunk_of_position h
        refine iff_of_false ?_ (not_not.mpr ⟨⟨_, hchunk, hopens⟩, ?_⟩)
        · rintro ⟨info, hinfo, hlocated⟩
          obtain ⟨other, hother, hinfo⟩ := bind_eq_some_iff.mp hinfo
          obtain ⟨hid, rfl⟩ := current_of_locate hinfo
          -- the id is one of the chunk behind, which has only the symbol for the end
          have hentry := hlocated.entry
          rw [hid, ChunkBuffer.entry_eq, getD_eq_getElem?_getD, hopens] at hentry
          obtain hcurrent : info.current.symbol = script.eof :=
            mem_singleton.mp (mem_of_getElem? hentry)
          have hfront : IsPosition script.symbols.rows _ front _ :=
            ⟨(List.getElem?_eq_some_iff.mp hother).1, rfl⟩
          rcases symbol_cases (hfront.getElem?.trans hother) with ⟨-, heof⟩ | ⟨hindex, -⟩
          · rw [hcurrent, script.eof_isEof] at heof
            cases heof
          · rw [hindex] at hfront
            exact absurd (h.row_unique hfront) (Nat.succ_ne_self front)
        · refine hfirst.resolve_left fun hlength => ?_
          rw [hlength] at h
          exact absurd (zero_of_position h).1 (Nat.succ_ne_zero front)
      · rw [if_neg hchunk]
        obtain rfl : row = 0 := by omega
        have hnil : script.tokens = [] := by
          have := h.2
          rw [rowOffset_zero] at this
          exact length_eq_zero_iff.mp (by omega)
        refine iff_of_true ⟨_, rfl, ?_⟩ fun hopens => not_eofOpensChunk h (.inr rfl) hopens.1
        subst hzero
        exact ⟨ChunkBuffer.getFlatEntryID_eq h ▸ h.index_lt, (entry_of_position h).trans hsymbol,
          .inl ⟨by simp [hnil], rfl⟩⟩
    · rw [if_neg hzero]
      obtain ⟨before, rfl⟩ := Nat.exists_eq_succ_of_ne_zero hzero
      have hindex := h.2
      have hlt := Nat.lt_of_succ_lt h.1
      have h' : IsPosition script.symbols.rows (script.tokens.length - 1) row before :=
        ⟨hlt, by omega⟩
      obtain ⟨token, htokenAt⟩ := exists_getElem?_flatten h'
      obtain ⟨info, hinfo, hid, rfl⟩ := @exists_locate κ script (script.clamp textOffset) _ _ _
        token h'
      have hmem : script.tokens[script.tokens.length - 1]? = some info.current.symbol := by
        rw [script.flatten_eq, getElem?_append_left (by omega)] at htokenAt
        exact htokenAt
      rw [Nat.succ_sub_one, ← h'.getElem?, htokenAt]
      refine iff_of_true ⟨info, hinfo, located_of_position h' hid hmem (fun j other hj hother => ?_)
        (.inr ?_)⟩ fun hopens => not_eofOpensChunk h (.inl (Nat.succ_pos _)) hopens.1
      · have := (List.getElem?_eq_some_iff.mp hother).1
        omega
      · have htoken := mem_of_getElem? hmem
        rw [← le_clamp_iff htoken]
        refine le_trans ((pairwise_append.mp script.sorted).2.2 _ htoken _ mem_cons_self) ?_
        exact hfirst.resolve_left (by omega)

/-- One symbol that fills its chunk, and the end of the text. -/
def fullChunk : SymbolStream Unit where
  bufferSize := 3
  symbols := ⟨[⟨[⟨.sconst, ⟨0, 1⟩⟩], 1, le_rfl⟩], ⟨[⟨.eof, ⟨1, 1⟩⟩], 1, le_rfl⟩, [0, 1], 1, 2⟩
  tokens := [⟨.sconst, ⟨0, 1⟩⟩]
  eof := ⟨.eof, ⟨1, 1⟩⟩
  flatten_eq := rfl
  filled := by decide
  tokens_isEof := by decide
  eof_isEof := rfl
  sorted := by decide
  tokens_within := by decide

/-- At the end of the text the location of the symbol has the id of the end. -/
theorem not_located_fullChunk : ¬ ∀ (script : SymbolStream Unit) (textOffset : ℕ),
    ∃ info, script.findSymbol textOffset = some info ∧ script.Located textOffset info := by
  intro h
  obtain ⟨info, hinfo, hlocated⟩ := h fullChunk 1
  have hid : (fullChunk.findSymbol 1).map (·.current.symbolId) = some ⟨1, 0⟩ := by decide
  have hsymbol : (fullChunk.findSymbol 1).map (·.current.symbol.kind) = some .sconst := by decide
  rw [hinfo] at hid hsymbol
  have hid : info.current.symbolId = ⟨1, 0⟩ := some.inj hid
  have hsymbol : info.current.symbol.kind = .sconst := some.inj hsymbol
  have hentry := hlocated.entry
  rw [hid] at hentry
  rw [← some.inj hentry] at hsymbol
  cases hsymbol

end SymbolStream

end DashQL.Scanner
