import Mathlib.Data.List.Basic

/-!
# Length-prefixed chunks

Chunks are written one behind the other, each with its length in front, which is encoded in a fixed
number of units.  A parser cuts such a sequence into its chunks again.  It is strict, or it takes a
last chunk that is shorter than its length says.

The strict parser accepts exactly what was written (`parse_frames`, `frames_of_parse`).  The other
one differs from it exactly where the units end within a chunk (`parse_clamped_iff`).
-/

namespace DashQL

open List Option

/-- A fixed-width encoding of the lengths below a bound. -/
structure LengthCodec (β : Type*) where
  width : ℕ
  bound : ℕ
  encode : ℕ → List β
  decode : List β → ℕ
  width_pos : 0 < width
  length_encode : ∀ n, (encode n).length = width
  decode_encode : ∀ n < bound, decode (encode n) = n
  encode_decode : ∀ units, units.length = width → encode (decode units) = units
  decode_lt : ∀ units, units.length = width → decode units < bound

namespace LengthCodec

variable {β : Type*} (codec : LengthCodec β)

def frames (chunks : List (List β)) : List β :=
  chunks.flatMap fun chunk => codec.encode chunk.length ++ chunk

/-- All lengths can be encoded. -/
def Fits (chunks : List (List β)) : Prop := ∀ chunk ∈ chunks, chunk.length < codec.bound

/-- The units end within a chunk. -/
def CutInChunk (units : List β) : Prop :=
  ∃ chunks n part, codec.Fits chunks ∧ n < codec.bound ∧ part.length < n ∧
    units = codec.frames chunks ++ (codec.encode n ++ part)

/-- Cut the units into chunks; a last chunk may be too short if this is allowed. -/
def parse (clamped : Bool) (units : List β) : Option (List (List β)) :=
  if units = [] then some []
  else if units.length < codec.width then none
  else
    let n := codec.decode (units.take codec.width)
    let rest := units.drop codec.width
    if rest.length < n ∧ clamped = false then none
    else (parse clamped (rest.drop n)).map (rest.take n :: ·)
termination_by units.length
decreasing_by
  have hpos := codec.width_pos
  simp only [length_drop]
  omega

variable {codec} {clamped : Bool} {units rest : List β} {chunks : List (List β)} {n : ℕ}

theorem fits_cons {chunk : List β} :
    codec.Fits (chunk :: chunks) ↔ chunk.length < codec.bound ∧ codec.Fits chunks :=
  forall_mem_cons

theorem frames_cons (chunk : List β) (chunks : List (List β)) :
    codec.frames (chunk :: chunks) = codec.encode chunk.length ++ (chunk ++ codec.frames chunks) := by
  rw [frames, flatMap_cons, append_assoc]
  rfl

/-! ## Parsing the front -/

@[simp] theorem parse_nil : codec.parse clamped [] = some [] := by
  rw [parse]
  exact if_pos rfl

theorem parse_of_short (hnil : units ≠ []) (h : units.length < codec.width) :
    codec.parse clamped units = none := by
  rw [parse, if_neg hnil, if_pos h]

theorem parse_encode (hn : n < codec.bound) :
    codec.parse clamped (codec.encode n ++ rest) =
      if rest.length < n ∧ clamped = false then none
      else (codec.parse clamped (rest.drop n)).map (rest.take n :: ·) := by
  have hlength := codec.length_encode n
  have hpos := codec.width_pos
  have hnil : codec.encode n ++ rest ≠ [] := by
    refine ne_nil_of_length_pos ?_
    rw [length_append]
    omega
  have hlong : ¬ (codec.encode n ++ rest).length < codec.width := by
    rw [length_append]
    omega
  rw [parse, if_neg hnil, if_neg hlong]
  dsimp only
  rw [take_left' hlength, drop_left' hlength, codec.decode_encode n hn]

/-- Units are empty, too short for a length, or begin with a length. -/
theorem front_cases (units : List β) :
    units = [] ∨ (units ≠ [] ∧ units.length < codec.width) ∨
      ∃ n rest, n < codec.bound ∧ units = codec.encode n ++ rest := by
  by_cases hnil : units = []
  · exact .inl hnil
  · refine .inr ?_
    by_cases hshort : units.length < codec.width
    · exact .inl ⟨hnil, hshort⟩
    · have htake : (units.take codec.width).length = codec.width := by
        rw [length_take]
        omega
      refine .inr ⟨codec.decode (units.take codec.width), units.drop codec.width,
        codec.decode_lt _ htake, ?_⟩
      rw [codec.encode_decode _ htake, take_append_drop]

/-! ## Parsing what was written -/

theorem parse_frames_append (h : codec.Fits chunks) (units : List β) :
    codec.parse clamped (codec.frames chunks ++ units) =
      (codec.parse clamped units).map (chunks ++ ·) := by
  induction chunks with
  | nil =>
    change codec.parse clamped units = _
    simp
  | cons chunk chunks ih =>
    obtain ⟨hchunk, hchunks⟩ := fits_cons.mp h
    have hlong : ¬ ((chunk ++ (codec.frames chunks ++ units)).length < chunk.length ∧
        clamped = false) := by
      rw [length_append]
      omega
    rw [frames_cons, append_assoc, append_assoc, parse_encode hchunk, if_neg hlong,
      drop_left, take_left, ih hchunks, Option.map_map]
    rfl

theorem parse_frames (h : codec.Fits chunks) : codec.parse clamped (codec.frames chunks) = some chunks := by
  have happend := @parse_frames_append β codec clamped chunks h []
  rw [append_nil, parse_nil, map_some, append_nil] at happend
  exact happend

/-- What the strict parser accepts was written. -/
theorem frames_of_parse (h : codec.parse false units = some chunks) :
    codec.frames chunks = units ∧ codec.Fits chunks := by
  induction hlength : units.length using Nat.strongRecOn generalizing units chunks with
  | ind length ih =>
    rcases @front_cases β codec units with rfl | ⟨hnil, hshort⟩ | ⟨n, rest, hn, rfl⟩
    · rw [parse_nil] at h
      obtain rfl := some.inj h
      exact ⟨rfl, fun chunk hchunk => absurd hchunk not_mem_nil⟩
    · rw [parse_of_short hnil hshort] at h
      exact absurd h.symm (some_ne_none _)
    · rw [parse_encode hn] at h
      split_ifs at h with hcut
      have hle : n ≤ rest.length := by
        by_contra hlt
        exact hcut ⟨Nat.lt_of_not_le hlt, rfl⟩
      obtain ⟨tail, htail, rfl⟩ := map_eq_some_iff.mp h
      have hpos := codec.width_pos
      have hencode := codec.length_encode n
      rw [length_append] at hlength
      have hdrop : (rest.drop n).length < length := by
        rw [length_drop]
        omega
      obtain ⟨hframes, hfits⟩ := ih _ hdrop htail rfl
      have htake : (rest.take n).length = n := by
        rw [length_take]
        omega
      refine ⟨?_, fits_cons.mpr ⟨by rw [htake]; exact hn, hfits⟩⟩
      rw [frames_cons, htake, hframes, take_append_drop]

/-- The strict parser rejects exactly what was not written. -/
theorem parse_eq_none_iff :
    codec.parse false units = none ↔ ¬ ∃ chunks, codec.Fits chunks ∧ codec.frames chunks = units := by
  constructor
  · rintro hnone ⟨chunks, hfits, rfl⟩
    rw [parse_frames hfits] at hnone
    exact absurd hnone (some_ne_none _)
  · intro hwritten
    cases hparse : codec.parse false units with
    | none => rfl
    | some chunks =>
      obtain ⟨hframes, hfits⟩ := frames_of_parse hparse
      exact absurd ⟨chunks, hfits, hframes⟩ hwritten

/-! ## A last chunk that is too short -/

theorem parse_clamped_of_cut (h : codec.CutInChunk units) :
    ∃ chunks, codec.parse true units = some chunks ∧ codec.parse false units = none := by
  obtain ⟨chunks, n, part, hfits, hn, hpart, rfl⟩ := h
  refine ⟨chunks ++ [part], ?_, ?_⟩
  · have hallowed : ¬ (part.length < n ∧ true = false) := by simp
    rw [parse_frames_append hfits, parse_encode hn, if_neg hallowed,
      drop_of_length_le (Nat.le_of_lt hpart), take_of_length_le (Nat.le_of_lt hpart), parse_nil]
    rfl
  · rw [parse_frames_append hfits, parse_encode hn, if_pos ⟨hpart, rfl⟩]
    rfl

/-- Where the units do not end within a chunk, both parsers agree. -/
theorem parse_clamped_of_not_cut (h : ¬ codec.CutInChunk units) :
    codec.parse true units = codec.parse false units := by
  induction hlength : units.length using Nat.strongRecOn generalizing units with
  | ind length ih =>
    rcases @front_cases β codec units with rfl | ⟨hnil, hshort⟩ | ⟨n, rest, hn, rfl⟩
    · rw [parse_nil, parse_nil]
    · rw [parse_of_short hnil hshort, parse_of_short hnil hshort]
    · have hle : n ≤ rest.length := by
        by_contra hlt
        exact h ⟨[], n, rest, fun chunk hchunk => absurd hchunk not_mem_nil, hn,
          Nat.lt_of_not_le hlt, rfl⟩
      have hnot : ∀ clamped : Bool, ¬ (rest.length < n ∧ clamped = false) :=
        fun clamped hcut => absurd hcut.1 (Nat.not_lt_of_le hle)
      have htake : (rest.take n).length = n := by
        rw [length_take]
        omega
      have hrest : ¬ codec.CutInChunk (rest.drop n) := by
        rintro ⟨chunks, n', part, hfits, hn', hpart, heq⟩
        refine h ⟨rest.take n :: chunks, n', part, fits_cons.mpr ⟨by rw [htake]; exact hn, hfits⟩,
          hn', hpart, ?_⟩
        rw [frames_cons, htake, append_assoc, append_assoc, ← heq, take_append_drop]
      have hpos := codec.width_pos
      have hencode := codec.length_encode n
      rw [length_append] at hlength
      have hdrop : (rest.drop n).length < length := by
        rw [length_drop]
        omega
      rw [parse_encode hn, parse_encode hn, if_neg (hnot true), if_neg (hnot false),
        ih _ hdrop hrest rfl]

end LengthCodec

end DashQL
