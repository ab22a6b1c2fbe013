import DashQL.Library.Framing

/-!
# Code points in byte buffers

The helpers of `utf8.h`, and `utf8proc_codepoint` as far as it reports the size
of a code point.  A read behind the end of a buffer has no result: the bytes there
are whatever the page held before.

Text is a list of characters; `utf8` is the bytes of a text.  The helpers look at
single bytes, and what they compute on the bytes of a text follows from
`utf8_framing`: a byte begins a character exactly if it is not a continuation
byte.
-/

namespace DashQL.Rope

open List Option

def isCodepointBoundary (byte : UInt8) : Bool :=
  byte < 128 || byte ≥ 192

def utf8 (text : List Char) : List UInt8 := text.flatMap String.utf8EncodeChar

/-! ## The encoding of one character -/

variable {byte : UInt8}

theorem isCodepointBoundary_iff :
    isCodepointBoundary byte = true ↔ byte.toNat < 128 ∨ 192 ≤ byte.toNat := by
  simp [isCodepointBoundary, UInt8.lt_iff_toNat_lt, UInt8.le_iff_toNat_le]

theorem isCodepointBoundary_eq_false_iff :
    isCodepointBoundary byte = false ↔ 128 ≤ byte.toNat ∧ byte.toNat < 192 := by
  rw [← Bool.not_eq_true, isCodepointBoundary_iff]
  omega

theorem utf8_framing : Framing isCodepointBoundary String.utf8EncodeChar where
  frame := by
    intro char
    unfold String.utf8EncodeChar
    dsimp only
    have hvalid : char.val.toNat < 1114112 := by
      rcases char.valid with h | h <;> omega
    generalize char.val.toNat = v at hvalid
    split
    · refine ⟨_, _, rfl, ?_, by simp⟩
      rw [isCodepointBoundary_iff, UInt8.toNat_ofNat']
      omega
    split
    · refine ⟨_, _, rfl, ?_, ?_⟩
      · rw [isCodepointBoundary_iff, UInt8.toNat_ofNat']
        omega
      · simp only [mem_singleton, forall_eq, isCodepointBoundary_eq_false_iff, UInt8.toNat_ofNat']
        omega
    split
    · refine ⟨_, _, rfl, ?_, ?_⟩
      · rw [isCodepointBoundary_iff, UInt8.toNat_ofNat']
        omega
      · simp only [mem_cons, not_mem_nil, or_false, forall_eq_or_imp, forall_eq,
          isCodepointBoundary_eq_false_iff, UInt8.toNat_ofNat']
        omega
    · refine ⟨_, _, rfl, ?_, ?_⟩
      · rw [isCodepointBoundary_iff, UInt8.toNat_ofNat']
        omega
      · simp only [mem_cons, not_mem_nil, or_false, forall_eq_or_imp, forall_eq,
          isCodepointBoundary_eq_false_iff, UInt8.toNat_ofNat']
        omega

/-! ## The bytes of a text -/

@[simp]
theorem utf8_nil : utf8 [] = [] := rfl

@[simp]
theorem utf8_append (left right : List Char) : utf8 (left ++ right) = utf8 left ++ utf8 right :=
  flatMap_append

theorem utf8_cons (char : Char) (text : List Char) :
    utf8 (char :: text) = String.utf8EncodeChar char ++ utf8 text := flatMap_cons

@[simp]
theorem utf8_eq_nil_iff {text : List Char} : utf8 text = [] ↔ text = [] :=
  utf8_framing.flatMap_eq_nil_iff

abbrev IsBoundary (text : List Char) (pos : ℕ) : Prop :=
  IsFrameBoundary isCodepointBoundary (utf8 text) pos

theorem isBoundary_zero (text : List Char) : IsBoundary text 0 :=
  utf8_framing.isFrameBoundary_zero text

/-- Cutting the bytes of a text at a boundary cuts the text. -/
theorem IsBoundary.take_drop {text : List Char} {pos : ℕ} (h : IsBoundary text pos) :
    ∃ count ≤ text.length, (utf8 text).take pos = utf8 (text.take count) ∧
      (utf8 text).drop pos = utf8 (text.drop count) :=
  Framing.take_drop utf8_framing h

/-! ## ASCII bytes -/

theorem utf8EncodeChar_of_ascii {char : Char} (hbyte : byte ∈ String.utf8EncodeChar char)
    (hascii : byte.toNat < 128) : String.utf8EncodeChar char = [byte] := by
  unfold String.utf8EncodeChar at hbyte ⊢
  dsimp only at hbyte ⊢
  have hvalid : char.val.toNat < 1114112 := by
    rcases char.valid with h | h <;> omega
  generalize char.val.toNat = v at hbyte hvalid ⊢
  split
  · rw [if_pos ‹_›, mem_singleton] at hbyte
    rw [hbyte]
  · -- every byte of a longer character has its highest bit set
    exfalso
    have hhigh : 128 ≤ byte.toNat := by
      rw [if_neg ‹_›] at hbyte
      split at hbyte
      · simp only [mem_cons, not_mem_nil, or_false] at hbyte
        rcases hbyte with rfl | rfl <;> rw [UInt8.toNat_ofNat'] <;> omega
      split at hbyte
      · simp only [mem_cons, not_mem_nil, or_false] at hbyte
        rcases hbyte with rfl | rfl | rfl <;> rw [UInt8.toNat_ofNat'] <;> omega
      · simp only [mem_cons, not_mem_nil, or_false] at hbyte
        rcases hbyte with rfl | rfl | rfl | rfl <;> rw [UInt8.toNat_ofNat'] <;> omega
    omega

theorem isBoundary_succ_of_ascii {text : List Char} {idx : ℕ}
    (hbyte : (utf8 text)[idx]? = some byte) (hascii : byte.toNat < 128) :
    IsBoundary text (idx + 1) := by
  induction text generalizing idx with
  | nil => simp at hbyte
  | cons char text ih =>
    rw [utf8_cons] at hbyte
    by_cases hfirst : idx < (String.utf8EncodeChar char).length
    · rw [getElem?_append_left hfirst] at hbyte
      have hencode := utf8EncodeChar_of_ascii (List.mem_of_getElem? hbyte) hascii
      have hidx : idx = 0 := by
        rw [hencode, length_singleton] at hfirst
        omega
      have hlength : (utf8 [char]).length = 1 := by
        rw [utf8_cons, utf8_nil, append_nil, hencode, length_singleton]
      have hboundary := utf8_framing.isFrameBoundary_length [char] text
      rw [hidx, Nat.zero_add, ← hlength]
      exact hboundary
    · rw [getElem?_append_right (by omega)] at hbyte
      obtain ⟨hle, hstart⟩ := ih hbyte
      refine ⟨?_, ?_⟩
      · show _ ≤ (utf8 (char :: text)).length
        rw [utf8_cons, length_append]
        change _ ≤ (utf8 text).length at hle
        omega
      · show ∀ unit ∈ ((utf8 (char :: text)).drop (idx + 1)).head?, _
        rw [utf8_cons, drop_append, drop_eq_nil_of_le (by omega), nil_append]
        have hdrop : idx + 1 - (String.utf8EncodeChar char).length =
            idx - (String.utf8EncodeChar char).length + 1 := by omega
        rw [hdrop]
        exact hstart

/-- No text ends in the first byte of a longer character. -/
theorem getLast?_utf8_lt {text : List Char} (hlast : (utf8 text).getLast? = some byte) :
    byte.toNat < 192 := by
  rcases eq_nil_or_concat' text with rfl | ⟨init, char, rfl⟩
  · simp at hlast
  rw [utf8_append, utf8_cons, utf8_nil, append_nil, getLast?_append] at hlast
  have hlast' : (String.utf8EncodeChar char).getLast? = some byte := by
    have hne := utf8_framing.encode_ne_nil char
    rw [getLast?_eq_some_getLast hne, some_or] at hlast
    rwa [getLast?_eq_some_getLast hne]
  obtain ⟨first, rest, hencode, -, hrest⟩ := utf8_framing.frame char
  rcases eq_nil_or_concat' rest with rfl | ⟨middle, last, rfl⟩
  · rw [hencode, getLast?_singleton] at hlast'
    obtain rfl := some.inj hlast'
    have hsingle := String.length_utf8EncodeChar char
    rw [hencode] at hsingle
    have hascii : char.val.toNat ≤ 127 := by
      rw [length_singleton, eq_comm, Char.utf8Size_eq_one_iff] at hsingle
      exact UInt32.le_iff_toNat_le.mp hsingle
    have hfirst : first = UInt8.ofNat char.val.toNat := by
      rw [String.utf8EncodeChar] at hencode
      rw [if_pos hascii, List.cons.injEq] at hencode
      exact hencode.1.symm
    rw [hfirst, UInt8.toNat_ofNat']
    omega
  · rw [hencode, ← cons_append, getLast?_concat] at hlast'
    obtain rfl := some.inj hlast'
    have hcontinuation := hrest last (by simp)
    rw [isCodepointBoundary_eq_false_iff] at hcontinuation
    exact hcontinuation.2

/-! ## Finding code points -/

/-! ## Byte positions of code points -/

end DashQL.Rope
