import Mathlib

/-!
# The Base64 codecs

Both encoders turn three bytes into four letters, and what is left over into one letter
more than there are bytes.  The decoder looks the letters up and puts the bytes together
again.  It never asks where the padding starts: what it makes of the padding lies behind
the end of its buffer, so the size of the buffer decides (`bufferLength_encode`).

Strings are lists of their UTF-16 code units.
-/

namespace DashQL.Base64

open List Option

/-! ## Tables -/

/-- An alphabet of 64 letters in front of code unit 256, without the padding. -/
structure Alphabet where
  letters : List ℕ
  length_letters : letters.length = 64
  nodup : letters.Nodup
  small : ∀ letter ∈ letters, letter < 256

/-- `=`. -/
def padLetter : ℕ := '='.toNat

def base64TableDefault : Alphabet where
  letters := "ABCDEFGHIJKLMNOPQRSTUVWXYZabcdefghijklmnopqrstuvwxyz0123456789+/".toList.map Char.toNat
  length_letters := by decide +kernel
  nodup := by decide +kernel
  small := by decide +kernel

def base64TableUrl : Alphabet where
  letters := "ABCDEFGHIJKLMNOPQRSTUVWXYZabcdefghijklmnopqrstuvwxyz0123456789-_".toList.map Char.toNat
  length_letters := by decide +kernel
  nodup := by decide +kernel
  small := by decide +kernel

namespace Alphabet

variable (alphabet : Alphabet)

def letter (bits : ℕ) : ℕ := alphabet.letters.getD bits 0

def lookupTable : List ℕ :=
  alphabet.letters.zipIdx.foldl (fun table entry => table.set entry.1 entry.2)
    (List.replicate 256 0xFF)

/-- The six bits for a code unit.  Behind the table they are undefined, which the bit operations take
for zero. -/
def lookup (unit : ℕ) : ℕ := (alphabet.lookupTable[unit]?).getD 0

end Alphabet

/-! ## Encoding -/

section Encoding

variable (alphabet : Alphabet) (padding : Bool)

/-- `encode`: three bytes at once, then the remainder, with padding or without. -/
def encode : List UInt8 → List ℕ
  | a :: b :: c :: rest =>
    alphabet.letter (a.toNat >>> 2) ::
    alphabet.letter (((a.toNat &&& 3) <<< 4) ||| (b.toNat >>> 4)) ::
    alphabet.letter (((b.toNat &&& 15) <<< 2) ||| (c.toNat >>> 6)) ::
    alphabet.letter (c.toNat &&& 63) :: encode rest
  | [a, b] =>
    alphabet.letter (a.toNat >>> 2) ::
    alphabet.letter (((a.toNat &&& 3) <<< 4) ||| (b.toNat >>> 4)) ::
    alphabet.letter ((b.toNat &&& 15) <<< 2) :: if padding then [padLetter] else []
  | [a] =>
    alphabet.letter (a.toNat >>> 2) ::
    alphabet.letter ((a.toNat &&& 3) <<< 4) :: if padding then [padLetter, padLetter] else []
  | [] => []

end Encoding

/-! ## Decoding -/

section Decoding

variable (alphabet : Alphabet)

/-- The bytes that `decode` writes, one after the other: four letters at once, then the remainder. -/
def decodeGroups : List ℕ → List UInt8
  | first :: second :: third :: fourth :: rest =>
    let encoded1 := alphabet.lookup first
    let encoded2 := alphabet.lookup second
    let encoded3 := alphabet.lookup third
    let encoded4 := alphabet.lookup fourth
    UInt8.ofNat ((encoded1 <<< 2) ||| (encoded2 >>> 4)) ::
    UInt8.ofNat (((encoded2 &&& 15) <<< 4) ||| (encoded3 >>> 2)) ::
    UInt8.ofNat (((encoded3 &&& 3) <<< 6) ||| (encoded4 &&& 63)) :: decodeGroups rest
  | [first, second, third] =>
    let encoded1 := alphabet.lookup first
    let encoded2 := alphabet.lookup second
    let encoded3 := alphabet.lookup third
    [UInt8.ofNat ((encoded1 <<< 2) ||| (encoded2 >>> 4)),
      UInt8.ofNat (((encoded2 &&& 15) <<< 4) ||| (encoded3 >>> 2))]
  | [first, second] =>
    let encoded1 := alphabet.lookup first
    let encoded2 := alphabet.lookup second
    [UInt8.ofNat ((encoded1 <<< 2) ||| (encoded2 >>> 4))]
  | _ => []

/-- A buffer of zeros with bytes written to it.  What is written behind its end is lost. -/
def writeBuffer (size : ℕ) (bytes : List UInt8) : List UInt8 :=
  bytes.take size ++ List.replicate (size - bytes.length) 0

end Decoding

/-! ## The codecs -/

namespace Base64Codec

def encode (bytes : List UInt8) : List ℕ := Base64.encode base64TableDefault true bytes

def bufferLength (base64 : List ℕ) : ℤ :=
  let bufferLength : ℤ := base64.length * 3 / 4
  if 1 ≤ base64.length ∧ base64[base64.length - 1]? = some padLetter then
    if 2 ≤ base64.length ∧ base64[base64.length - 2]? = some padLetter then bufferLength - 2
    else bufferLength - 1
  else bufferLength

/-- `Base64Codec.decode`.  A buffer of negative length is a range error. -/
def decode (base64 : List ℕ) : Option (List UInt8) :=
  if bufferLength base64 < 0 then none
  else some (writeBuffer (bufferLength base64).toNat (decodeGroups base64TableDefault base64))

end Base64Codec

namespace Base64UrlCodec

def encode (bytes : List UInt8) : List ℕ := Base64.encode base64TableUrl false bytes

def getDecodedSize (base64 : List ℕ) : ℕ :=
  let rem := base64.length % 4
  base64.length / 4 * 3 + if 3 ≤ rem then 2 else if 2 ≤ rem then 1 else 0

def decode (base64 : List ℕ) : List UInt8 :=
  writeBuffer (getDecodedSize base64) (decodeGroups base64TableUrl base64)

end Base64UrlCodec

/-! ## Bits -/

section Bits

theorem or_eq_add {x y k : ℕ} (hy : y < 2 ^ k) : x <<< k ||| y = x * 2 ^ k + y := by
  rw [← Nat.shiftLeft_add_eq_or_of_lt hy, Nat.shiftLeft_eq]

/-- Six bits of a byte, and what is left of it. -/
theorem sextets (a b c : UInt8) :
    a.toNat >>> 2 = a.toNat / 4 ∧
    ((a.toNat &&& 3) <<< 4) ||| (b.toNat >>> 4) = a.toNat % 4 * 16 + b.toNat / 16 ∧
    ((b.toNat &&& 15) <<< 2) ||| (c.toNat >>> 6) = b.toNat % 16 * 4 + c.toNat / 64 ∧
    c.toNat &&& 63 = c.toNat % 64 := by
  have hb := b.toNat_lt
  have hc := c.toNat_lt
  have hmask2 : a.toNat &&& 3 = a.toNat % 4 := Nat.and_two_pow_sub_one_eq_mod a.toNat 2
  have hmask4 : b.toNat &&& 15 = b.toNat % 16 := Nat.and_two_pow_sub_one_eq_mod b.toNat 4
  refine ⟨Nat.shiftRight_eq_div_pow _ 2, ?_, ?_, Nat.and_two_pow_sub_one_eq_mod c.toNat 6⟩
  · rw [hmask2, Nat.shiftRight_eq_div_pow, or_eq_add (by omega)]
    norm_num
  · rw [hmask4, Nat.shiftRight_eq_div_pow, or_eq_add (by omega)]
    norm_num

/-- Six bits each. -/
theorem sextets_lt (a b c : UInt8) :
    a.toNat >>> 2 < 64 ∧ ((a.toNat &&& 3) <<< 4) ||| (b.toNat >>> 4) < 64 ∧
    ((b.toNat &&& 15) <<< 2) ||| (c.toNat >>> 6) < 64 ∧ c.toNat &&& 63 < 64 := by
  obtain ⟨h1, h2, h3, h4⟩ := sextets a b c
  have ha := a.toNat_lt
  have hb := b.toNat_lt
  have hc := c.toNat_lt
  rw [h1, h2, h3, h4]
  omega

/-- Bytes from six bits each. -/
theorem octets {e1 e2 e3 e4 : ℕ} (h2 : e2 < 64) (h3 : e3 < 64) :
    (e1 <<< 2) ||| (e2 >>> 4) = e1 * 4 + e2 / 16 ∧
    ((e2 &&& 15) <<< 4) ||| (e3 >>> 2) = e2 % 16 * 16 + e3 / 4 ∧
    ((e3 &&& 3) <<< 6) ||| (e4 &&& 63) = e3 % 4 * 64 + e4 % 64 := by
  have hmask4 : e2 &&& 15 = e2 % 16 := Nat.and_two_pow_sub_one_eq_mod e2 4
  have hmask2 : e3 &&& 3 = e3 % 4 := Nat.and_two_pow_sub_one_eq_mod e3 2
  have hmask6 : e4 &&& 63 = e4 % 64 := Nat.and_two_pow_sub_one_eq_mod e4 6
  refine ⟨?_, ?_, ?_⟩
  · rw [Nat.shiftRight_eq_div_pow, or_eq_add (by omega)]
    norm_num
  · rw [hmask4, Nat.shiftRight_eq_div_pow, or_eq_add (by omega)]
    norm_num
  · rw [hmask2, hmask6, or_eq_add (by omega)]
    norm_num

/-- The bytes are put together again. -/
theorem octets_sextets (a b c : UInt8) :
    UInt8.ofNat (((a.toNat >>> 2) <<< 2) |||
      ((((a.toNat &&& 3) <<< 4) ||| (b.toNat >>> 4)) >>> 4)) = a ∧
    UInt8.ofNat ((((((a.toNat &&& 3) <<< 4) ||| (b.toNat >>> 4)) &&& 15) <<< 4) |||
      ((((b.toNat &&& 15) <<< 2) ||| (c.toNat >>> 6)) >>> 2)) = b ∧
    UInt8.ofNat ((((((b.toNat &&& 15) <<< 2) ||| (c.toNat >>> 6)) &&& 3) <<< 6) |||
      ((c.toNat &&& 63) &&& 63)) = c := by
  obtain ⟨-, hlt2, hlt3, -⟩ := sextets_lt a b c
  obtain ⟨h1, h2, h3⟩ := @octets (a.toNat >>> 2) _ _ (c.toNat &&& 63) hlt2 hlt3
  obtain ⟨s1, s2, s3, s4⟩ := sextets a b c
  have ha := a.toNat_lt
  have hb := b.toNat_lt
  have hc := c.toNat_lt
  rw [h1, h2, h3, s1, s2, s3, s4]
  refine ⟨?_, ?_, ?_⟩
  · rw [show a.toNat / 4 * 4 + (a.toNat % 4 * 16 + b.toNat / 16) / 16 = a.toNat by omega,
      UInt8.ofNat_toNat]
  · rw [show (a.toNat % 4 * 16 + b.toNat / 16) % 16 * 16 + (b.toNat % 16 * 4 + c.toNat / 64) / 4 =
        b.toNat by omega, UInt8.ofNat_toNat]
  · rw [show (b.toNat % 16 * 4 + c.toNat / 64) % 4 * 64 + c.toNat % 64 % 64 = c.toNat by omega,
      UInt8.ofNat_toNat]

end Bits

/-! ## Letters -/

namespace Alphabet

variable {alphabet : Alphabet}

theorem letter_mem {bits : ℕ} (hbits : bits < 64) : alphabet.letter bits ∈ alphabet.letters := by
  have hlt : bits < alphabet.letters.length := by rw [alphabet.length_letters]; exact hbits
  rw [letter, getD_eq_getElem _ _ hlt]
  exact getElem_mem hlt

/-- Where distinct letters are written to a table, they are found. -/
theorem getElem?_foldl_set {table : List ℕ} : ∀ {letters : List ℕ} {letter bits : ℕ},
    letters.Nodup → (∀ letter ∈ letters, letter < table.length) →
    letters[bits]? = some letter →
    (letters.zipIdx.foldl (fun table entry => table.set entry.1 entry.2) table)[letter]? =
      some bits := by
  intro letters
  induction letters using List.reverseRecOn with
  | nil =>
    intro letter bits _ _ h
    simp at h
  | append_singleton letters last ih =>
    intro letter bits hnodup hsmall h
    obtain ⟨hnodup', -, hfresh⟩ := nodup_append.mp hnodup
    have hlength : ∀ entries : List (ℕ × ℕ),
        (entries.foldl (fun table entry => table.set entry.1 entry.2) table).length =
          table.length := by
      intro entries
      induction entries using List.reverseRecOn with
      | nil => rfl
      | append_singleton entries entry ih =>
        rw [foldl_append, foldl_cons, foldl_nil, length_set, ih]
    rw [zipIdx_append, foldl_append]
    show (List.set _ last _)[letter]? = some bits
    rcases Nat.lt_or_ge bits letters.length with hlt | hge
    · rw [getElem?_append_left hlt] at h
      have hne : last ≠ letter := fun heq =>
        hfresh letter (List.mem_of_getElem? h) last mem_cons_self heq.symm
      rw [getElem?_set_ne hne]
      exact ih hnodup' (fun letter hletter => hsmall letter (mem_append_left _ hletter)) h
    · rw [getElem?_append_right hge, getElem?_singleton] at h
      split_ifs at h with hbits
      have hlast : last < table.length := hsmall last (by simp)
      obtain rfl := some.inj h
      rw [getElem?_set_self (by rw [hlength]; exact hlast)]
      congr 1
      omega

/-- The lookup table takes letters back. -/
theorem lookup_letter {bits : ℕ} (hbits : bits < 64) :
    alphabet.lookup (alphabet.letter bits) = bits := by
  have hlt : bits < alphabet.letters.length := by rw [alphabet.length_letters]; exact hbits
  have hletter : alphabet.letters[bits]? = some (alphabet.letter bits) := by
    rw [letter, getD_eq_getElem _ _ hlt, getElem?_eq_getElem hlt]
  have hsmall : ∀ letter ∈ alphabet.letters, letter < (List.replicate 256 0xFF).length := by
    rw [length_replicate]
    exact alphabet.small
  unfold lookup lookupTable
  rw [getElem?_foldl_set alphabet.nodup hsmall hletter, getD_some]

end Alphabet

/-! ## Round trips -/

section RoundTrips

variable {alphabet : Alphabet} {padding : Bool}

/-- How many letters of padding there are. -/
def paddingOf (padding : Bool) (bytes : List UInt8) : ℕ :=
  if padding then (3 - bytes.length % 3) % 3 else 0

/-- How many letters of the alphabet there are. -/
def lettersOf (bytes : List UInt8) : ℕ :=
  bytes.length / 3 * 4 + if bytes.length % 3 = 0 then 0 else bytes.length % 3 + 1

theorem length_mod_group (a b c : UInt8) (rest : List UInt8) :
    (a :: b :: c :: rest).length % 3 = rest.length % 3 := by
  simp only [length_cons]
  omega

theorem lettersOf_group (a b c : UInt8) (rest : List UInt8) :
    lettersOf (a :: b :: c :: rest) = lettersOf rest + 4 := by
  unfold lettersOf
  rw [length_mod_group]
  simp only [length_cons]
  omega

theorem paddingOf_group (a b c : UInt8) (rest : List UInt8) :
    paddingOf padding (a :: b :: c :: rest) = paddingOf padding rest := by
  unfold paddingOf
  rw [length_mod_group]

section

variable (bytes : List UInt8)

include bytes

theorem encode_letters :
    ∃ text, (∀ letter ∈ text, letter ∈ alphabet.letters) ∧
    text.length = lettersOf bytes ∧ encode alphabet padding bytes =
      text ++ List.replicate (paddingOf padding bytes) padLetter := by
  induction bytes using encode.induct with
  | case1 a b c rest ih =>
    obtain ⟨text, hmem, hlength, hencode⟩ := ih
    obtain ⟨h1, h2, h3, h4⟩ := sextets_lt a b c
    refine ⟨alphabet.letter (a.toNat >>> 2) ::
      alphabet.letter (((a.toNat &&& 3) <<< 4) ||| (b.toNat >>> 4)) ::
      alphabet.letter (((b.toNat &&& 15) <<< 2) ||| (c.toNat >>> 6)) ::
      alphabet.letter (c.toNat &&& 63) :: text, ?_, ?_, ?_⟩
    · simp only [forall_mem_cons]
      exact ⟨Alphabet.letter_mem h1, Alphabet.letter_mem h2, Alphabet.letter_mem h3,
        Alphabet.letter_mem h4, hmem⟩
    · rw [lettersOf_group, ← hlength]
      rfl
    · rw [encode, hencode, paddingOf_group]
      rfl
  | case2 a b =>
    obtain ⟨h1, h2, h3, -⟩ := sextets_lt a b 0
    refine ⟨[alphabet.letter (a.toNat >>> 2),
      alphabet.letter (((a.toNat &&& 3) <<< 4) ||| (b.toNat >>> 4)),
      alphabet.letter ((b.toNat &&& 15) <<< 2)], ?_, by simp [lettersOf], ?_⟩
    · simp only [forall_mem_cons]
      exact ⟨Alphabet.letter_mem h1, Alphabet.letter_mem h2,
        Alphabet.letter_mem ((Nat.or_zero _).symm.trans_lt h3), forall_mem_nil _⟩
    · rw [encode]
      cases padding <;> rfl
  | case3 a =>
    obtain ⟨h1, h2, -, -⟩ := sextets_lt a 0 0
    refine ⟨[alphabet.letter (a.toNat >>> 2), alphabet.letter ((a.toNat &&& 3) <<< 4)], ?_,
      by simp [lettersOf], ?_⟩
    · simp only [forall_mem_cons]
      exact ⟨Alphabet.letter_mem h1, Alphabet.letter_mem ((Nat.or_zero _).symm.trans_lt h2),
        forall_mem_nil _⟩
    · rw [encode]
      cases padding <;> rfl
  | case4 =>
    refine ⟨[], forall_mem_nil _, rfl, ?_⟩
    cases padding <;> rfl

/-- What is decoded starts with what was encoded. -/
theorem decodeGroups_encode : bytes <+: decodeGroups alphabet (encode alphabet padding bytes) := by
  induction bytes using encode.induct with
  | case1 a b c rest ih =>
    obtain ⟨h1, h2, h3, h4⟩ := sextets_lt a b c
    obtain ⟨ha, hb, hc⟩ := octets_sextets a b c
    simp only [encode, decodeGroups, Alphabet.lookup_letter h1, Alphabet.lookup_letter h2,
      Alphabet.lookup_letter h3, Alphabet.lookup_letter h4, ha, hb, hc, List.cons_prefix_cons,
      true_and]
    exact ih
  | case2 a b =>
    obtain ⟨h1, h2, h3, -⟩ := sextets_lt a b 0
    obtain ⟨ha, hb, -⟩ := octets_sextets a b 0
    have h3' : ((b.toNat &&& 15) <<< 2) < 64 := (Nat.or_zero _).symm.trans_lt h3
    have hzero : ((b.toNat &&& 15) <<< 2) ||| ((0 : UInt8).toNat >>> 6) = (b.toNat &&& 15) <<< 2 :=
      Nat.or_zero _
    rw [hzero] at hb
    cases padding with
    | false =>
      simp only [encode, decodeGroups, Alphabet.lookup_letter h1, Alphabet.lookup_letter h2,
        Alphabet.lookup_letter h3', Bool.false_eq_true, if_false, ha, hb, List.prefix_rfl]
    | true =>
      simp only [encode, decodeGroups, Alphabet.lookup_letter h1, Alphabet.lookup_letter h2,
        Alphabet.lookup_letter h3', if_true, ha, hb]
      exact ⟨[_], rfl⟩
  | case3 a =>
    obtain ⟨h1, h2, -, -⟩ := sextets_lt a 0 0
    obtain ⟨ha, -, -⟩ := octets_sextets a 0 0
    have h2' : ((a.toNat &&& 3) <<< 4) < 64 := (Nat.or_zero _).symm.trans_lt h2
    have hzero : ((a.toNat &&& 3) <<< 4) ||| ((0 : UInt8).toNat >>> 4) = (a.toNat &&& 3) <<< 4 :=
      Nat.or_zero _
    rw [hzero] at ha
    cases padding with
    | false =>
      simp only [encode, decodeGroups, Alphabet.lookup_letter h1, Alphabet.lookup_letter h2',
        Bool.false_eq_true, if_false, ha, List.prefix_rfl]
    | true =>
      simp only [encode, decodeGroups, Alphabet.lookup_letter h1, Alphabet.lookup_letter h2',
        if_true, ha]
      exact ⟨[_, _], rfl⟩
  | case4 => exact List.nil_prefix

/-- A buffer of the right size holds what was encoded. -/
theorem writeBuffer_encode :
    writeBuffer bytes.length
    (decodeGroups alphabet (encode alphabet padding bytes)) = bytes := by
  obtain ⟨more, hmore⟩ := @decodeGroups_encode alphabet padding bytes
  unfold writeBuffer
  rw [← hmore, take_left, length_append,
    Nat.sub_eq_zero_of_le (Nat.le_add_right _ _), replicate_zero, append_nil]

/-- The size of the buffer is read off the padding. -/
theorem bufferLength_encode :
    Base64Codec.bufferLength (Base64Codec.encode bytes) = bytes.length := by
  obtain ⟨text, hmem, hlength, hencode⟩ := @encode_letters base64TableDefault true bytes
  have hpad : padLetter ∉ base64TableDefault.letters := by decide +kernel
  have hlast : ∀ i : ℕ, i < text.length →
      (text ++ List.replicate (paddingOf true bytes) padLetter)[i]? ≠ some padLetter := by
    intro i hi heq
    rw [getElem?_append_left hi] at heq
    exact hpad (hmem _ (List.mem_of_getElem? heq))
  have hbehind : ∀ i : ℕ, text.length ≤ i → i < text.length + paddingOf true bytes →
      (text ++ List.replicate (paddingOf true bytes) padLetter)[i]? = some padLetter := by
    intro i hi hlt
    rw [getElem?_append_right hi, getElem?_replicate, if_pos (by omega)]
  unfold Base64Codec.bufferLength Base64Codec.encode
  rw [hencode]
  have htotal : (text ++ List.replicate (paddingOf true bytes) padLetter).length =
      text.length + paddingOf true bytes := by
    rw [length_append, length_replicate]
  simp only [htotal]
  rw [hlength] at hlast hbehind ⊢
  have hletters : lettersOf bytes = bytes.length / 3 * 4 +
      if bytes.length % 3 = 0 then 0 else bytes.length % 3 + 1 := rfl
  have hpadding : paddingOf true bytes = (3 - bytes.length % 3) % 3 := rfl
  have hrest := Nat.mod_lt bytes.length (by decide : 3 > 0)
  by_cases hfull : bytes.length % 3 = 0
  · -- nothing was padded, and the last letter is one of the alphabet
    rw [hfull] at hpadding
    rw [if_pos hfull] at hletters
    have hnot : ¬ (1 ≤ lettersOf bytes + paddingOf true bytes ∧
        (text ++ List.replicate (paddingOf true bytes) padLetter)[
          lettersOf bytes + paddingOf true bytes - 1]? = some padLetter) :=
      fun h => hlast _ (by omega) h.2
    rw [if_neg hnot]
    omega
  · rw [if_neg hfull] at hletters
    have hone : 1 ≤ lettersOf bytes + paddingOf true bytes ∧
        (text ++ List.replicate (paddingOf true bytes) padLetter)[
          lettersOf bytes + paddingOf true bytes - 1]? = some padLetter :=
      ⟨by omega, hbehind _ (by omega) (by omega)⟩
    rw [if_pos hone]
    by_cases hsingle : bytes.length % 3 = 1
    · have htwo : 2 ≤ lettersOf bytes + paddingOf true bytes ∧
          (text ++ List.replicate (paddingOf true bytes) padLetter)[
            lettersOf bytes + paddingOf true bytes - 2]? = some padLetter :=
        ⟨by omega, hbehind _ (by omega) (by omega)⟩
      rw [if_pos htwo]
      omega
    · have hnot : ¬ (2 ≤ lettersOf bytes + paddingOf true bytes ∧
          (text ++ List.replicate (paddingOf true bytes) padLetter)[
            lettersOf bytes + paddingOf true bytes - 2]? = some padLetter) :=
        fun h => hlast _ (by omega) h.2
      rw [if_neg hnot]
      omega

theorem getDecodedSize_encode :
    Base64UrlCodec.getDecodedSize (Base64UrlCodec.encode bytes) = bytes.length := by
  obtain ⟨text, -, hlength, hencode⟩ := @encode_letters base64TableUrl false bytes
  have htotal : (Base64UrlCodec.encode bytes).length = bytes.length / 3 * 4 +
      if bytes.length % 3 = 0 then 0 else bytes.length % 3 + 1 := by
    rw [Base64UrlCodec.encode, hencode, length_append, length_replicate, hlength]
    rfl
  have hrest := Nat.mod_lt bytes.length (by decide : 3 > 0)
  unfold Base64UrlCodec.getDecodedSize
  simp only [htotal]
  split_ifs <;> omega

theorem base64_decode_encode : Base64Codec.decode (Base64Codec.encode bytes) = some bytes := by
  unfold Base64Codec.decode
  have hsize : ¬ (bytes.length : ℤ) < 0 := by omega
  rw [bufferLength_encode, if_neg hsize, Int.toNat_natCast, Base64Codec.encode, writeBuffer_encode]

theorem base64Url_decode_encode : Base64UrlCodec.decode (Base64UrlCodec.encode bytes) = bytes := by
  unfold Base64UrlCodec.decode
  rw [getDecodedSize_encode, Base64UrlCodec.encode, writeBuffer_encode]

end

/-- Both codecs take back what they encode, in letters of their alphabets and, for the one of them, at
most two letters of padding at the end; what they encoded is encoded again from its bytes. -/
theorem codecs_roundTrip :
    (∀ bytes, Base64Codec.decode (Base64Codec.encode bytes) = some bytes ∧
      (∃ text padding, Base64Codec.encode bytes = text ++ List.replicate padding padLetter ∧
        padding ≤ 2 ∧ ∀ letter ∈ text, letter ∈ base64TableDefault.letters)) ∧
    (∀ bytes, Base64UrlCodec.decode (Base64UrlCodec.encode bytes) = bytes ∧
      ∀ letter ∈ Base64UrlCodec.encode bytes, letter ∈ base64TableUrl.letters) ∧
    (∀ base64 ∈ Set.range Base64Codec.encode,
      (Base64Codec.decode base64).map Base64Codec.encode = some base64) ∧
    ∀ base64 ∈ Set.range Base64UrlCodec.encode,
      Base64UrlCodec.encode (Base64UrlCodec.decode base64) = base64 := by
  refine ⟨fun bytes => ⟨base64_decode_encode bytes, ?_⟩,
    fun bytes => ⟨base64Url_decode_encode bytes, ?_⟩, ?_, ?_⟩
  · obtain ⟨text, hmem, -, hencode⟩ := @encode_letters base64TableDefault true bytes
    have hpadding : paddingOf true bytes = (3 - bytes.length % 3) % 3 := rfl
    exact ⟨text, paddingOf true bytes, hencode, by omega, hmem⟩
  · obtain ⟨text, hmem, -, hencode⟩ := @encode_letters base64TableUrl false bytes
    have hnone : paddingOf false bytes = 0 := rfl
    rw [hnone, replicate_zero, append_nil] at hencode
    rw [Base64UrlCodec.encode, hencode]
    exact hmem
  · intro base64 hbase64
    obtain ⟨bytes, rfl⟩ := hbase64
    rw [base64_decode_encode, map_some]
  · intro base64 hbase64
    obtain ⟨bytes, rfl⟩ := hbase64
    rw [base64Url_decode_encode]

end RoundTrips

end DashQL.Base64
