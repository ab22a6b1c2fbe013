import Mathlib.Data.List.Basic

/-!
# Hashes and random numbers

The interfaces `Hasher` and `PseudoRandomNumberGenerator` as far as the connections
use them, and `DefaultHasher`, which is `Murmur3_x86_128` with the generator `TycheI`.
-/

namespace DashQL.Signature

/-- A string, as its characters. -/
abbrev Text := List Char

/-- The connections use a hash and the generator that `asPrng` seeds with it, of which they use the
places in a table of sixteen. -/
structure Hasher where
  Hash : Type
  new : Hash
  add : Hash → Text → Hash
  /-- `Math.floor(rng.next() * 16)` of the call with this number. -/
  place : Hash → ℕ → ℕ

/-! ## `Murmur3_x86_128` -/

def c1 : UInt32 := 0x239b961b
def c2 : UInt32 := 0xab0e9789
def c3 : UInt32 := 0x38b34ae5
def c4 : UInt32 := 0xa1e38b93

def rotate (x bits : UInt32) : UInt32 := x <<< bits ||| x >>> (32 - bits)

def fmix32 (h : UInt32) : UInt32 :=
  let h := (h ^^^ h >>> 16) * 0x85ebca6b
  let h := (h ^^^ h >>> 13) * 0xc2b2ae35
  h ^^^ h >>> 16

structure Murmur3 where
  h1 : UInt32
  h2 : UInt32
  h3 : UInt32
  h4 : UInt32
  len : UInt32
  deriving DecidableEq

namespace Murmur3

def withSeed (seed : UInt32) (preserveSeed : Bool) : Murmur3 :=
  if preserveSeed then ⟨seed, seed, seed, seed, 0⟩
  else ⟨seed ^^^ c1, seed ^^^ c2, seed ^^^ c3, seed ^^^ c4, 0⟩

/-- The bytes from `start` on, at most four, as a little-endian word. -/
def word (key : List UInt8) (start : ℕ) : UInt32 :=
  ((key.drop start).take 4).foldr (fun byte word => word <<< 8 ||| byte.toUInt32) 0

def addBlock (m : Murmur3) (block : List UInt8) : Murmur3 :=
  let k1 := rotate (word block 0 * c1) 15
  let h1 := (rotate (m.h1 ^^^ k1 * c2) 19 + m.h2) * 5 + 0x561ccd1b
  let k2 := rotate (word block 4 * c2) 16
  let h2 := (rotate (m.h2 ^^^ k2 * c3) 17 + m.h3) * 5 + 0x0bcaa747
  let k3 := rotate (word block 8 * c3) 17
  let h3 := (rotate (m.h3 ^^^ k3 * c4) 15 + m.h4) * 5 + 0x96cd1c35
  let k4 := rotate (word block 12 * c4) 18
  let h4 := (rotate (m.h4 ^^^ k4 * c1) 13 + h1) * 5 + 0x32ac3b17
  { m with h1, h2, h3, h4 }

/-- The trailing bytes, fewer than 16; a word without bytes changes nothing. -/
def addTail (m : Murmur3) (tail : List UInt8) : Murmur3 :=
  { m with
    h4 := m.h4 ^^^ rotate (word tail 12 * c4) 18 * c1
    h3 := m.h3 ^^^ rotate (word tail 8 * c3) 17 * c4
    h2 := m.h2 ^^^ rotate (word tail 4 * c2) 16 * c3
    h1 := m.h1 ^^^ rotate (word tail 0 * c1) 15 * c2 }

/-- The blocks of a key, as many as it has, and then its tail. -/
def addBytes : ℕ → Murmur3 → List UInt8 → Murmur3
  | 0, m, key => m.addTail key
  | blocks + 1, m, key => addBytes blocks (m.addBlock (key.take 16)) (key.drop 16)

def add (m : Murmur3) (keyStr : Text) : Murmur3 :=
  let key := keyStr.flatMap String.utf8EncodeChar
  let added := addBytes (key.length / 16) m key
  { added with len := m.len + UInt32.ofNat key.length }

def mix (h1 h2 h3 h4 : UInt32) : UInt32 × UInt32 × UInt32 × UInt32 :=
  let h1 := h1 + h2 + h3 + h4
  (h1, h2 + h1, h3 + h1, h4 + h1)

def finish (m : Murmur3) : UInt32 × UInt32 × UInt32 × UInt32 :=
  let mixed := mix (m.h1 ^^^ m.len) (m.h2 ^^^ m.len) (m.h3 ^^^ m.len) (m.h4 ^^^ m.len)
  mix (fmix32 mixed.1) (fmix32 mixed.2.1) (fmix32 mixed.2.2.1) (fmix32 mixed.2.2.2)

example : ((withSeed 123 true).add "Hello, world!".toList).finish =
    (0x61c9129e, 0x5a1aacd7, 0xa4162162, 0x9e37c886) := by decide +kernel

end Murmur3

/-! ## `TycheI` -/

structure TycheI where
  a : UInt32
  b : UInt32
  c : UInt32
  d : UInt32

namespace TycheI

/-- The state after `nextI32`, which returns its `a`. -/
def nextI32 (t : TycheI) : TycheI :=
  let b := rotate t.b 25 ^^^ t.c
  let c := t.c - t.d
  let d := rotate t.d 24 ^^^ t.a
  let a := t.a - b
  let b := rotate b 20 ^^^ c
  let c := c - d
  let d := rotate d 16 ^^^ a
  let a := a - b
  { a, b, c, d }

/-- `Math.floor(next() * 16)` of a call, where `next` divides by the largest number of 32 bits. -/
def place (t : TycheI) : ℕ → ℕ
  | 0 => t.nextI32.a.toNat * 16 / 0xFFFFFFFF
  | calls + 1 => t.nextI32.place calls

end TycheI

def DefaultHasher : Hasher where
  Hash := Murmur3
  new := Murmur3.withSeed 0 false
  add := Murmur3.add
  place := fun m =>
    let seeds := m.finish
    TycheI.place ⟨seeds.1, seeds.2.1, seeds.2.2.1, seeds.2.2.2⟩

instance : DecidableEq DefaultHasher.Hash := inferInstanceAs (DecidableEq Murmur3)

end DashQL.Signature
