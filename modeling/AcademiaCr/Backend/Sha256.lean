import Mathlib.Algebra.Group.Nat.Defs
import Mathlib.Tactic.Common

/-!
# The password hash of `AuthService`

`sha256` as `AuthService` computes it: the padded message, the 64-word schedule of each
64-byte chunk, 64 rounds on eight 32-bit registers, and the hexadecimal digest.
-/

namespace AcademiaCr.Backend.Sha256

/-- The round constants. -/
def k : List UInt32 := [
  0x428a2f98, 0x71374491, 0xb5c0fbcf, 0xe9b5dba5, 0x3956c25b, 0x59f111f1, 0x923f82a4, 0xab1c5ed5,
  0xd807aa98, 0x12835b01, 0x243185be, 0x550c7dc3, 0x72be5d74, 0x80deb1fe, 0x9bdc06a7, 0xc19bf174,
  0xe49b69c1, 0xefbe4786, 0x0fc19dc6, 0x240ca1cc, 0x2de92c6f, 0x4a7484aa, 0x5cb0a9dc, 0x76f988da,
  0x983e5152, 0xa831c66d, 0xb00327c8, 0xbf597fc7, 0xc6e00bf3, 0xd5a79147, 0x06ca6351, 0x14292967,
  0x27b70a85, 0x2e1b2138, 0x4d2c6dfc, 0x53380d13, 0x650a7354, 0x766a0abb, 0x81c2c92e, 0x92722c85,
  0xa2bfe8a1, 0xa81a664b, 0xc24b8b70, 0xc76c51a3, 0xd192e819, 0xd6990624, 0xf40e3585, 0x106aa070,
  0x19a4c116, 0x1e376c08, 0x2748774c, 0x34b0bcb5, 0x391c0cb3, 0x4ed8aa4a, 0x5b9cca4f, 0x682e6ff3,
  0x748f82ee, 0x78a5636f, 0x84c87814, 0x8cc70208, 0x90befffa, 0xa4506ceb, 0xbef9a3f7, 0xc67178f2]

def rotr (x n : UInt32) : UInt32 := (x >>> n) ||| (x <<< (32 - n))

/-- The registers `h0` to `h7`, also used for the working variables `a` to `hh`. -/
structure Registers where
  a : UInt32
  b : UInt32
  c : UInt32
  d : UInt32
  e : UInt32
  f : UInt32
  g : UInt32
  hh : UInt32
  deriving DecidableEq

def initial : Registers where
  a := 0x6a09e667
  b := 0xbb67ae85
  c := 0x3c6ef372
  d := 0xa54ff53a
  e := 0x510e527f
  f := 0x9b05688c
  g := 0x1f83d9ab
  hh := 0x5be0cd19

/-- `while (msg.size() % 64 != 56) msg.push_back(0)`, given how often it may still turn. -/
def pushZeros : Nat → List UInt8 → List UInt8
  | 0, msg => msg
  | fuel + 1, msg => if msg.length % 64 = 56 then msg else pushZeros fuel (msg ++ [0])

/-- The byte `(bitLen >> (i * 8)) & 0xFF`. -/
def lengthByte (bitLen : UInt64) (i : Nat) : UInt8 := (bitLen >>> (i * 8).toUInt64 &&& 0xFF).toUInt8

/-- The message, the byte 0x80, zeros up to 56 modulo 64 and the length in bits. The zero
loop never turns more than 63 times. -/
def pad (input : List UInt8) : List UInt8 :=
  let bitLen : UInt64 := (input.length * 8).toUInt64
  pushZeros 64 (input ++ [0x80]) ++ [7, 6, 5, 4, 3, 2, 1, 0].map (lengthByte bitLen)

/-- The big-endian word at index `i` of a chunk. -/
def word (chunk : List UInt8) (i : Nat) : UInt32 :=
  ((chunk.getD (i * 4) 0).toUInt32 <<< 24) ||| ((chunk.getD (i * 4 + 1) 0).toUInt32 <<< 16) |||
    ((chunk.getD (i * 4 + 2) 0).toUInt32 <<< 8) ||| (chunk.getD (i * 4 + 3) 0).toUInt32

/-- The next schedule word, `w[i-16] + s0 + w[i-7] + s1` with `i` the length of `w`. -/
def nextWord (w : List UInt32) : UInt32 :=
  let i := w.length
  let w15 := w.getD (i - 15) 0
  let w2 := w.getD (i - 2) 0
  let s0 := rotr w15 7 ^^^ rotr w15 18 ^^^ (w15 >>> 3)
  let s1 := rotr w2 17 ^^^ rotr w2 19 ^^^ (w2 >>> 10)
  w.getD (i - 16) 0 + s0 + w.getD (i - 7) 0 + s1

def extend : Nat → List UInt32 → List UInt32
  | 0, w => w
  | n + 1, w => extend n (w ++ [nextWord w])

/-- The array `w` of a chunk. -/
def schedule (chunk : List UInt8) : List UInt32 := extend 48 ((List.range 16).map (word chunk))

def round (r : Registers) (ki wi : UInt32) : Registers :=
  let S1 := rotr r.e 6 ^^^ rotr r.e 11 ^^^ rotr r.e 25
  let ch := (r.e &&& r.f) ^^^ (~~~r.e &&& r.g)
  let temp1 := r.hh + S1 + ch + ki + wi
  let S0 := rotr r.a 2 ^^^ rotr r.a 13 ^^^ rotr r.a 22
  let maj := (r.a &&& r.b) ^^^ (r.a &&& r.c) ^^^ (r.b &&& r.c)
  let temp2 := S0 + maj
  { a := temp1 + temp2, b := r.a, c := r.b, d := r.c,
    e := r.d + temp1, f := r.e, g := r.f, hh := r.g }

/-- One chunk: 64 rounds, then the working variables are added to the registers. -/
def compress (h : Registers) (chunk : List UInt8) : Registers :=
  let w := schedule chunk
  let r := (List.range 64).foldl (fun r i => round r (k.getD i 0) (w.getD i 0)) h
  { a := h.a + r.a, b := h.b + r.b, c := h.c + r.c, d := h.d + r.d,
    e := h.e + r.e, f := h.f + r.f, g := h.g + r.g, hh := h.hh + r.hh }

/-- The 64-byte chunks of the padded message, given their number. -/
def chunks : Nat → List UInt8 → List (List UInt8)
  | 0, _ => []
  | n + 1, msg => msg.take 64 :: chunks n (msg.drop 64)

def hexDigit (n : Nat) : Char := "0123456789abcdef".toList.getD n '0'

/-- `std::hex << std::setfill('0') << std::setw(8)`. -/
def hex (x : UInt32) : List Char :=
  [7, 6, 5, 4, 3, 2, 1, 0].map fun i => hexDigit (x.toNat / 16 ^ i % 16)

def digest (h : Registers) : String :=
  String.ofList ([h.a, h.b, h.c, h.d, h.e, h.f, h.g, h.hh].flatMap hex)

def sha256 (input : List UInt8) : String :=
  let msg := pad input
  digest ((chunks (msg.length / 64) msg).foldl compress initial)

/-- The zero loop stops where its condition fails, whatever its start. -/
theorem pushZeros_length (fuel : Nat) (msg : List UInt8)
    (h : (120 - msg.length % 64) % 64 ≤ fuel) : (pushZeros fuel msg).length % 64 = 56 := by
  induction fuel generalizing msg with
  | zero =>
    simp only [pushZeros]
    omega
  | succ fuel ih =>
    simp only [pushZeros]
    split
    · assumption
    · next hne =>
      apply ih
      rw [List.length_append, List.length_singleton]
      omega

/-- The padded message consists of whole chunks. -/
theorem pad_length (input : List UInt8) : (pad input).length % 64 = 0 := by
  have h := pushZeros_length 64 (input ++ [0x80]) (by omega)
  simp only [pad, List.length_append, List.length_map, List.length_cons, List.length_nil] at h ⊢
  omega

end Sha256

/-- Salt and hash. -/
def hashPassword (password : String) : String :=
  Sha256.sha256 ("academia_salt_" ++ password).toUTF8.toList

end AcademiaCr.Backend
