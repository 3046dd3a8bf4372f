import Mathlib.Data.Nat.Prime.Basic
import AcademiaCr.Library.BitString

/-!
# SHA-256

The secure hash standard for the digest of 256 bits: messages are strings of bits, the
constants come from the roots of the first primes, the message schedule is a recurrence and
the blocks are chained.

## Main definitions

- `padded`, `messageWord`: the padded message and its words
- `scheduleWord`: the word `W_t` of a block
- `Vars.round`, `compress`: one round, and the 64 rounds of a block
- `digest`: the digest of a message
-/

namespace Sha2

open BitString

abbrev Word := BitVec 32

/-! ## Functions on words -/

def rotr (n : Nat) (x : Word) : Word := (x >>> n) ||| (x <<< (32 - n))

def ch (x y z : Word) : Word := (x &&& y) ^^^ (~~~x &&& z)

def maj (x y z : Word) : Word := (x &&& y) ^^^ (x &&& z) ^^^ (y &&& z)

/-- The functions `Σ₀` and `Σ₁` of the rounds. -/
def bigSigma0 (x : Word) : Word := rotr 2 x ^^^ rotr 13 x ^^^ rotr 22 x

def bigSigma1 (x : Word) : Word := rotr 6 x ^^^ rotr 11 x ^^^ rotr 25 x

/-- The functions `σ₀` and `σ₁` of the schedule. -/
def smallSigma0 (x : Word) : Word := rotr 7 x ^^^ rotr 18 x ^^^ (x >>> 3)

def smallSigma1 (x : Word) : Word := rotr 17 x ^^^ rotr 19 x ^^^ (x >>> 10)

/-! ## Constants -/

/-- Set the bits of an integer root, the highest one first. -/
def rootFrom (k n : Nat) : Nat → Nat → Nat
  | 0, r => r
  | bit + 1, r => rootFrom k n bit (if (r + 2 ^ bit) ^ k ≤ n then r + 2 ^ bit else r)

/-- The integer part of the `k`-th root of a number, as far as it has 40 bits. -/
def root (k n : Nat) : Nat := rootFrom k n 40 0

theorem rootFrom_spec {k n bits r : Nat} (hlo : r ^ k ≤ n) (hhi : n < (r + 2 ^ bits) ^ k) :
    (rootFrom k n bits r) ^ k ≤ n ∧ n < (rootFrom k n bits r + 1) ^ k := by
  induction bits generalizing r with
  | zero => exact ⟨hlo, hhi⟩
  | succ bit ih =>
    rw [rootFrom]
    split
    · next hle =>
      refine ih hle ?_
      rwa [Nat.add_assoc, ← Nat.two_mul, ← Nat.pow_succ']
    · next hgt => exact ih hlo (Nat.lt_of_not_le hgt)

theorem root_spec {k n : Nat} (hk : k ≠ 0) (hn : n < (2 ^ 40) ^ k) :
    (root k n) ^ k ≤ n ∧ n < (root k n + 1) ^ k :=
  rootFrom_spec (by rw [Nat.zero_pow (Nat.pos_of_ne_zero hk)]; exact Nat.zero_le n)
    (by rwa [Nat.zero_add])

/-- The first 64 primes. No composite number below 312 is without a divisor below 18. -/
def primes : List Nat :=
  (List.range 312).filter fun n => 2 ≤ n ∧ ∀ d ∈ List.range 18, d ∣ n → d = 1 ∨ d = n

theorem mem_primes_iff {n : Nat} : n ∈ primes ↔ n < 312 ∧ n.Prime := by
  simp only [primes, List.mem_filter, List.mem_range, decide_eq_true_eq]
  refine and_congr_right fun hn => ?_
  constructor
  · intro ⟨htwo, hdivisors⟩
    by_contra hprime
    have hsq : n.minFac ^ 2 ≤ n := Nat.minFac_sq_le_self (by omega) hprime
    have hsmall : n.minFac < 18 := by
      by_contra hbig
      have hle : 18 ^ 2 ≤ n.minFac ^ 2 := Nat.pow_le_pow_left (by omega) 2
      omega
    obtain hone | hself := hdivisors n.minFac hsmall n.minFac_dvd
    · rw [Nat.minFac_eq_one_iff] at hone
      omega
    · have hlt : n < n ^ 2 := by
        rw [Nat.pow_two]
        exact Nat.lt_mul_self_iff.mpr (by omega)
      rw [hself] at hsq
      omega
  · intro hprime
    exact ⟨hprime.two_le, fun d _ hd => (Nat.dvd_prime hprime).mp hd⟩

/-- The first 32 bits of the fractional part of the `k`-th root. -/
def rootFraction (k p : Nat) : Word := BitVec.ofNat 32 (root k (p * 2 ^ (32 * k)))

/-- The constant `K_t`, from the cube root of a prime. -/
def constant (t : Nat) : Word := rootFraction 3 (primes.getD t 0)

/-! ## The padded message -/

/-- The least number of zeros that leaves room for the length. -/
def zeros (l : Nat) : Nat := (959 - l % 512) % 512

theorem zeros_spec (l : Nat) : (l + 1 + zeros l) % 512 = 448 ∧
    ∀ k, (l + 1 + k) % 512 = 448 → zeros l ≤ k := by
  simp only [zeros]
  constructor
  · omega
  · intro k hk
    omega

/-- The message, a one, zeros and the length in 64 bits. -/
def padded (message : List Bool) : List Bool :=
  message ++ true :: (List.replicate (zeros message.length) false ++ toBits 64 message.length)

theorem length_padded (message : List Bool) : (padded message).length % 512 = 0 := by
  have h := (zeros_spec message.length).1
  simp only [padded, List.length_append, List.length_cons, List.length_replicate, length_toBits]
  omega

/-- The word `M_t` of block `i`. -/
def messageWord (bits : List Bool) (i t : Nat) : Word :=
  BitVec.ofNat 32 (ofBits ((bits.drop (512 * i + 32 * t)).take 32))

/-! ## The digest -/

/-- The word `W_t` of a block with the words `M`. -/
def scheduleWord (M : Nat → Word) (t : Nat) : Word :=
  if _ : t < 16 then M t
  else smallSigma1 (scheduleWord M (t - 2)) + scheduleWord M (t - 7) +
    smallSigma0 (scheduleWord M (t - 15)) + scheduleWord M (t - 16)

/-- The working variables, and the words of a hash value. -/
structure Vars where
  a : Word
  b : Word
  c : Word
  d : Word
  e : Word
  f : Word
  g : Word
  h : Word
  deriving DecidableEq

namespace Vars

/-- One round. -/
def round (v : Vars) (K W : Word) : Vars :=
  let t1 := v.h + bigSigma1 v.e + ch v.e v.f v.g + K + W
  let t2 := bigSigma0 v.a + maj v.a v.b v.c
  { a := t1 + t2, b := v.a, c := v.b, d := v.c, e := v.d + t1, f := v.e, g := v.f, h := v.g }

protected def add (v w : Vars) : Vars where
  a := v.a + w.a
  b := v.b + w.b
  c := v.c + w.c
  d := v.d + w.d
  e := v.e + w.e
  f := v.f + w.f
  g := v.g + w.g
  h := v.h + w.h

def words (v : Vars) : List Word := [v.a, v.b, v.c, v.d, v.e, v.f, v.g, v.h]

end Vars

/-- The initial hash value, from the square roots of the first eight primes. -/
def initial : Vars where
  a := rootFraction 2 2
  b := rootFraction 2 3
  c := rootFraction 2 5
  d := rootFraction 2 7
  e := rootFraction 2 11
  f := rootFraction 2 13
  g := rootFraction 2 17
  h := rootFraction 2 19

/-- The hash value after a block. -/
def compress (H : Vars) (M : Nat → Word) : Vars :=
  ((List.range 64).foldl (fun v t => v.round (constant t) (scheduleWord M t)) H).add H

/-- The hash value of all blocks. -/
def hashValue (message : List Bool) : Vars :=
  (List.range ((padded message).length / 512)).foldl
    (fun H i => compress H (messageWord (padded message) i)) initial

/-- The digest of a message. -/
def digest (message : List Bool) : List Bool :=
  (hashValue message).words.flatMap fun w => toBits 32 w.toNat

end Sha2
