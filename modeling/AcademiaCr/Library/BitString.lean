import Mathlib.Algebra.Group.Nat.Defs
import Mathlib.Data.Nat.Bitwise
import Mathlib.Tactic.Common

/-!
# Bit strings

Numbers as lists of bits, the most significant bit first, and their hexadecimal digits.

## Main definitions

- `toBits`, `ofBits`: between numbers and bits
- `hex`: the hexadecimal digits of a bit string
-/

namespace BitString

/-- The lowest `w` bits of a number. -/
def toBits : Nat → Nat → List Bool
  | 0, _ => []
  | w + 1, n => n.testBit w :: toBits w n

/-- The number that the bits denote. -/
def ofBits : List Bool → Nat
  | [] => 0
  | b :: bits => b.toNat * 2 ^ bits.length + ofBits bits

@[simp] theorem length_toBits (w n : Nat) : (toBits w n).length = w := by
  induction w with
  | zero => rfl
  | succ w ih => rw [toBits, List.length_cons, ih]

theorem ofBits_append (front rest : List Bool) :
    ofBits (front ++ rest) = ofBits front * 2 ^ rest.length + ofBits rest := by
  induction front with
  | nil => simp [ofBits]
  | cons b front ih =>
    rw [List.cons_append, ofBits, ofBits, ih, List.length_append, Nat.pow_add, Nat.add_mul,
      Nat.mul_assoc, Nat.add_assoc]

theorem ofBits_toBits (w n : Nat) : ofBits (toBits w n) = n % 2 ^ w := by
  induction w with
  | zero => rw [toBits, ofBits, Nat.pow_zero, Nat.mod_one]
  | succ w ih =>
    rw [toBits, ofBits, length_toBits, ih, Nat.toNat_testBit, Nat.mod_pow_succ, Nat.mul_comm,
      Nat.add_comm]

theorem toBits_add (v w n : Nat) : toBits (v + w) n = toBits v (n / 2 ^ w) ++ toBits w n := by
  induction v with
  | zero => rw [Nat.zero_add, toBits, List.nil_append]
  | succ v ih =>
    rw [Nat.succ_add, toBits, toBits, ih, List.cons_append, Nat.testBit_div_two_pow]

/-- The bits of a number depend on its lowest bits only. -/
theorem toBits_congr {w m n : Nat} (h : ∀ i < w, m.testBit i = n.testBit i) :
    toBits w m = toBits w n := by
  induction w with
  | zero => rfl
  | succ w ih =>
    rw [toBits, toBits, h w (Nat.lt_succ_self w), ih fun i hi => h i (Nat.lt_succ_of_lt hi)]

/-! ## Hexadecimal digits -/

def hexDigit (n : Nat) : Char := "0123456789abcdef".toList.getD n '0'

/-- The digits of a bit string, four bits each. -/
def hex : List Bool → List Char
  | a :: b :: c :: d :: bits => hexDigit (ofBits [a, b, c, d]) :: hex bits
  | _ => []

theorem hex_append {front : List Bool} (rest : List Bool) {n : Nat} (h : front.length = 4 * n) :
    hex (front ++ rest) = hex front ++ hex rest := by
  induction n generalizing front with
  | zero =>
    rw [List.length_eq_zero_iff.mp h]
    rfl
  | succ n ih =>
    match front, h with
    | a :: b :: c :: d :: front, h =>
      have hlength : front.length = 4 * n := by
        simp only [List.length_cons] at h
        omega
      show hexDigit _ :: hex (front ++ rest) = hexDigit _ :: (hex front ++ hex rest)
      rw [ih hlength]

theorem length_hex {bits : List Bool} {n : Nat} (h : bits.length = 4 * n) :
    (hex bits).length = n := by
  induction n generalizing bits with
  | zero =>
    rw [List.length_eq_zero_iff.mp h]
    rfl
  | succ n ih =>
    match bits, h with
    | a :: b :: c :: d :: bits, h =>
      have hlength : bits.length = 4 * n := by
        simp only [List.length_cons] at h
        omega
      rw [hex, List.length_cons, ih hlength]

theorem mem_hex {bits : List Bool} {c : Char} (h : c ∈ hex bits) :
    c ∈ "0123456789abcdef".toList := by
  have hdigit : ∀ n, hexDigit n ∈ "0123456789abcdef".toList := by
    intro n
    obtain hn | hn := Nat.lt_or_ge n 16
    · rw [hexDigit, List.getD_eq_getElem _ _ hn]
      exact List.getElem_mem _
    · rw [hexDigit, List.getD_eq_default _ _ hn]
      decide
  fun_induction hex bits with
  | case1 a b c d bits ih =>
    obtain rfl | hrest := List.mem_cons.mp h
    · exact hdigit _
    · exact ih hrest
  | case2 bits _ => exact absurd h List.not_mem_nil

/-- The digits of a number, the most significant one first. -/
theorem hex_toBits (w n : Nat) : hex (toBits (4 * w) n) =
    (List.range w).reverse.map fun i => hexDigit (n / 16 ^ i % 16) := by
  induction w with
  | zero => rfl
  | succ w ih =>
    have hpow : 2 ^ (4 * w) = 16 ^ w := by rw [Nat.pow_mul]
    have hdigit : hex (toBits 4 (n / 16 ^ w)) = [hexDigit (n / 16 ^ w % 16)] :=
      congrArg (fun m => [hexDigit m]) (ofBits_toBits 4 (n / 16 ^ w))
    rw [Nat.mul_succ, Nat.add_comm, toBits_add, hpow, hex_append (n := 1) _ (length_toBits 4 _),
      ih, hdigit, List.range_succ, List.reverse_append, List.reverse_singleton, List.map_append,
      List.map_singleton]

/-- The digits of words of 32 bits, word by word. -/
theorem hex_flatMap {α : Type} {f : α → List Bool} {n : Nat} (h : ∀ a, (f a).length = 4 * n)
    (as : List α) : hex (as.flatMap f) = as.flatMap fun a => hex (f a) := by
  induction as with
  | nil => rfl
  | cons a as ih => rw [List.flatMap_cons, List.flatMap_cons, hex_append _ (h a), ih]

end BitString
