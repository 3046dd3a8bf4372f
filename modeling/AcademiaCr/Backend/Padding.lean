import AcademiaCr.Library.While
import AcademiaCr.Backend.Digest

/-!
# The padding of `sha256`

The zero loop ends for every message, the padded message is the shortest one of whole chunks,
and the message can be read off it.

## Main definitions

- `PushZeros`: the zero loop, without a bound on its turns
- `lengthBytes`: the last eight bytes
- `pad_wellFormed`
-/

namespace AcademiaCr.Backend.Sha256

open BitString CLang

/-! ## The loop -/

/-- `while (msg.size() % 64 != 56) msg.push_back(0)` turns `n` times. -/
def PushZeros : Nat → List UInt8 → List UInt8 → Prop :=
  While (fun msg => msg.length % 64 ≠ 56) (· ++ [0])

theorem zeroBytes_le (length : Nat) : zeroBytes length ≤ 63 := by
  rw [zeroBytes]
  omega

/-- The loop ends after as many turns as zeros are missing. -/
theorem pushZeros_turns (msg : List UInt8) :
    PushZeros (zeroBytes msg.length) msg (msg ++ List.replicate (zeroBytes msg.length) 0) := by
  have hstart : PushZeros (zeroBytes msg.length) (msg ++ List.replicate 0 0)
      (msg ++ List.replicate (zeroBytes msg.length) 0) := by
    refine While.of_turns (f := fun j => msg ++ List.replicate j 0) (fun j => ?_)
      (fun j hj => ?_) ?_
    · show (msg ++ List.replicate j 0) ++ [0] = _
      rw [List.append_assoc, List.replicate_succ']
    · show (msg ++ List.replicate j 0).length % 64 ≠ 56
      rw [zeroBytes] at hj
      rw [List.length_append, List.length_replicate]
      omega
    · show ¬ (msg ++ List.replicate (zeroBytes msg.length) 0).length % 64 ≠ 56
      rw [List.length_append, List.length_replicate, zeroBytes]
      omega
  rwa [List.replicate_zero, List.append_nil] at hstart

/-! ## The padded message -/

/-- The eight bytes that are pushed last. -/
def lengthBytes (input : List UInt8) : List UInt8 :=
  [7, 6, 5, 4, 3, 2, 1, 0].map (lengthByte (input.length * 8).toUInt64)

theorem length_lengthBytes (input : List UInt8) : (lengthBytes input).length = 8 := rfl

theorem pad_eq (input : List UInt8) : pad input = (input ++ [0x80]) ++
    List.replicate (zeroBytes (input ++ [0x80]).length) 0 ++ lengthBytes input := by
  have hfuel := zeroBytes_le (input ++ [0x80]).length
  rw [pad, pushZeros_eq _ _ (Nat.le_succ_of_le hfuel)]
  rfl

theorem length_pad (input : List UInt8) :
    (pad input).length = input.length + 1 + zeroBytes (input.length + 1) + 8 := by
  rw [pad_eq, List.length_append, List.length_append, List.length_append, List.length_replicate,
    length_lengthBytes, List.length_singleton]

/-- No shorter message of whole chunks has room for the message, a byte and the length. -/
theorem length_pad_le {input : List UInt8} {n : Nat} (hwhole : n % 64 = 0)
    (hroom : input.length + 1 + 8 ≤ n) : (pad input).length ≤ n := by
  rw [length_pad, zeroBytes]
  omega

theorem drop_pad (input : List UInt8) :
    (pad input).drop ((pad input).length - 8) = lengthBytes input := by
  have hfront : (pad input).length - 8 = ((input ++ [0x80]) ++
      List.replicate (zeroBytes (input ++ [(0x80 : UInt8)]).length) 0).length := by
    conv_lhs => rw [pad_eq, List.length_append, length_lengthBytes, Nat.add_sub_cancel]
  rw [hfront, pad_eq, List.drop_left]

/-- The last bytes are the length in bits, the most significant byte first. -/
theorem ofBits_lengthBytes {input : List UInt8} (h : input.length < 2 ^ 61) :
    ofBits (messageBits (lengthBytes input)) = 8 * input.length := by
  have hfits : input.length * 8 < 2 ^ 64 := by omega
  rw [lengthBytes, messageBits_lengthBytes, ofBits_toBits, Nat.mod_eq_of_lt hfits, Nat.mul_comm]

/-- The message can be read off the padded one: its length is in the last bytes. -/
theorem pad_injective {input other : List UInt8} (h : input.length < 2 ^ 61)
    (hother : other.length < 2 ^ 61) (hpad : pad other = pad input) : other = input := by
  have hbytes : lengthBytes other = lengthBytes input := by
    rw [← drop_pad, ← drop_pad, hpad]
  have hbits := ofBits_lengthBytes hother
  rw [hbytes, ofBits_lengthBytes h] at hbits
  have hlength : other.length = input.length := by omega
  rw [pad_eq, pad_eq, List.append_assoc, List.append_assoc, List.append_assoc, List.append_assoc]
    at hpad
  exact (List.append_inj hpad hlength).1

/-- The zero loop ends after at most 63 turns; the padded message consists of the message, the
byte 0x80, these zeros and eight bytes with the length in bits; it is the shortest one of whole
chunks that has room for them; and different messages have different padded ones. -/
theorem pad_wellFormed (input : List UInt8) (h : input.length < 2 ^ 61) :
    (∃ turns ≤ 63, ∃ msg, PushZeros turns (input ++ [0x80]) msg ∧
      msg = input ++ [0x80] ++ List.replicate turns 0 ∧
      pad input = msg ++ (pad input).drop ((pad input).length - 8)) ∧
    (pad input).length % 64 = 0 ∧
    (∀ n, n % 64 = 0 → input.length + 1 + 8 ≤ n → (pad input).length ≤ n) ∧
    input.length + 1 + 8 ≤ (pad input).length ∧
    ofBits (messageBits ((pad input).drop ((pad input).length - 8))) = 8 * input.length ∧
    ∀ other : List UInt8, other.length < 2 ^ 61 → pad other = pad input → other = input := by
  have hlength := length_pad input
  refine ⟨⟨_, zeroBytes_le _, _, pushZeros_turns _, rfl, ?_⟩, pad_length input,
    fun n => length_pad_le, by omega, ?_, fun other hother => pad_injective h hother⟩
  · rw [drop_pad, ← pad_eq]
  · rw [drop_pad, ofBits_lengthBytes h]

/-- A message that needs a second chunk, and another one. -/
theorem pad_wellFormed_two : (pad (List.replicate 56 0x61)).length ≤ 128 ∧
    ofBits (messageBits ((pad (List.replicate 56 0x61)).drop
      ((pad (List.replicate 56 0x61)).length - 8))) = 448 ∧
    pad (List.replicate 120 0x61) ≠ pad (List.replicate 56 0x61) := by
  have hwell := pad_wellFormed (List.replicate 56 0x61) (by rw [List.length_replicate]; decide)
  obtain ⟨_, _, hleast, _, hbits, hinj⟩ := hwell
  refine ⟨hleast 128 rfl (by decide), hbits, fun hpad => ?_⟩
  have hsame := hinj _ (by rw [List.length_replicate]; decide) hpad
  exact absurd (congrArg List.length hsame) (by decide)

end AcademiaCr.Backend.Sha256
