import Mathlib.Data.PNat.Basic
import AcademiaCr.Library.CArray

/-!
# Reading from a connection

A connection delivers a stream of bytes in pieces of any size. A read yields some of the
bytes that have arrived, and at least one unless there is none or none is asked for.

## Main definitions

- `Socket`: the receiving end of a connection
- `Socket.read`: `read(sock, buf, n)`
- `Socket.readsFor`: how many reads yield a number of bytes
- `CArray.fill`: the array after bytes have been stored from its start on
- `htonl`, `ntohl`: numbers of 32 bits in network byte order
-/

namespace CLang

/-- The bytes that the other end has written and this end has not read, and how many of
them, at most, each of the next reads finds. -/
structure Socket where
  pending : List UInt8
  arrived : Nat → ℕ+

namespace Socket

/-- The bytes that a read yields, of which `n` are asked for. -/
def read (sock : Socket) (n : Nat) : List UInt8 × Socket :=
  (sock.pending.take (min n (sock.arrived 0)),
    ⟨sock.pending.drop (min n (sock.arrived 0)), fun i => sock.arrived (i + 1)⟩)

variable {sock : Socket} {n : Nat}

@[simp] theorem read_arrived (i : Nat) : (sock.read n).2.arrived i = sock.arrived (i + 1) := rfl

/-- No byte is lost or read twice. -/
theorem read_append (sock : Socket) (n : Nat) :
    (sock.read n).1 ++ (sock.read n).2.pending = sock.pending :=
  List.take_append_drop _ _

theorem length_read (sock : Socket) (n : Nat) :
    (sock.read n).1.length = min (min n (sock.arrived 0)) sock.pending.length :=
  List.length_take

theorem length_read_le (sock : Socket) (n : Nat) : (sock.read n).1.length ≤ n := by
  rw [length_read]
  omega

theorem length_read_le_arrived (sock : Socket) (n : Nat) :
    (sock.read n).1.length ≤ sock.arrived 0 := by
  rw [length_read]
  omega

/-- A read for at least one byte of a connection with bytes yields one. -/
theorem read_ne_nil (hn : n ≠ 0) (hp : sock.pending ≠ []) : (sock.read n).1 ≠ [] := by
  have hlen : 0 < sock.pending.length := List.length_pos_iff.mpr hp
  have hpos := (sock.arrived 0).pos
  apply List.ne_nil_of_length_pos
  rw [length_read]
  omega

/-- A read that finds all bytes asked for. -/
theorem read_of_le {bytes rest : List UInt8} (hp : sock.pending = bytes ++ rest)
    (hn : bytes.length = n) (ha : n ≤ sock.arrived 0) :
    sock.read n = (bytes, ⟨rest, fun i => sock.arrived (i + 1)⟩) := by
  rw [read, Nat.min_eq_left ha, hp, List.take_left' hn, List.drop_left' hn]

/-- How many of the next reads it takes to get `n` bytes, when each asks for those missing. -/
def readsFor (n : Nat) (arrived : Nat → ℕ+) : Nat :=
  if _ : n = 0 then 0 else 1 + readsFor (n - arrived 0) fun i => arrived (i + 1)
termination_by n
decreasing_by
  have hpos := (arrived 0).pos
  omega

/-- A read that asks for more than it finds, or finds the end of what was written. -/
theorem read_piece {bytes rest : List UInt8} (hp : sock.pending = bytes ++ rest)
    (hn : bytes.length ≤ n) (ha : bytes.length ≤ sock.arrived 0)
    (hrest : rest ≠ [] → (sock.arrived 0 : Nat) = bytes.length) :
    sock.read n = (bytes, ⟨rest, fun i => sock.arrived (i + 1)⟩) := by
  by_cases hend : rest = []
  · subst hend
    rw [List.append_nil] at hp
    have hmin : bytes.length ≤ min n (sock.arrived 0) := Nat.le_min.mpr ⟨hn, ha⟩
    rw [read, hp, List.take_of_length_le hmin, List.drop_eq_nil_of_le hmin]
  · rw [read, hrest hend, Nat.min_eq_right hn, hp, List.take_left', List.drop_left'] <;> rfl

end Socket

/-! ## Storing bytes -/

namespace CArray

variable {α : Type} {n : Nat}

/-- The array after its first elements have been overwritten. -/
def fill (a : CArray α n) (elements : List α) : CArray α n :=
  ⟨(elements ++ a.toList.drop elements.length).take n, by
    rw [List.length_take, List.length_append, List.length_drop, a.length_toList]
    omega⟩

/-- All elements are overwritten. -/
theorem toList_fill {a : CArray α n} {elements : List α} (h : elements.length = n) :
    (a.fill elements).toList = elements :=
  List.take_left' h

/-- Elements that are overwritten by themselves. -/
theorem fill_take (a : CArray α n) (k : Nat) : a.fill (a.toList.take k) = a := by
  apply CArray.ext
  show (a.toList.take k ++ a.toList.drop (a.toList.take k).length).take n = a.toList
  have hall : a.toList.take k ++ a.toList.drop (a.toList.take k).length = a.toList := by
    rw [List.length_take]
    obtain hk | hk := Nat.le_total k a.toList.length
    · rw [Nat.min_eq_left hk, List.take_append_drop]
    · rw [Nat.min_eq_right hk, List.take_of_length_le hk, List.drop_length, List.append_nil]
  rw [hall, List.take_of_length_le (Nat.le_of_eq a.length_toList)]

end CArray

/-! ## Network byte order -/

/-- The bytes of `htonl(len)` in memory. -/
def htonl (len : Nat) : CArray UInt8 4 :=
  ⟨[(len / 2 ^ 24).toUInt8, (len / 2 ^ 16).toUInt8, (len / 2 ^ 8).toUInt8, len.toUInt8], rfl⟩

/-- `ntohl` of the number with these bytes in memory. -/
def ntohl (bytes : CArray UInt8 4) : Nat :=
  bytes.toList.foldl (fun len b => len * 2 ^ 8 + b.toNat) 0

theorem ntohl_htonl (len : Nat) : ntohl (htonl len) = len % 2 ^ 32 := by
  simp only [ntohl, htonl, List.foldl_cons, List.foldl_nil, Nat.toUInt8, UInt8.toNat_ofNat']
  omega

/-- The number that any bytes denote, the most significant byte first. -/
def bigEndian (bytes : List UInt8) : Nat := bytes.foldl (fun len b => len * 2 ^ 8 + b.toNat) 0

theorem ntohl_eq (bytes : CArray UInt8 4) : ntohl bytes = bigEndian bytes.toList := rfl

theorem foldl_bytes (bytes : List UInt8) (len : Nat) :
    bytes.foldl (fun len b => len * 2 ^ 8 + b.toNat) len =
      len * 2 ^ (8 * bytes.length) + bigEndian bytes := by
  induction bytes generalizing len with
  | nil => simp [bigEndian]
  | cons b bytes ih =>
    rw [bigEndian, List.foldl_cons, List.foldl_cons, ih, ih (0 * 2 ^ 8 + b.toNat),
      List.length_cons, Nat.mul_succ, Nat.pow_add, Nat.mul_comm (2 ^ (8 * bytes.length)),
      ← Nat.mul_assoc, Nat.add_mul, Nat.zero_mul, Nat.zero_add, Nat.add_assoc]

theorem bigEndian_append (front rest : List UInt8) :
    bigEndian (front ++ rest) = bigEndian front * 2 ^ (8 * rest.length) + bigEndian rest := by
  rw [bigEndian, List.foldl_append]
  exact foldl_bytes rest _

theorem bigEndian_cons (b : UInt8) (bytes : List UInt8) :
    bigEndian (b :: bytes) = b.toNat * 2 ^ (8 * bytes.length) + bigEndian bytes := by
  rw [bigEndian, List.foldl_cons, foldl_bytes, Nat.zero_mul, Nat.zero_add]

theorem bigEndian_lt (bytes : List UInt8) : bigEndian bytes < 2 ^ (8 * bytes.length) := by
  induction bytes with
  | nil => exact Nat.one_pos
  | cons b bytes ih =>
    have hb : (b.toNat + 1) * 2 ^ (8 * bytes.length) ≤ 2 ^ 8 * 2 ^ (8 * bytes.length) :=
      Nat.mul_le_mul_right _ b.toNat_lt
    rw [Nat.add_mul, Nat.one_mul] at hb
    rw [bigEndian_cons, List.length_cons, Nat.mul_succ, Nat.add_comm (8 * _), Nat.pow_add]
    omega

theorem bigEndian_zeros (n : Nat) : bigEndian (List.replicate n 0) = 0 := by
  induction n with
  | zero => rfl
  | succ n ih =>
    rw [List.replicate_succ, bigEndian_cons, ih]
    exact Nat.zero_mul _

theorem ntohl_lt (bytes : CArray UInt8 4) : ntohl bytes < 2 ^ 32 := by
  have hlt := bigEndian_lt bytes.toList
  rwa [bytes.length_toList] at hlt

/-- The number in four bytes of which the first have been overwritten. -/
theorem ntohl_fill (a : CArray UInt8 4) {elements : List UInt8} (h : elements.length ≤ 4) :
    ntohl (a.fill elements) = bigEndian elements * 2 ^ (8 * (4 - elements.length)) +
      bigEndian (a.toList.drop elements.length) := by
  have hlength : (a.toList.drop elements.length).length = 4 - elements.length := by
    rw [List.length_drop, a.length_toList]
  have hfill : (a.fill elements).toList = elements ++ a.toList.drop elements.length :=
    List.take_of_length_le (by
      rw [List.length_append, hlength]
      omega)
  rw [ntohl_eq, hfill, bigEndian_append, hlength]

end CLang
