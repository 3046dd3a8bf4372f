import Mathlib.Algebra.GroupWithZero.Nat
import Mathlib.Data.Int.Order.Basic
import Mathlib.Data.List.TakeWhile
import Mathlib.Tactic.Common
import AcademiaCr.Library.RecordFile

/-!
# Arrays, strings and loops of C

Arrays of a fixed length whose accesses outside the bounds have no result, the C strings
that character arrays hold, and counting loops whose body may run into such an access.

## Main definitions

- `CArray`: `T a[n]`, with `get?` and `set?`
- `CString`: strings without their terminating NUL
- `CArray.str`, `strncpy`: the string in a character array, and storing one
- `CArray.Terminated`: a NUL ends it, as printing it needs
- `CArray.strcmp`: comparing it, undefined where that leaves the array
- `forLoop`: a counting loop, with its invariant rule `forLoop_spec`
- `CArray.search`: a loop that looks for an element and stops there
-/

namespace CLang

/-- `T a[n]`. -/
@[ext] structure CArray (α : Type) (n : Nat) where
  toList : List α
  length_toList : toList.length = n
  deriving DecidableEq, Repr

namespace CArray

variable {α : Type} {n : Nat}

/-- All elements are equal. -/
def replicate (x : α) : CArray α n := ⟨List.replicate n x, List.length_replicate⟩

/-- Every element is replaced. -/
def map {β : Type} (f : α → β) (a : CArray α n) : CArray β n :=
  ⟨a.toList.map f, by rw [List.length_map, a.length_toList]⟩

/-- `a[i]`, if `i` is an index of the array. -/
def get? (a : CArray α n) (i : Int) : Option α :=
  if 0 ≤ i then a.toList[i.toNat]? else none

/-- The array after `a[i] = x`, if `i` is an index of the array. -/
def set? (a : CArray α n) (i : Int) (x : α) : Option (CArray α n) :=
  if 0 ≤ i ∧ i < n then
    some ⟨a.toList.set i.toNat x, by rw [List.length_set, a.length_toList]⟩
  else none

theorem map_eq_self {f : α → α} {a : CArray α n} (h : ∀ x ∈ a.toList, f x = x) : a.map f = a := by
  apply CArray.ext
  show a.toList.map f = a.toList
  rw [List.map_congr_left h, List.map_id']

theorem get?_ofNat (a : CArray α n) (i : Nat) : a.get? i = a.toList[i]? := by
  simp [get?]

theorem set?_eq_some {a b : CArray α n} {i : Int} {x : α} (h : a.set? i x = some b) :
    0 ≤ i ∧ i < n ∧ b.toList = a.toList.set i.toNat x := by
  unfold set? at h
  split at h
  · next hi =>
    cases h
    exact ⟨hi.1, hi.2, rfl⟩
  · cases h

theorem set?_eq_none {a : CArray α n} {i : Int} (h : ¬ (0 ≤ i ∧ i < n)) (x : α) :
    a.set? i x = none := if_neg h

theorem exists_set? (a : CArray α n) {i : Nat} (hi : i < n) (x : α) :
    ∃ b, a.set? i x = some b ∧ b.toList = a.toList.set i x := by
  have hset : (0 : Int) ≤ (i : Int) ∧ (i : Int) < n := by omega
  exact ⟨_, if_pos hset, rfl⟩

end CArray

/-! ## Strings -/

/-- A C string: the bytes before its terminating NUL. -/
abbrev CString := { s : List UInt8 // (0 : UInt8) ∉ s }

namespace CString

def empty : CString := ⟨[], by simp⟩

def length (s : CString) : Nat := s.1.length

/-- `strcat`. -/
def append (s t : CString) : CString :=
  ⟨s.1 ++ t.1, fun h => (List.mem_append.mp h).elim s.2 t.2⟩

/-- The string that `snprintf` leaves in a buffer of `size` bytes. -/
def truncate (size : Nat) (s : CString) : CString :=
  ⟨s.1.take (size - 1), fun h => s.2 (List.mem_of_mem_take h)⟩

/-- A string literal, or the decimal digits of a number. -/
def ofString (s : String) : CString :=
  ⟨(s.toList.map fun c => c.toNat.toUInt8).filter (· ≠ 0), by simp⟩

/-- Append texts one after another. -/
def appendAll (s : CString) (texts : List CString) : CString := texts.foldl append s

theorem length_append (s t : CString) : (s.append t).length = s.length + t.length :=
  List.length_append

theorem length_appendAll (s : CString) (texts : List CString) :
    (s.appendAll texts).length = s.length + (texts.map length).sum := by
  induction texts generalizing s with
  | nil => rfl
  | cons t texts ih =>
    show (appendAll (s.append t) texts).length = _
    rw [ih, length_append, List.map_cons, List.sum_cons, Nat.add_assoc]

theorem length_truncate (n : Nat) (s : CString) :
    (s.truncate n).length = min (n - 1) s.length := List.length_take

theorem length_truncate_lt {n : Nat} (hn : 0 < n) (s : CString) : (s.truncate n).length < n := by
  rw [length_truncate]
  omega

theorem truncate_truncate {m n : Nat} (h : m ≤ n) (s : CString) :
    (s.truncate n).truncate m = s.truncate m := by
  apply Subtype.ext
  show (s.1.take (n - 1)).take (m - 1) = s.1.take (m - 1)
  rw [List.take_take, Nat.min_eq_left (by omega)]

/-- A string is not cut off if and only if the buffer has room for its NUL. -/
theorem truncate_eq_self {n : Nat} (hn : 0 < n) {s : CString} :
    s.truncate n = s ↔ s.length < n := by
  constructor
  · intro h
    have hlen := congrArg length h
    rw [length_truncate] at hlen
    omega
  · intro h
    apply Subtype.ext
    show s.1.take (n - 1) = s.1
    exact List.take_of_length_le (by show s.length ≤ n - 1; omega)

theorem truncate_of_lt {n : Nat} {s : CString} (h : s.length < n) : s.truncate n = s :=
  (truncate_eq_self (Nat.zero_lt_of_lt h)).mpr h

end CString

section Strings

variable {n : Nat}

/-- The bytes of a character array before its first NUL, all of them if it has none. Of an array
without a NUL the functions of C read more than that: `CArray.strcmp` says when a comparison does,
and only a `CArray.Terminated` one is printed. -/
def CArray.str (a : CArray UInt8 n) : CString :=
  ⟨a.toList.takeWhile (· ≠ 0), fun h => by
    have hall := List.all_eq_true.mp (List.all_takeWhile (l := a.toList) (p := fun b => b ≠ 0))
    simpa using hall 0 h⟩

/-- `strncpy(a, s, n)` for an array of `n` characters: the first `n` bytes of the string, and
NULs after a shorter one. -/
def strncpy (n : Nat) (s : CString) : CArray UInt8 n :=
  ⟨(s.1 ++ List.replicate n 0).take n, by simp⟩

/-- `memset(a, 0, n)`. -/
def zeros : CArray UInt8 n := .replicate 0

theorem CString.decide_ne_zero (s : CString) : ∀ b ∈ s.1, decide (b ≠ 0) = true := by
  intro b hb
  have hne : b ≠ 0 := fun h => s.2 (h ▸ hb)
  simpa using hne

theorem str_strncpy {s : CString} (hn : s.length ≤ n) : (strncpy n s).str = s := by
  have hpad : ∀ k, (List.replicate k (0 : UInt8)).takeWhile (fun b => decide (b ≠ 0)) = [] :=
    fun k => by cases k <;> simp [List.replicate_succ]
  have hlist : (strncpy n s).toList = s.1 ++ List.replicate (n - s.1.length) 0 := by
    have hle : s.1.length ≤ n := hn
    simp only [strncpy, List.take_append, List.take_of_length_le hle, List.take_replicate]
    congr 2
    omega
  apply Subtype.ext
  show (strncpy n s).toList.takeWhile (fun b => decide (b ≠ 0)) = s.1
  rw [hlist, List.takeWhile_append_of_pos s.decide_ne_zero, hpad, List.append_nil]

@[simp] theorem str_zeros : (zeros : CArray UInt8 n).str = .empty := by
  apply Subtype.ext
  cases n <;> simp [zeros, CArray.replicate, CArray.str, List.replicate_succ, CString.empty]

/-- The string in an array that has been filled by `strncpy`. -/
theorem str_strncpy_eq (n : Nat) (s : CString) : (strncpy n s).str = s.truncate (n + 1) := by
  have hcopy : strncpy n s = strncpy n (s.truncate (n + 1)) := by
    apply CArray.ext
    show (s.1 ++ List.replicate n 0).take n = (s.1.take n ++ List.replicate n 0).take n
    obtain hle | hle := Nat.le_total s.1.length n
    · rw [List.take_of_length_le hle]
    · have hlen : (s.1.take n).length = n := by rw [List.length_take, Nat.min_eq_left hle]
      rw [List.take_append_of_le_length hle,
        List.take_append_of_le_length (Nat.le_of_eq hlen.symm), List.take_take, Nat.min_self]
  rw [hcopy]
  exact str_strncpy (by rw [CString.length_truncate]; omega)

/-- What is stored is what a buffer of the same size holds only if the NUL fits in. -/
theorem str_strncpy_eq_truncate (hn : 0 < n) {s : CString} :
    (strncpy n s).str = s.truncate n ↔ s.length < n := by
  rw [str_strncpy_eq]
  constructor
  · intro h
    have hlen := congrArg CString.length h
    rw [CString.length_truncate, CString.length_truncate] at hlen
    omega
  · intro h
    rw [CString.truncate_of_lt h, CString.truncate_of_lt (by omega)]

/-- The array holds a NUL. -/
def CArray.Terminated (a : CArray UInt8 n) : Prop := (0 : UInt8) ∈ a.toList

instance (a : CArray UInt8 n) : Decidable a.Terminated :=
  inferInstanceAs (Decidable ((0 : UInt8) ∈ a.toList))

theorem CArray.terminated_of_length {a : CArray UInt8 n} (h : a.str.length < n) :
    a.Terminated := by
  by_contra hnone
  have hwhole : a.str.1 = a.toList := by
    refine List.takeWhile_eq_self_iff.mpr fun b hb => ?_
    have hne : b ≠ 0 := by
      rintro rfl
      exact hnone hb
    simpa using hne
  rw [CString.length, hwhole, a.length_toList] at h
  exact Nat.lt_irrefl _ h

theorem terminated_strncpy {s : CString} (h : s.length < n) : (strncpy n s).Terminated :=
  CArray.terminated_of_length (by rwa [str_strncpy (Nat.le_of_lt h)])

/-- `strcmp` of the bytes of an array and of a string, whether it is 0. The bytes are compared as
long as they are equal, and there is no result if that leaves the array. -/
def strcmpBytes : List UInt8 → List UInt8 → Option Bool
  | [], _ => none
  | b :: _, [] => some (b = 0)
  | b :: bytes, c :: s => if b = c then strcmpBytes bytes s else some false

/-- `strcmp(a, s) == 0`. -/
def CArray.strcmp (a : CArray UInt8 n) (s : CString) : Option Bool := strcmpBytes a.toList s.1

/-- The string begins with the whole array, which has no NUL then, so that a comparison of the two
leaves the array. -/
def CArray.Overrun (a : CArray UInt8 n) (s : CString) : Prop := a.toList <+: s.1

instance (a : CArray UInt8 n) (s : CString) : Decidable (a.Overrun s) :=
  inferInstanceAs (Decidable (a.toList <+: s.1))

theorem strcmpBytes_eq {bytes s : List UInt8} (hs : (0 : UInt8) ∉ s) :
    strcmpBytes bytes s = if bytes <+: s then none else
      some (decide (bytes.takeWhile (· ≠ 0) = s)) := by
  induction bytes generalizing s with
  | nil => simp [strcmpBytes]
  | cons b bytes ih =>
    cases s with
    | nil => by_cases hb : b = 0 <;> simp [strcmpBytes, hb]
    | cons c s =>
      obtain ⟨hc, hrest⟩ := not_or.mp (fun h => hs (List.mem_cons.mpr h))
      by_cases h : b = c
      · subst h
        have hb : b ≠ 0 := Ne.symm hc
        rw [strcmpBytes, if_pos rfl, ih hrest]
        simp [hb, List.cons_prefix_cons]
      · have hother : (b :: bytes).takeWhile (· ≠ 0) ≠ c :: s := by
          by_cases hb : b = 0 <;> simp [hb, h]
        rw [strcmpBytes, if_neg h, if_neg (fun hpre => h (List.cons_prefix_cons.mp hpre).1)]
        simpa using hother

/-- A comparison that stays within the array tells whether it holds the string. -/
theorem CArray.strcmp_eq (a : CArray UInt8 n) (s : CString) :
    a.strcmp s = if a.Overrun s then none else some (decide (a.str = s)) := by
  rw [strcmp, strcmpBytes_eq s.2]
  refine if_congr Iff.rfl rfl (congrArg some (decide_eq_decide.mpr ?_))
  show a.str.1 = s.1 ↔ a.str = s
  exact Subtype.ext_iff.symm

theorem CArray.strcmp_of_not_overrun {a : CArray UInt8 n} {s : CString} (h : ¬ a.Overrun s) :
    a.strcmp s = some (decide (a.str = s)) := by
  rw [strcmp_eq, if_neg h]

theorem CArray.decide_str_of_strcmp {a : CArray UInt8 n} {s : CString} {b : Bool}
    (h : a.strcmp s = some b) : decide (a.str = s) = b := by
  rw [strcmp_eq] at h
  split at h
  · cases h
  · exact Option.some.inj h

/-- Only a string that does not fit into the array leads out of it. -/
theorem CArray.Overrun.le {a : CArray UInt8 n} {s : CString} (h : a.Overrun s) : n ≤ s.length := by
  have hle := h.length_le
  rwa [a.length_toList] at hle

theorem CArray.not_overrun_of_lt {s : CString} (h : s.length < n) (a : CArray UInt8 n) :
    ¬ a.Overrun s := fun hover => absurd hover.le (Nat.not_le.mpr h)

/-- A comparison ends at the NUL. -/
theorem CArray.Terminated.not_overrun {a : CArray UInt8 n} (h : a.Terminated) (s : CString) :
    ¬ a.Overrun s := fun hover => s.2 (hover.subset h)

/-- No comparison with a string that leads out of the array says that they are equal. -/
theorem CArray.strcmp_ne_true {s : CString} (h : n ≤ s.length) (a : CArray UInt8 n) :
    a.strcmp s ≠ some true := by
  intro htrue
  have hstr : a.str = s := of_decide_eq_true (decide_str_of_strcmp htrue)
  rw [strcmp_eq, if_pos] at htrue
  · cases htrue
  · -- the string of the array is as long as the array
    have hprefix : a.str.1 <+: a.toList := List.takeWhile_prefix _
    have hlen : a.toList.length ≤ a.str.1.length := by
      rw [hstr, a.length_toList]
      exact h
    have hwhole : a.str.1 = a.toList := hprefix.eq_of_length_le hlen
    exact ⟨[], by rw [List.append_nil, ← hstr, hwhole]⟩

/-- A string that is found leaves room for a NUL. -/
theorem CArray.length_lt_of_strcmp {a : CArray UInt8 n} {s : CString}
    (h : a.strcmp s = some true) : s.length < n :=
  Nat.not_le.mp fun hle => strcmp_ne_true hle a h

/-- Steps for the elements of a list, of which some have no result. -/
theorem mapM_eq_ite {α β : Type} {f : α → Option β} {P : α → Prop} [DecidablePred P] {g : α → β}
    (hf : ∀ x, f x = if P x then none else some (g x)) (xs : List α) :
    xs.mapM f = if ∃ x ∈ xs, P x then none else some (xs.map g) := by
  induction xs with
  | nil => simp
  | cons x rest ih =>
    rw [List.mapM_cons, ih, hf]
    by_cases hx : P x
    · simp [hx]
    · by_cases hrest : ∃ y ∈ rest, P y <;> simp [hx, hrest]

/-- A search for a string in a field of the records leaves an array or finds the first field that
holds the string. -/
theorem CArray.locate?_strcmp {ρ : Type} (field : ρ → CArray UInt8 n) (s : CString)
    (file : List ρ) : RecordFile.locate? (fun r => (field r).strcmp s) file =
      if ∃ r ∈ file, (field r).Overrun s then none
      else some (RecordFile.locate (fun r => decide ((field r).str = s)) file) := by
  by_cases hover : ∃ r ∈ file, (field r).Overrun s
  · obtain ⟨r, hr, hrun⟩ := hover
    rw [if_pos ⟨r, hr, hrun⟩]
    exact RecordFile.locate?_eq_none (fun x _ => strcmp_ne_true hrun.le (field x))
      ⟨r, hr, by rw [strcmp_eq, if_pos hrun]⟩
  · rw [if_neg hover]
    exact RecordFile.locate?_of_forall fun r hr =>
      strcmp_of_not_overrun fun hrun => hover ⟨r, hr, hrun⟩

theorem length_str_le (a : CArray UInt8 n) : a.str.length ≤ n := by
  have hle := (List.takeWhile_sublist (l := a.toList) (· ≠ 0)).length_le
  rwa [a.length_toList] at hle

/-- Copying the string of an array into an array of the same size. -/
@[simp] theorem str_strncpy_str (a : CArray UInt8 n) : (strncpy n a.str).str = a.str :=
  str_strncpy (length_str_le a)

end Strings

/-! ## Loops -/

section Loops

variable {σ α : Type} {n : Nat}

/-- `for (j = i; j < i + k; j++) body`. -/
def forLoop (body : Int → σ → Option σ) : Int → Nat → σ → Option σ
  | _, 0, s => some s
  | i, k + 1, s =>
    match body i s with
    | none => none
    | some s' => forLoop body (i + 1) k s'

/-- What holds before the loop and is carried from each index to the next holds after it. -/
theorem forLoop_spec {f : Int → σ → Option σ} {I : Int → σ → Prop} {i : Int} {k : Nat} {s : σ}
    (h : I i s) (hbody : ∀ j s, i ≤ j → j < i + k → I j s → ∃ s', f j s = some s' ∧ I (j + 1) s') :
    ∃ s', forLoop f i k s = some s' ∧ I (i + k) s' := by
  induction k generalizing i s with
  | zero => exact ⟨s, rfl, by simpa using h⟩
  | succ k ih =>
    obtain ⟨s₁, hs₁, h₁⟩ := hbody i s (Int.le_refl i) (by omega) h
    obtain ⟨s', hs', h'⟩ := ih h₁ fun j s hj hk => hbody j s (by omega) (by omega)
    refine ⟨s', ?_, ?_⟩
    · simp only [forLoop, hs₁, hs']
    · rwa [show i + ((k + 1 : Nat) : Int) = i + 1 + k by omega]

/-- What every round of a loop that ends keeps, the loop keeps. -/
theorem forLoop_invariant {body : Int → σ → Option σ} {I : σ → Prop} {i : Int} {k : Nat} {s s' : σ}
    (hbody : ∀ j s s', i ≤ j → j < i + k → I s → body j s = some s' → I s') (h : I s)
    (hloop : forLoop body i k s = some s') : I s' := by
  induction k generalizing i s with
  | zero =>
    cases hloop
    exact h
  | succ k ih =>
    rw [forLoop] at hloop
    split at hloop
    · cases hloop
    · next s₁ hs₁ =>
      refine ih (fun j s s' hj hk => hbody j s s' (by omega) (by omega)) ?_ hloop
      exact hbody i s s₁ (Int.le_refl i) (by omega) h hs₁

/-- `for (j = i; j < i + k; j++) if (p(a[j])) break;`: the index where the loop stops, if it
does. The test may have no result. -/
def CArray.search (p : α → Option Bool) (a : CArray α n) : Int → Nat → Option (Option Int)
  | _, 0 => some none
  | i, k + 1 =>
    match a.get? i with
    | none => none
    | some x => (p x).bind fun found => if found then some (some i) else search p a (i + 1) k

/-- The loop stops at the first element with the property, among those it looks at. -/
theorem CArray.search_eq {p : α → Option Bool} (a : CArray α n) {i k : Nat} (h : i + k ≤ n) :
    a.search p i k = (RecordFile.locate? p ((a.toList.drop i).take k)).map
      (Option.map fun x => ((i + x.1 : Nat) : Int)) := by
  induction k generalizing i with
  | zero => simp [search, RecordFile.locate?]
  | succ k ih =>
    have hi : i < a.toList.length := by
      rw [a.length_toList]
      omega
    have hnext : ((i : Int) + 1) = ((i + 1 : Nat) : Int) := rfl
    rw [search, get?_ofNat, List.getElem?_eq_getElem hi, List.drop_eq_getElem_cons hi,
      List.take_succ_cons, RecordFile.locate?]
    dsimp only
    cases hx : p a.toList[i] with
    | none => rfl
    | some found =>
      cases found with
      | true => rfl
      | false =>
        rw [Option.bind_some, Option.bind_some, hnext]
        simp only [Bool.false_eq_true, if_false]
        rw [ih (by omega), Option.map_map]
        refine congrArg (Option.map · _) (funext fun x => ?_)
        simp only [Function.comp_apply, Option.map_map]
        refine congrArg (Option.map · x) (funext fun y => ?_)
        simp only [Function.comp_apply]
        omega

end Loops

end CLang
