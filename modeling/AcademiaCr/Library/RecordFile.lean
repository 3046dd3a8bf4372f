import Mathlib.Tactic.Common

/-!
# Files of records

A file that holds records of one size is read record by record until one matches, and that
record is overwritten in place. With a key that the rewriting keeps, a search for another key
is not affected. A file is opened by name: what has been opened stays open on the same inode
when the name is given to another one.

## Main definitions

- `locate`: the position and the content of the first record that matches
- `locate?`: the same with a test that may have no result
- `find?_set_self`, `find?_set_other`: searches after it has been overwritten
- `ReplacesFirst`: one file is another with its first matching record replaced
- `NamedFile`: a file name with the inodes it has named, `NamedFile.content` what it names now
-/

namespace RecordFile

variable {ρ κ : Type}

/-- Read until a record matches. -/
def locate (p : ρ → Bool) : List ρ → Option (Nat × ρ)
  | [] => none
  | r :: rest => if p r then some (0, r) else (locate p rest).map fun x => (x.1 + 1, x.2)

theorem locate_eq_none {p : ρ → Bool} {file : List ρ} :
    locate p file = none ↔ file.find? p = none := by
  induction file with
  | nil => simp [locate]
  | cons r rest ih =>
    rw [locate]
    cases hr : p r with
    | true => simp [hr]
    | false => simpa [hr] using ih

theorem find?_of_locate {p : ρ → Bool} {file : List ρ} {i : Nat} {r : ρ}
    (h : locate p file = some (i, r)) : file.find? p = some r := by
  induction file generalizing i with
  | nil => cases h
  | cons x rest ih =>
    rw [locate] at h
    cases hx : p x with
    | true =>
      rw [hx] at h
      cases h
      exact List.find?_cons_of_pos hx
    | false =>
      simp only [hx, Bool.false_eq_true, if_false, Option.map_eq_some_iff, Prod.mk.injEq] at h
      obtain ⟨⟨j, r'⟩, hj, -, rfl⟩ := h
      rw [List.find?_cons_of_neg (by simp [hx])]
      exact ih hj

theorem mem_of_locate {p : ρ → Bool} {file : List ρ} {i : Nat} {r : ρ}
    (h : locate p file = some (i, r)) : r ∈ file ∧ p r = true :=
  ⟨List.mem_of_find?_eq_some (find?_of_locate h), List.find?_some (find?_of_locate h)⟩

/-- A record that a search finds is at some position. -/
theorem exists_locate {p : ρ → Bool} {file : List ρ} {r : ρ} (h : file.find? p = some r) :
    ∃ i, locate p file = some (i, r) := by
  cases hlocate : locate p file with
  | none =>
    rw [locate_eq_none.mp hlocate] at h
    cases h
  | some found =>
    rw [find?_of_locate (i := found.1) (r := found.2) hlocate] at h
    cases h
    exact ⟨found.1, rfl⟩

theorem isSome_locate (p : ρ → Bool) (file : List ρ) : (locate p file).isSome = file.any p := by
  induction file with
  | nil => rfl
  | cons r rest ih =>
    rw [locate, List.any_cons, ← ih]
    cases p r <;> simp

/-- The record is at the position. -/
theorem getElem?_of_locate {p : ρ → Bool} {file : List ρ} {i : Nat} {r : ρ}
    (h : locate p file = some (i, r)) : file[i]? = some r := by
  induction file generalizing i with
  | nil => cases h
  | cons x rest ih =>
    rw [locate] at h
    split at h
    · cases h
      rfl
    · obtain ⟨⟨j, r'⟩, hj, heq⟩ := Option.map_eq_some_iff.mp h
      cases heq
      exact ih hj

/-- No record before the position matches. -/
theorem not_of_lt_locate {p : ρ → Bool} {file : List ρ} {i j : Nat} {r x : ρ}
    (h : locate p file = some (i, r)) (hj : j < i) (hx : file[j]? = some x) : p x = false := by
  induction file generalizing i j with
  | nil => cases h
  | cons y rest ih =>
    rw [locate] at h
    split at h
    · cases h
      exact absurd hj (Nat.not_lt_zero _)
    · next hy =>
      obtain ⟨⟨i', r'⟩, hi', heq⟩ := Option.map_eq_some_iff.mp h
      cases heq
      cases j with
      | zero =>
        cases hx
        simpa using hy
      | succ j => exact ih hi' (Nat.lt_of_succ_lt_succ hj) hx

/-- Writing back what has been read changes nothing. -/
theorem set_of_locate {p : ρ → Bool} {file : List ρ} {i : Nat} {r : ρ}
    (h : locate p file = some (i, r)) : file.set i r = file := by
  obtain ⟨hlt, hget⟩ := List.getElem?_eq_some_iff.mp (getElem?_of_locate h)
  rw [← hget, List.set_getElem_self]

/-- The search for a record yields the position that a search for the index yields. -/
theorem exists_locate_of_findIdx? {p : ρ → Bool} {file : List ρ} {i : Nat}
    (h : file.findIdx? p = some i) : ∃ r, locate p file = some (i, r) := by
  induction file generalizing i with
  | nil => cases h
  | cons x rest ih =>
    rw [List.findIdx?_cons] at h
    rw [locate]
    split at h
    · next hx =>
      cases h
      exact ⟨x, if_pos hx⟩
    · next hx =>
      obtain ⟨j, hj, rfl⟩ := Option.map_eq_some_iff.mp h
      obtain ⟨r, hr⟩ := ih hj
      exact ⟨r, by rw [if_neg hx, hr, Option.map_some]⟩

/-- The search for the record yields the index. -/
theorem map_fst_locate (p : ρ → Bool) (file : List ρ) :
    (locate p file).map Prod.fst = file.findIdx? p := by
  cases hfind : file.findIdx? p with
  | none =>
    have hnone : (locate p file).isSome = false := by
      rw [isSome_locate, List.any_eq_false]
      exact fun r hr => by simp [List.findIdx?_eq_none_iff.mp hfind r hr]
    rw [Option.map_eq_none_iff]
    simpa using hnone
  | some i =>
    obtain ⟨r, hr⟩ := exists_locate_of_findIdx? hfind
    rw [hr, Option.map_some]

/-! ## Tests without a result -/

/-- Read until a record matches, with a test that may have no result. -/
def locate? (p : ρ → Option Bool) : List ρ → Option (Option (Nat × ρ))
  | [] => some none
  | r :: rest => (p r).bind fun found =>
    if found then some (some (0, r))
    else (locate? p rest).map (Option.map fun x => (x.1 + 1, x.2))

section Tests

variable {p : ρ → Option Bool} {q : ρ → Bool} {file : List ρ}

/-- What the search finds is what it finds with the results of the tests. -/
theorem locate_of_locate? (hq : ∀ r b, p r = some b → q r = b) {x : Option (Nat × ρ)}
    (h : locate? p file = some x) : locate q file = x := by
  induction file generalizing x with
  | nil =>
    cases h
    rfl
  | cons r rest ih =>
    obtain ⟨found, hfound, h⟩ := Option.bind_eq_some_iff.mp h
    rw [locate, hq r found hfound]
    cases found with
    | true =>
      cases h
      rfl
    | false =>
      obtain ⟨y, hy, rfl⟩ := Option.map_eq_some_iff.mp h
      rw [ih hy]
      rfl

/-- The test of the record that is found. -/
theorem eq_true_of_locate? {i : Nat} {r : ρ} (h : locate? p file = some (some (i, r))) :
    p r = some true := by
  induction file generalizing i with
  | nil => cases h
  | cons x rest ih =>
    obtain ⟨found, hfound, h⟩ := Option.bind_eq_some_iff.mp h
    cases found with
    | true =>
      cases h
      exact hfound
    | false =>
      obtain ⟨y, hy, h⟩ := Option.map_eq_some_iff.mp h
      obtain ⟨z, rfl, hz⟩ := Option.map_eq_some_iff.mp h
      cases hz
      exact ih hy

/-- Tests that have a result. -/
theorem locate?_of_forall (h : ∀ r ∈ file, p r = some (q r)) :
    locate? p file = some (locate q file) := by
  induction file with
  | nil => rfl
  | cons r rest ih =>
    rw [locate?, h r List.mem_cons_self, ih fun x hx => h x (List.mem_cons_of_mem _ hx), locate,
      Option.bind_some]
    split <;> rfl

/-- If no record matches, the search gets to each one of them. -/
theorem locate?_eq_none (hp : ∀ r ∈ file, p r ≠ some true) (h : ∃ r ∈ file, p r = none) :
    locate? p file = none := by
  induction file with
  | nil =>
    obtain ⟨r, hr, -⟩ := h
    cases hr
  | cons r rest ih =>
    rw [locate?]
    cases hr : p r with
    | none => rfl
    | some found =>
      cases found with
      | true => exact absurd hr (hp r List.mem_cons_self)
      | false =>
        obtain ⟨x, hx, hnone⟩ := h
        obtain rfl | hx := List.mem_cons.mp hx
        · rw [hr] at hnone
          cases hnone
        · have hrest := ih (fun y hy => hp y (List.mem_cons_of_mem _ hy)) ⟨x, hx, hnone⟩
          rw [Option.bind_some, hrest]
          rfl

end Tests

/-! ## Overwriting -/

/-- The first record that matches is replaced by one that may take its place. All others stay
where they are. -/
def ReplacesFirst (p : ρ → Bool) (edit : ρ → ρ → Prop) (file file' : List ρ) : Prop :=
  ∃ before r r' after, file = before ++ r :: after ∧ file' = before ++ r' :: after ∧
    (∀ x ∈ before, p x = false) ∧ p r = true ∧ edit r r'

/-- Overwriting the record that a search finds replaces the first one. -/
theorem replacesFirst_set {p : ρ → Bool} {edit : ρ → ρ → Prop} {file : List ρ} {i : Nat}
    {r r' : ρ} (h : locate p file = some (i, r)) (hedit : edit r r') :
    ReplacesFirst p edit file (file.set i r') := by
  induction file generalizing i with
  | nil => cases h
  | cons x rest ih =>
    rw [locate] at h
    split at h
    · next hx =>
      cases h
      exact ⟨[], _, r', rest, rfl, rfl, by simp, hx, hedit⟩
    · next hx =>
      obtain ⟨⟨j, y⟩, hj, heq⟩ := Option.map_eq_some_iff.mp h
      cases heq
      obtain ⟨before, r₀, r₁, after, hfile, hset, hbefore, hr⟩ := ih hj
      refine ⟨x :: before, r₀, r₁, after, by rw [hfile]; rfl, by rw [List.set_cons_succ, hset]; rfl,
        ?_, hr⟩
      rintro y hy
      obtain rfl | hy := List.mem_cons.mp hy
      · simpa using hx
      · exact hbefore y hy

section Key

variable [DecidableEq κ] {key : ρ → κ} {k : κ} {file : List ρ} {i : Nat} {r r' : ρ}

/-- A search for the key of the overwritten record finds it. -/
theorem find?_set_self (h : locate (fun x => key x = k) file = some (i, r)) (hr : key r' = k) :
    (file.set i r').find? (fun x => key x = k) = some r' := by
  induction file generalizing i with
  | nil => cases h
  | cons x rest ih =>
    rw [locate] at h
    by_cases hx : key x = k
    · simp only [hx, decide_true, if_true, Option.some.injEq, Prod.mk.injEq] at h
      obtain ⟨rfl, rfl⟩ := h
      simp [hr]
    · simp only [hx, decide_false, Bool.false_eq_true, if_false, Option.map_eq_some_iff,
        Prod.mk.injEq] at h
      obtain ⟨⟨j, y⟩, hj, rfl, rfl⟩ := h
      rw [List.set_cons_succ, List.find?_cons_of_neg (by simpa using hx)]
      exact ih hj

/-- A search for another key finds what it found before. -/
theorem find?_set_other (h : locate (fun x => key x = k) file = some (i, r)) (hr : key r' = k)
    {l : κ} (hl : l ≠ k) :
    (file.set i r').find? (fun x => key x = l) = file.find? (fun x => key x = l) := by
  induction file generalizing i with
  | nil => cases h
  | cons x rest ih =>
    rw [locate] at h
    by_cases hx : key x = k
    · simp only [hx, decide_true, if_true, Option.some.injEq, Prod.mk.injEq] at h
      obtain ⟨rfl, rfl⟩ := h
      rw [List.set_cons_zero, List.find?_cons_of_neg (by simpa [hr] using hl.symm),
        List.find?_cons_of_neg (by simpa [hx] using hl.symm)]
    · simp only [hx, decide_false, Bool.false_eq_true, if_false, Option.map_eq_some_iff,
        Prod.mk.injEq] at h
      obtain ⟨⟨j, y⟩, hj, rfl, rfl⟩ := h
      rw [List.set_cons_succ, List.find?_cons, List.find?_cons, ih hj]

/-- The keys stay as they are. -/
theorem map_set (h : locate (fun x => key x = k) file = some (i, r)) (hr : key r' = k) :
    (file.set i r').map key = file.map key := by
  induction file generalizing i with
  | nil => cases h
  | cons x rest ih =>
    rw [locate] at h
    by_cases hx : key x = k
    · simp only [hx, decide_true, if_true, Option.some.injEq, Prod.mk.injEq] at h
      obtain ⟨rfl, rfl⟩ := h
      simp [hr, hx]
    · simp only [hx, decide_false, Bool.false_eq_true, if_false, Option.map_eq_some_iff,
        Prod.mk.injEq] at h
      obtain ⟨⟨j, y⟩, hj, rfl, rfl⟩ := h
      rw [List.set_cons_succ, List.map_cons, List.map_cons, ih hj]

end Key

/-! ## Names and inodes -/

/-- A file name: the inode it names, and the records in every inode it has ever named. -/
structure NamedFile (ρ : Type) where
  named : Option Nat
  inodes : List (List ρ)
  lt_length : ∀ fd, named = some fd → fd < inodes.length

namespace NamedFile

/-- A name without a file. -/
def missing : NamedFile ρ := ⟨none, [], fun _ h => by cases h⟩

/-- The file that `rename(other, name)` leaves, or that `open` creates: the name is given to
a new inode. -/
def rename (f : NamedFile ρ) (records : List ρ) : NamedFile ρ where
  named := some f.inodes.length
  inodes := f.inodes ++ [records]
  lt_length fd h := by
    cases h
    rw [List.length_append]
    exact Nat.lt_succ_self _

/-- `open(name, flags)`, with `O_CREAT` or without it. -/
def openFile (create : Bool) (f : NamedFile ρ) : Option Nat × NamedFile ρ :=
  match f.named with
  | some fd => (some fd, f)
  | none => if create then (some f.inodes.length, f.rename []) else (none, f)

/-- The records in an inode. -/
def read (f : NamedFile ρ) (fd : Nat) : List ρ := f.inodes[fd]?.getD []

/-- Give an inode other records. -/
def update (f : NamedFile ρ) (fd : Nat) (records : List ρ) : NamedFile ρ where
  named := f.named
  inodes := f.inodes.set fd records
  lt_length i h := by
    rw [List.length_set]
    exact f.lt_length i h

/-- The records in the file that has the name, if there is one. -/
def content (f : NamedFile ρ) : Option (List ρ) := f.named.map f.read

variable {f : NamedFile ρ} {fd : Nat} {records : List ρ} {records' : Option (List ρ)}

@[simp] theorem content_missing : (missing : NamedFile ρ).content = none := rfl

@[simp] theorem named_update : (f.update fd records).named = f.named := rfl

@[simp] theorem named_rename : (f.rename records).named = some f.inodes.length := rfl

theorem content_of_named (h : f.named = some fd) : f.content = some (f.read fd) := by
  rw [content, h, Option.map_some]

theorem content_eq_none : f.content = none ↔ f.named = none := by
  rw [content, Option.map_eq_none_iff]

theorem read_update_self (h : f.named = some fd) : (f.update fd records).read fd = records := by
  have hlt := f.lt_length fd h
  simp [read, update, hlt]

@[simp] theorem update_read (f : NamedFile ρ) (fd : Nat) : f.update fd (f.read fd) = f := by
  have hset : f.inodes.set fd (f.inodes[fd]?.getD []) = f.inodes := by
    by_cases h : fd < f.inodes.length
    · simp [h]
    · rw [List.set_eq_of_length_le (Nat.le_of_not_lt h)]
  unfold update read
  congr

@[simp] theorem update_update (f : NamedFile ρ) (fd : Nat) (r₁ r₂ : List ρ) :
    (f.update fd r₁).update fd r₂ = f.update fd r₂ := by
  simp [update]

/-- An inode with records exists, and reads back what is written to it. -/
theorem read_update_of_ne_nil (h : f.read fd ≠ []) : (f.update fd records).read fd = records := by
  have hlt : fd < f.inodes.length := by
    by_contra hge
    simp [read, Nat.le_of_not_lt hge] at h
  simp [read, update, hlt]

/-- What is written to the file that has the name is its content. -/
theorem content_update_self (h : f.named = some fd) :
    (f.update fd records).content = some records := by
  rw [content_of_named (f := f.update fd records) h, read_update_self h]

@[simp] theorem content_rename : (f.rename records).content = some records := by
  simp [content, rename, read]

theorem openFile_of_named (create : Bool) (h : f.named = some fd) :
    f.openFile create = (some fd, f) := by
  rw [openFile, h]

theorem openFile_of_missing (h : f.named = none) : f.openFile false = (none, f) := by
  simp [openFile, h]

/-- Opening creates an empty file, if it creates one. -/
theorem content_openFile_create : (f.openFile true).2.content = some (f.content.getD []) := by
  cases h : f.named with
  | none => simp [openFile, h, content_eq_none.mpr h]
  | some fd => rw [openFile_of_named true h, content_of_named h, Option.getD_some]

/-- Opening leaves the records that can be read under the name. -/
theorem getD_content_openFile (create : Bool) :
    (f.openFile create).2.content.getD [] = f.content.getD [] := by
  cases create with
  | true => rw [content_openFile_create, Option.getD_some]
  | false =>
    cases h : f.named with
    | none => rw [openFile_of_missing h]
    | some fd => rw [openFile_of_named false h]

/-- Opening does not take the name from a file. -/
theorem named_openFile (create : Bool) (h : f.named = some fd) :
    (f.openFile create).2.named = some fd := by
  rw [openFile_of_named create h, h]

/-- The file that has been opened is the one that has the name. -/
theorem named_of_openFile {create : Bool} (h : (f.openFile create).1 = some fd) :
    (f.openFile create).2.named = some fd := by
  cases hn : f.named with
  | some i =>
    rw [openFile_of_named create hn] at h ⊢
    rwa [hn]
  | none =>
    cases create with
    | false =>
      rw [openFile_of_missing hn] at h
      cases h
    | true =>
      simp only [openFile, hn, if_true] at h ⊢
      exact h

theorem openFile_create : ∃ fd, (f.openFile true).1 = some fd ∧
    (f.openFile true).2.named = some fd := by
  cases h : f.named with
  | none => exact ⟨f.inodes.length, by simp [openFile, h]⟩
  | some fd => exact ⟨fd, by rw [openFile_of_named true h], by rw [openFile_of_named true h, h]⟩

/-- Write to the file that has the name, if there is one. -/
def store (f : NamedFile ρ) (records : Option (List ρ)) : NamedFile ρ :=
  match f.named, records with
  | some fd, some records => f.update fd records
  | _, _ => f

@[simp] theorem store_content (f : NamedFile ρ) : f.store f.content = f := by
  cases h : f.named with
  | none => simp [store, h]
  | some fd => simp [store, h, content_of_named h]

theorem store_of_named (h : f.named = some fd) : f.store (some records) = f.update fd records := by
  simp [store, h]

@[simp] theorem named_store (f : NamedFile ρ) (records : Option (List ρ)) :
    (f.store records).named = f.named := by
  unfold store
  split <;> rfl

theorem content_store (h : f.content.isSome = records'.isSome) :
    (f.store records').content = records' := by
  cases hn : f.named with
  | none =>
    rw [content_eq_none.mpr hn] at h
    rw [content_eq_none.mpr (by rwa [named_store])]
    exact (Option.not_isSome_iff_eq_none.mp (by simp [← h])).symm
  | some fd =>
    rw [content_of_named hn] at h
    obtain ⟨records, rfl⟩ := Option.isSome_iff_exists.mp h.symm
    rw [store_of_named hn, content_update_self hn]

/-- Opening changes no file that there is. -/
theorem read_openFile (create : Bool) (fd : Nat) : (f.openFile create).2.read fd = f.read fd := by
  cases h : f.named with
  | some i => rw [openFile_of_named create h]
  | none =>
    cases create with
    | false => rw [openFile_of_missing h]
    | true =>
      by_cases hlt : fd < f.inodes.length
      · simp [openFile, h, rename, read, List.getElem?_append_left, hlt]
      · by_cases heq : fd = f.inodes.length
        · simp [openFile, h, rename, read, heq]
        · have hge : f.inodes.length + 1 ≤ fd := by omega
          simp [openFile, h, rename, read, Nat.le_of_not_lt hlt,
            List.getElem?_eq_none (l := f.inodes ++ [[]]) (by simpa using hge)]

theorem length_openFile (create : Bool) :
    f.inodes.length ≤ (f.openFile create).2.inodes.length := by
  cases h : f.named with
  | some i => simp [openFile, h]
  | none => cases create <;> simp [openFile, h, rename]

/-- Opening and writing to a file that has been opened before, in either order. -/
theorem openFile_update (create : Bool) (h : fd < f.inodes.length) :
    (f.update fd records).openFile create =
      ((f.openFile create).1, (f.openFile create).2.update fd records) := by
  cases hn : f.named with
  | some i =>
    rw [openFile_of_named create hn]
    exact openFile_of_named create hn
  | none =>
    have hupdate : (f.update fd records).named = none := hn
    cases create with
    | false =>
      rw [openFile_of_missing hn]
      exact openFile_of_missing hupdate
    | true => simp [openFile, hn, update, rename, List.set_append_left _ _ h]

end NamedFile

end RecordFile
