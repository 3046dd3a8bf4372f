import AcademiaCr.Library.RecordFile

/-!
# Open files and their positions

A file is read and written at its position, and both move the position on by one record. A loop
that seeks back to overwrite the record that it has read is at the next record again afterwards.
The loops below search a file, copy records of it to another file, and sweep over it.

## Main definitions

- `OpenFile`: an open file, `OpenFile.read`, `OpenFile.lseek` and `OpenFile.write`
- `OpenFile.between`: a file at the position between two parts
- `search_between`, `copy_between`, `sweep_between`: what the loops compute
-/

namespace RecordFile

variable {ρ : Type}

/-- The records of a file, and the position where it is read and written. -/
@[ext] structure OpenFile (ρ : Type) where
  records : List ρ
  pos : Nat

namespace OpenFile

/-- `open`. -/
def start (records : List ρ) : OpenFile ρ := ⟨records, 0⟩

/-- `read`: the record at the position, if it is not at the end of the file. -/
def read (f : OpenFile ρ) : Option (ρ × OpenFile ρ) :=
  f.records[f.pos]?.map fun r => (r, { f with pos := f.pos + 1 })

/-- `lseek(fd, pos, SEEK_SET)`. -/
def lseek (f : OpenFile ρ) (pos : Nat) : OpenFile ρ := { f with pos }

/-- `write`: over the record at the position, or after the last one. -/
def write (f : OpenFile ρ) (r : ρ) : OpenFile ρ :=
  ⟨f.records.take f.pos ++ r :: f.records.drop (f.pos + 1), f.pos + 1⟩

/-! ## Loops -/

/-- `while (read(fd, &r) > 0) if (p(r)) { found = 1; break; }`, with a test that may have no
result. -/
def search (p : ρ → Option Bool) : Nat → OpenFile ρ → Option (Bool × OpenFile ρ)
  | 0, _ => none
  | fuel + 1, f =>
    match f.read with
    | none => some (false, f)
    | some (r, f) => (p r).bind fun found =>
      if found then some (true, f) else search p fuel f

/-- `while (read(fd, &r) > 0) if (keep(r)) write(out, &r);`. -/
def copy (keep : ρ → Option Bool) : Nat → OpenFile ρ → OpenFile ρ → Option (OpenFile ρ × OpenFile ρ)
  | 0, _, _ => none
  | fuel + 1, f, out =>
    match f.read with
    | none => some (f, out)
    | some (r, f) => (keep r).bind fun kept =>
      if kept then copy keep fuel f (out.write r) else copy keep fuel f out

/-- `while (read(fd, &r) > 0) { if (changed(r)) { lseek(fd, pos); write(fd, edit(r)); } pos++; }`,
with positions that count records. -/
def sweep (changed : ρ → Option Bool) (edit : ρ → ρ) : Nat → Nat → OpenFile ρ → Option (OpenFile ρ)
  | 0, _, _ => none
  | fuel + 1, pos, f =>
    match f.read with
    | none => some f
    | some (r, f) => (changed r).bind fun edited =>
      if edited then sweep changed edit fuel (pos + 1) ((f.lseek pos).write (edit r))
      else sweep changed edit fuel (pos + 1) f

/-! ## What the loops compute -/

/-- A file at the position between two parts. -/
def between (before rest : List ρ) : OpenFile ρ := ⟨before ++ rest, before.length⟩

variable {p : ρ → Option Bool} {q : ρ → Bool} {f : ρ → ρ} {before copied rest : List ρ} {r : ρ}
  {fuel : Nat}

theorem start_eq (records : List ρ) : start records = between [] records := rfl

theorem lseek_zero (f : OpenFile ρ) : f.lseek 0 = between [] f.records := rfl

@[simp] theorem records_between : (between before rest).records = before ++ rest := rfl

@[simp] theorem read_nil : (between before []).read = none := by
  simp [read, between]

@[simp] theorem read_cons :
    (between before (r :: rest)).read = some (r, between (before ++ [r]) rest) := by
  simp [read, between]

/-- What is written at the end is appended. -/
@[simp] theorem write_nil : (between before []).write r = between (before ++ [r]) [] := by
  simp [write, between]

/-- Seeking back and writing replaces the record that has been read, and nothing else. -/
@[simp] theorem write_lseek (r' : ρ) :
    ((between (before ++ [r]) rest).lseek before.length).write r' =
      between (before ++ [r']) rest := by
  simp [write, lseek, between]

/-- The search goes through the records as a search of the list does. -/
theorem search_between (before : List ρ) (hfuel : rest.length < fuel) :
    (search p fuel (between before rest)).map (fun out => (out.1, out.2.records)) =
      (locate? p rest).map fun found => (found.isSome, before ++ rest) := by
  induction rest generalizing before fuel with
  | nil =>
    cases fuel with
    | zero => cases hfuel
    | succ fuel => simp [search, locate?]
  | cons r rest ih =>
    cases fuel with
    | zero => cases hfuel
    | succ fuel =>
      have hrest := ih (before ++ [r]) (Nat.lt_of_succ_lt_succ hfuel)
      rw [search, read_cons, locate?]
      dsimp only
      cases p r with
      | none => rfl
      | some found =>
        cases found with
        | true => simp
        | false =>
          rw [Option.bind_some, Option.bind_some, if_neg (by decide), if_neg (by decide), hrest,
            Option.map_map, List.append_assoc, List.singleton_append]
          refine congrArg (Option.map · _) (funext fun x => ?_)
          cases x <;> rfl

/-- The records to keep are appended to the other file. -/
theorem copy_between (before copied : List ρ) (hp : ∀ r ∈ rest, p r = some (q r))
    (hfuel : rest.length < fuel) :
    copy p fuel (between before rest) (between copied []) =
      some (between (before ++ rest) [], between (copied ++ rest.filter q) []) := by
  induction rest generalizing before copied fuel with
  | nil =>
    cases fuel with
    | zero => cases hfuel
    | succ fuel => simp [copy]
  | cons r rest ih =>
    cases fuel with
    | zero => cases hfuel
    | succ fuel =>
      have hrest : ∀ x ∈ rest, p x = some (q x) := fun x hx => hp x (List.mem_cons_of_mem _ hx)
      have hnext := ih (before ++ [r]) (copied ++ [r]) hrest (Nat.lt_of_succ_lt_succ hfuel)
      have hskip := ih (before ++ [r]) copied hrest (Nat.lt_of_succ_lt_succ hfuel)
      rw [copy, read_cons]
      dsimp only
      rw [hp r List.mem_cons_self, Option.bind_some]
      split
      · next hr =>
        rw [write_nil, hnext, List.filter_cons_of_pos hr]
        simp
      · next hr =>
        rw [hskip, List.filter_cons_of_neg hr]
        simp

/-- Every record that has to be changed is replaced at its own position. -/
theorem sweep_between (before : List ρ) (hfuel : rest.length < fuel) :
    sweep p f fuel before.length (between before rest) =
      (rest.mapM fun r => (p r).map fun edited => if edited then f r else r).map fun rest' =>
        between (before ++ rest') [] := by
  induction rest generalizing before fuel with
  | nil =>
    cases fuel with
    | zero => cases hfuel
    | succ fuel => simp [sweep]
  | cons r rest ih =>
    cases fuel with
    | zero => cases hfuel
    | succ fuel =>
      -- both branches go on at the next record, behind the one that is read or written
      have hnext : ∀ r', sweep p f fuel (before.length + 1) (between (before ++ [r']) rest) =
          (rest.mapM fun r => (p r).map fun edited => if edited then f r else r).map fun rest' =>
            between (before ++ r' :: rest') [] := fun r' => by
        have hrest := ih (before ++ [r']) (Nat.lt_of_succ_lt_succ hfuel)
        rw [List.length_append, List.length_singleton] at hrest
        refine hrest.trans (congrArg (Option.map · _) (funext fun rest' => ?_))
        rw [List.append_assoc, List.singleton_append]
      rw [sweep, read_cons, List.mapM_cons]
      dsimp only
      cases p r with
      | none => rfl
      | some edited =>
        have hmap : ∀ r' (x : Option (List ρ)),
            (x.map fun rest' => between (before ++ r' :: rest') []) =
              ((some r').bind fun y => x.bind fun ys => some (y :: ys)).map fun rest' =>
                between (before ++ rest') [] := fun r' x => by cases x <;> rfl
        cases edited with
        | true => exact (congrArg _ (write_lseek (f r))).trans ((hnext (f r)).trans (hmap _ _))
        | false => exact (hnext r).trans (hmap _ _)

end OpenFile

end RecordFile
