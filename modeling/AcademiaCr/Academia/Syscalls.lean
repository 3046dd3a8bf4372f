import AcademiaCr.Library.Program
import AcademiaCr.Library.RecordFile
import AcademiaCr.Academia.Records

/-!
# System calls of the C server

The operations of `file_ops.c` are programs over the calls they make: opening files, taking and
giving back `file_sem`, reading and writing records, and allocating memory. `Disk.exec` answers
the calls from the files, as they are answered when nothing fails but opening a file that does
not exist.

## Main definitions

- `Syscall`: the calls
- `FileOp`: programs over them
- `Disk`, `Disk.exec`: the files, and what a call does with them
- `access`: an array access that may be out of range
-/

namespace AcademiaCr.Academia

open CLang RecordFile Resumption

/-- The files that hold records. -/
inductive FileName where
  | users
  | students
  | faculty
  | courses
  deriving DecidableEq, Repr

@[reducible] def FileName.Record : FileName → Type
  | .users => User
  | .students => Student
  | .faculty => Faculty
  | .courses => Course

/-- The calls of `file_ops.c`. A file is read record by record until its end, so `read` answers
all records of the file that has been opened. The record locks of `fcntl` have no effect: they
do not exclude threads of one process. -/
inductive Syscall : Type → Type 1 where
  /-- `open(f, flags)`, with `O_CREAT` or without it; fails without a descriptor. -/
  | openFile (f : FileName) (create : Bool) : Syscall (Option Nat)
  /-- `open("courses_temp.dat", O_WRONLY | O_CREAT | O_TRUNC)`. -/
  | openTemp : Syscall Bool
  | semWait : Syscall Unit
  | semPost : Syscall Unit
  | read (f : FileName) (fd : Nat) : Syscall (List f.Record)
  /-- `write` at the end of the file. -/
  | append (f : FileName) (fd : Nat) (r : f.Record) : Syscall Unit
  /-- `lseek` to the record at `pos`, and `write`. -/
  | write (f : FileName) (fd pos : Nat) (r : f.Record) : Syscall Unit
  | writeTemp (course : Course) : Syscall Unit
  /-- `rename("courses_temp.dat", "courses.dat")`. -/
  | renameTemp : Syscall Unit
  | malloc : Syscall Bool
  | realloc : Syscall Bool
  /-- An access outside an array. C does not say what it yields. -/
  | stray (α : Type) : Syscall α

abbrev FileOp := Prog Syscall

/-- A computation on arrays, which has no defined value if it leaves their bounds. -/
def access {α : Type} : Option α → FileOp α
  | some a => pure a
  | none => Prog.perform (.stray α)

/-! ## Files -/

structure Disk where
  users : NamedFile User
  students : NamedFile Student
  faculty : NamedFile Faculty
  courses : NamedFile Course
  /-- `courses_temp.dat`. -/
  temp : Option (List Course)

namespace Disk

/-- No file exists. -/
def empty : Disk := ⟨.missing, .missing, .missing, .missing, none⟩

def file (d : Disk) : (f : FileName) → NamedFile f.Record
  | .users => d.users
  | .students => d.students
  | .faculty => d.faculty
  | .courses => d.courses

def setFile (d : Disk) : (f : FileName) → NamedFile f.Record → Disk
  | .users, x => { d with users := x }
  | .students, x => { d with students := x }
  | .faculty, x => { d with faculty := x }
  | .courses, x => { d with courses := x }

variable {β : Type}

/-- The answer to a call, and the files after it. -/
def exec : Syscall β → Disk → Option (β × Disk)
  | .openFile f create, d =>
    some (((d.file f).openFile create).1, d.setFile f ((d.file f).openFile create).2)
  | .openTemp, d => some (true, { d with temp := some [] })
  | .semWait, d => some ((), d)
  | .semPost, d => some ((), d)
  | .read f fd, d => some ((d.file f).read fd, d)
  | .append f fd r, d =>
    some ((), d.setFile f ((d.file f).update fd ((d.file f).read fd ++ [r])))
  | .write f fd pos r, d =>
    some ((), d.setFile f ((d.file f).update fd (((d.file f).read fd).set pos r)))
  | .writeTemp course, d => some ((), { d with temp := d.temp.map (· ++ [course]) })
  | .renameTemp, d =>
    match d.temp with
    | none => some ((), d)
    | some records => some ((), { d with courses := d.courses.rename records, temp := none })
  | .malloc, d => some (true, d)
  | .realloc, d => some (true, d)
  | .stray _, _ => none

@[simp] theorem file_setFile (d : Disk) (f : FileName) (x : NamedFile f.Record) :
    (d.setFile f x).file f = x := by
  cases f <;> rfl

theorem file_setFile_ne (d : Disk) {f g : FileName} (h : g ≠ f) (x : NamedFile f.Record) :
    (d.setFile f x).file g = d.file g := by
  cases f <;> cases g <;> first | rfl | exact absurd rfl h

@[simp] theorem setFile_file (d : Disk) (f : FileName) : d.setFile f (d.file f) = d := by
  cases f <;> rfl

@[simp] theorem setFile_setFile (d : Disk) (f : FileName) (x y : NamedFile f.Record) :
    (d.setFile f x).setFile f y = d.setFile f y := by
  cases f <;> rfl

end Disk

end AcademiaCr.Academia
