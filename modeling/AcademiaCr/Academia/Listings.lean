import AcademiaCr.Library.Sections
import AcademiaCr.Academia.Discipline

/-!
# The listings write no file

The `view_…` functions and the authentication make only calls that leave all files as they
are, on every way through them.

## Main definitions

- `Syscall.reads`: the calls that change no file
- `ReadsOnly`: programs that make no other calls
-/

namespace AcademiaCr.Academia

open CLang RecordFile Resumption Prog

variable {α β : Type}

/-- The call changes no file. -/
def Syscall.reads : Syscall β → Bool
  | .openFile _ create => !create
  | .semWait | .semPost | .read _ _ | .malloc | .realloc | .stray _ => true
  | .openTemp | .append _ _ _ | .write _ _ _ _ | .writeTemp _ | .renameTemp => false

theorem Disk.exec_of_reads {e : Syscall β} {d d' : Disk} {r : β} (he : e.reads = true)
    (h : Disk.exec e d = some (r, d')) : d' = d := by
  cases e with
  | openFile f create =>
    have hcreate : create = false := by simpa [Syscall.reads] using he
    subst hcreate
    have hsame : ((d.file f).openFile false).2 = d.file f := by
      cases hn : (d.file f).named with
      | none => rw [NamedFile.openFile_of_missing hn]
      | some fd => rw [NamedFile.openFile_of_named false hn]
    cases h
    rw [hsame, Disk.setFile_file]
  | semWait | semPost | read | malloc | realloc =>
    cases h
    rfl
  | stray => cases h
  | openTemp | append | write | writeTemp | renameTemp => cases he

/-- The program changes no file. -/
abbrev ReadsOnly (p : FileOp α) : Prop := p.Calls fun _ e => e.reads = true

theorem ReadsOnly.bind {p : FileOp α} {f : α → FileOp β} (hp : ReadsOnly p)
    (hf : ∀ a, ReadsOnly (f a)) : ReadsOnly (p >>= f) :=
  calls_bind hp hf

theorem readsOnly_pure (a : α) : ReadsOnly (pure a : FileOp α) := trivial

theorem readsOnly_perform {e : Syscall β} (h : e.reads = true) : ReadsOnly (perform e) :=
  ⟨h, fun _ => trivial⟩

theorem readsOnly_release (code : α) : ReadsOnly (release code) :=
  (readsOnly_perform rfl).bind fun _ => readsOnly_pure code

theorem readsOnly_access (x : Option α) : ReadsOnly (access x) := by
  cases x with
  | none => exact readsOnly_perform rfl
  | some a => exact readsOnly_pure a

/-- A section on a file that is not created. -/
theorem readsOnly_section {f : FileName} {code : α} {body : Nat → FileOp α}
    (hbody : ∀ fd, ReadsOnly (body fd)) :
    ReadsOnly (withFile f false code fun fd => do
      perform .semWait
      body fd) := by
  refine (readsOnly_perform rfl).bind fun fd => ?_
  cases fd with
  | none => exact readsOnly_pure code
  | some fd => exact (readsOnly_perform rfl).bind fun _ => hbody fd

/-! ## Texts -/

theorem readsOnly_appendText (bufferSize : Nat) (result info : CString) :
    ReadsOnly (appendText bufferSize result info) := by
  rw [appendText]
  split
  · refine (readsOnly_perform rfl).bind fun grown => ?_
    split <;> exact readsOnly_pure _
  · exact readsOnly_pure _

theorem readsOnly_appendLines {ρ : Type} (fmt : Format ρ) (records : List ρ) (bufferSize : Nat)
    (result : CString) (count : Nat) :
    ReadsOnly (appendLines fmt records bufferSize result count) := by
  induction records generalizing bufferSize result count with
  | nil => exact readsOnly_pure _
  | cons r rest ih =>
    rw [appendLines]
    refine (readsOnly_access _).bind fun found => ?_
    split
    · refine (readsOnly_access _).bind fun line => (readsOnly_appendText _ _ _).bind fun out => ?_
      split
      · exact readsOnly_pure _
      · exact ih _ _ _
    · exact ih _ _ _

theorem readsOnly_appendNone (noneText : CString) (bufferSize : Nat) (result : CString)
    (count : Nat) : ReadsOnly (appendNone noneText bufferSize result count) := by
  rw [appendNone]
  split
  · exact readsOnly_appendText _ _ _
  · exact readsOnly_pure _

theorem readsOnly_finishText (out : Option (Nat × CString)) : ReadsOnly (finishText out) := by
  cases out <;> exact readsOnly_release _

theorem readsOnly_malloc {body : FileOp (Option CString)} (hbody : ReadsOnly body) :
    ReadsOnly (do if ← perform .malloc then body else release none) := by
  refine (readsOnly_perform rfl).bind fun allocated => ?_
  split
  · exact hbody
  · exact readsOnly_release _

theorem readsOnly_rosterLines (fmt : Format Id) (roster : CArray Id maxUsers) (i : Int)
    (k bufferSize : Nat) (result : CString) (count : Nat) :
    ReadsOnly (rosterLines fmt roster i k bufferSize result count) := by
  induction k generalizing i bufferSize result count with
  | zero => exact readsOnly_pure _
  | succ k ih =>
    refine (readsOnly_access _).bind fun entry => (readsOnly_access _).bind fun line =>
      (readsOnly_appendText _ _ _).bind fun out => ?_
    split
    · exact readsOnly_pure _
    · exact ih _ _ _ _

/-! ## The listings and the authentication -/

theorem readsOnly_listing (f : FileName) (fmt : Format f.Record) : ReadsOnly (listing f fmt) := by
  refine readsOnly_section fun fd => readsOnly_malloc ?_
  refine (readsOnly_perform rfl).bind fun records =>
    (readsOnly_appendLines fmt _ _ _ _).bind fun out => ?_
  split
  · exact readsOnly_release _
  · exact (readsOnly_appendNone _ _ _ _).bind fun out => readsOnly_finishText out

theorem readsOnly_slotLines (student : Student) : ReadsOnly (slotLines student) := by
  refine (readsOnly_appendLines _ _ _ _ _).bind fun out => ?_
  split
  · exact readsOnly_pure _
  · exact readsOnly_appendNone _ _ _ _

theorem readsOnly_enrollmentLines (fmt : Format Id) (course : Course) :
    ReadsOnly (enrollmentLines fmt course) := by
  refine (readsOnly_rosterLines _ _ _ _ _ _ _).bind fun out => ?_
  split
  · exact readsOnly_pure _
  · exact readsOnly_appendNone _ _ _ _

theorem readsOnly_viewEnrolledCourses (studentId : CString) :
    ReadsOnly (viewEnrolledCourses studentId) := by
  refine readsOnly_section fun fd => readsOnly_malloc ?_
  refine (readsOnly_perform rfl).bind fun records => (readsOnly_access _).bind fun found => ?_
  split
  · exact (readsOnly_slotLines _).bind fun out => readsOnly_finishText out
  · exact (readsOnly_appendText _ _ _).bind fun out => readsOnly_finishText out

theorem readsOnly_viewCourseEnrollments (courseId : CString) :
    ReadsOnly (viewCourseEnrollments courseId) := by
  refine readsOnly_section fun fd => readsOnly_malloc ?_
  refine (readsOnly_perform rfl).bind fun records => (readsOnly_access _).bind fun found => ?_
  split
  · exact (readsOnly_enrollmentLines _ _).bind fun out => readsOnly_finishText out
  · exact (readsOnly_appendText _ _ _).bind fun out => readsOnly_finishText out

theorem readsOnly_authenticate (userId password : CString) (expectedRole : Role) :
    ReadsOnly (authenticate userId password expectedRole) :=
  readsOnly_section fun _ => (readsOnly_perform rfl).bind fun _ =>
    (readsOnly_access _).bind fun _ => readsOnly_release _

end AcademiaCr.Academia
