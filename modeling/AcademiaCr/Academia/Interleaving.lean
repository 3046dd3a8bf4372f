import Mathlib.Logic.Function.Basic
import AcademiaCr.Academia.Agreement

/-!
# Calls of concurrent sessions

Sessions perform their calls at the same time. A section under `file_sem` is one step, and so is
each `open` before a section: a session may open `courses.dat` and wait, while `remove_course`
gives the name to another file. The sections in the order in which they took `file_sem` are
compared with the same sections on the files that have the names.

## Main definitions

- `FileServer`, `FileServer.step`: sessions with one call each, and their steps
- `Fresh`: a section on `courses.dat` finds the file it has opened under that name
- `serial`: sections one after another on the records of the two files
- `Simulates`: the files hold these records, and each session is at the place in its call
- `serial_of_run`: runs with fresh sections do what their sections do one after another
-/

namespace AcademiaCr.Academia

open CLang RecordFile Resumption Prog Transition

variable {α β ι : Type} [DecidableEq ι]

/-! ## The steps -/

/-- The descriptor that a call opens `courses.dat` with. -/
def Syscall.coursesFd : Syscall β → β → Option Nat
  | .openFile .courses _, fd => fd
  | _, _ => none

/-- The files, and for each session the rest of its call, the number of sections it has done
and the descriptor with which it has opened `courses.dat` outside a section. -/
structure FileServer (ι : Type) where
  disk : Disk
  rest : ι → FileOp Int
  sections : ι → Nat
  opened : ι → Option Nat

namespace FileServer

/-- The sessions before their first step. -/
def start (d : Disk) (calls : ι → Call) : FileServer ι :=
  ⟨d, fun t => (calls t).program, fun _ => 0, fun _ => none⟩

/-- A session does a section, or one call outside its sections. -/
def step (s : FileServer ι) (t : ι) : Option (FileServer ι) :=
  match s.rest t with
  | .ret _ => none
  | .call e next =>
    if e.isWait then
      (s.disk.runSection (.call e next)).map fun out =>
        { s with
          disk := out.2
          rest := Function.update s.rest t out.1
          sections := Function.update s.sections t (s.sections t + 1) }
    else
      (Disk.exec e s.disk).map fun out =>
        { s with
          disk := out.2
          rest := Function.update s.rest t (next out.1)
          opened := Function.update s.opened t ((e.coursesFd out.1).or (s.opened t)) }

/-- The records of `students.dat`. -/
def students (s : FileServer ι) : List Student := s.disk.students.content.getD []

/-- The records of the file that is named `courses.dat`. -/
def courses (s : FileServer ι) : List Course := s.disk.courses.content.getD []

/-- The call has returned. -/
def Returned (s : FileServer ι) (t : ι) (code : Int) : Prop := s.rest t = .ret code

/-- All calls have returned. -/
def AllDone (s : FileServer ι) : Prop := ∀ t, ∃ code, s.Returned t code

/-- The code of a call that has returned. -/
def answer (s : FileServer ι) (t : ι) : Option Int :=
  match s.rest t with
  | .ret code => some code
  | .call _ _ => none

omit [DecidableEq ι] in
theorem exists_returned {s : FileServer ι} {t : ι} (h : (s.answer t).isSome) :
    ∃ code, s.Returned t code := by
  unfold answer at h
  split at h
  · next code hrest => exact ⟨code, hrest⟩
  · cases h

end FileServer

/-- A first section on `courses.dat` finds the file that it has opened under the name. -/
def Fresh (e : Event (FileServer ι) ι) : Prop :=
  e.before.sections e.label = 0 → ∀ fd, e.before.opened e.label = some fd →
    e.before.disk.courses.named = some fd

/-! ## Sections one after another -/

/-- What a section of a call does to the records of the files: the code, once it is decided, and
the records. -/
def Call.sectionOn (students : List Student) (courses : List Course) :
    Call → Nat → Option (Option Int × List Student × List Course)
  | .addStudent id name, _ => some (some 0, students ++ [newStudent id name], courses)
  | .updateStudent id newName, _ =>
    (overwriteIn (Student.strcmpId id)
      (fun student => some { student with name := strncpy maxName newName }) students).map
        fun out => (some out.1, out.2, courses)
  | .activateDeactivateStudent id activate, _ =>
    (overwriteIn (Student.strcmpId id)
      (fun student => some { student with active := activate }) students).map
        fun out => (some out.1, out.2, courses)
  | .addCourse id name facultyId seats, _ =>
    (addCourseTo id name facultyId seats courses).map fun out => (some out.1, students, out.2)
  | .updateCourse id newName newSeats, _ =>
    (overwriteIn (Course.strcmpId id) (fun course => course.resize newName newSeats) courses).map
      fun out => (some out.1, students, out.2)
  | .removeCourse id, 0 =>
    (removeFrom id courses).map fun out => (some (if out.1 then 0 else -1), students, out.2)
  | .removeCourse id, _ + 1 => (sweepIn id students).map fun swept => (none, swept, courses)
  | .enrollCourse studentId courseId, _ =>
    (enrollIn studentId courseId students (some courses)).map fun out =>
      (some out.1, out.2.1, out.2.2.getD [])
  | .unenrollCourse studentId courseId, 0 =>
    (unenrollFrom studentId courseId courses).map fun records => (none, students, records)
  | .unenrollCourse studentId courseId, _ + 1 =>
    (unenrollIn studentId courseId students).map fun out => (some out.1, out.2, courses)

/-- The records after sections one after another, and the codes that they have decided. -/
structure Serial (ι : Type) where
  students : List Student
  courses : List Course
  code : ι → Option Int

/-- The section of a session. -/
def Serial.step (calls : ι → Call) (x : Serial ι) (turn : ι × Nat) : Option (Serial ι) :=
  ((calls turn.1).sectionOn x.students x.courses turn.2).map fun out =>
    ⟨out.2.1, out.2.2, Function.update x.code turn.1 (out.1.or (x.code turn.1))⟩

/-- Sections one after another. -/
def serial (calls : ι → Call) (students : List Student) (courses : List Course)
    (order : List (ι × Nat)) : Option (Serial ι) :=
  order.foldlM (Serial.step calls) ⟨students, courses, fun _ => none⟩

/-- One more section. -/
theorem serial_snoc (calls : ι → Call) (students : List Student) (courses : List Course)
    (order : List (ι × Nat)) (turn : ι × Nat) :
    serial calls students courses (order ++ [turn]) =
      (serial calls students courses order).bind (Serial.step calls · turn) := by
  rw [serial, List.foldlM_append]
  refine bind_congr fun x => ?_
  exact bind_pure (Serial.step calls x turn)

/-- The section that a step does, if it does one. -/
def sectionOf (e : Event (FileServer ι) ι) : Option (ι × Nat) :=
  if e.after.sections e.label = e.before.sections e.label then none
  else some (e.label, e.before.sections e.label)

/-- The sections of a run, in the order in which they took `file_sem`. -/
def sectionOrder (history : List (Event (FileServer ι) ι)) : List (ι × Nat) :=
  (history.filterMap sectionOf).reverse

/-! ## Where a session is -/

/-- The file that a call opens first. -/
def Call.file : Call → FileName
  | .addStudent _ _ | .updateStudent _ _ | .activateDeactivateStudent _ _
  | .enrollCourse _ _ => .students
  | .addCourse _ _ _ _ | .updateCourse _ _ _ | .removeCourse _ | .unenrollCourse _ _ => .courses

/-- Whether it is created. -/
def Call.create : Call → Bool
  | .addStudent _ _ | .addCourse _ _ _ _ => true
  | _ => false

/-- What a call does with the first file. -/
def Call.body : Call → Nat → FileOp Int
  | .addStudent id name => appendSection .students (newStudent id name)
  | .updateStudent id newName =>
    overwriteSection .students (Student.strcmpId id) fun student =>
      some { student with name := strncpy maxName newName }
  | .activateDeactivateStudent id activate =>
    overwriteSection .students (Student.strcmpId id) fun student =>
      some { student with active := activate }
  | .addCourse id name facultyId seats => addCourseSection id name facultyId seats
  | .updateCourse id newName newSeats =>
    overwriteSection .courses (Course.strcmpId id) fun course => course.resize newName newSeats
  | .removeCourse id => fun fd => (removeSection id fd).bind (removeFromStudents id)
  | .enrollCourse studentId courseId => enrollSection studentId courseId
  | .unenrollCourse studentId courseId => fun fd =>
    (unenrollRoster fd studentId courseId).bind fun _ => unenrollRecord studentId courseId

theorem Call.program_eq (call : Call) :
    call.program = withFile call.file call.create (-1) call.body := by
  cases call <;> rfl

/-- Where a session is in its call: the rest of the call, its finished sections, the descriptor
of `courses.dat` and the code that has been decided. `named` is the inode of `students.dat`. -/
inductive Place (named : Option Nat) :
    Call → FileOp Int → Nat → Option Nat → Option Int → Prop
  | start (call : Call) : Place named call call.program 0 none none
  | openedStudents {call : Call} {fd : Nat} : call.file = .students → named = some fd →
      Place named call (call.body fd) 0 none none
  | openedCourses {call : Call} {fd : Nat} : call.file = .courses →
      Place named call (call.body fd) 0 (some fd) none
  | removed {id : CString} {opened : Option Nat} (found : Bool) :
      Place named (.removeCourse id) (removeFromStudents id (some found)) 1 opened
        (some (if found then 0 else -1))
  | sweeping {id : CString} {sfd : Nat} {opened : Option Nat} (found : Bool) :
      named = some sfd →
      Place named (.removeCourse id)
        ((sweepSection id sfd).bind fun _ => pure (if found then 0 else -1)) 1 opened
        (some (if found then 0 else -1))
  | unrostered {studentId courseId : CString} {opened : Option Nat} :
      Place named (.unenrollCourse studentId courseId) (unenrollRecord studentId courseId) 1
        opened none
  | unlisting {studentId courseId : CString} {sfd : Nat} {opened : Option Nat} :
      named = some sfd →
      Place named (.unenrollCourse studentId courseId) (unenrollSection studentId courseId sfd) 1
        opened none
  | done {call : Call} {code : Int} {sections : Nat} {opened : Option Nat}
      {decided : Option Int} : (code = 0 ↔ decided = some 0) →
      Place named call (.ret code) sections opened decided

theorem Place.mono {named named' : Option Nat} {call : Call} {rest : FileOp Int} {sections : Nat}
    {opened : Option Nat} {decided : Option Int}
    (h : Place named call rest sections opened decided)
    (hnamed : ∀ fd, named = some fd → named' = some fd) :
    Place named' call rest sections opened decided := by
  cases h with
  | start => exact .start call
  | openedStudents hfile hfd => exact .openedStudents hfile (hnamed _ hfd)
  | openedCourses hfile => exact .openedCourses hfile
  | removed found => exact .removed found
  | sweeping found hfd => exact .sweeping found (hnamed _ hfd)
  | unrostered => exact .unrostered
  | unlisting hfd => exact .unlisting (hnamed _ hfd)
  | done hcode => exact .done hcode

/-- The sessions have done what their sections do one after another. -/
structure Simulates (calls : ι → Call) (s : FileServer ι) (x : Serial ι) : Prop where
  students : s.students = x.students
  courses : s.courses = x.courses
  place : ∀ t, Place s.disk.students.named (calls t) (s.rest t) (s.sections t) (s.opened t)
    (x.code t)
  /-- Only `remove_course` takes the name from a file that has been opened. -/
  opened : (∀ t id, calls t ≠ .removeCourse id) → ∀ t fd, s.opened t = some fd →
    s.disk.courses.named = some fd

variable {calls : ι → Call} {s s' : FileServer ι} {x x' : Serial ι} {t : ι}

/-- One session gets to another place, and the others stay where they are. -/
theorem Simulates.move (h : Simulates calls s x) {d : Disk} {p : FileOp Int} {n : Nat}
    {o : Option Nat} {v : Option Int}
    (hstudents : d.students.content.getD [] = y.students)
    (hcourses : d.courses.content.getD [] = y.courses)
    (hnamed : ∀ fd, s.disk.students.named = some fd → d.students.named = some fd)
    (hkeeps : (∀ id, calls t ≠ .removeCourse id) → ∀ fd, s.disk.courses.named = some fd →
      d.courses.named = some fd)
    (hopened : ∀ fd, o = some fd → s.opened t = some fd ∨ d.courses.named = some fd)
    (hcode : y.code = Function.update x.code t v)
    (hplace : Place d.students.named (calls t) p n o v) :
    Simulates calls ⟨d, Function.update s.rest t p, Function.update s.sections t n,
      Function.update s.opened t o⟩ y := by
  refine ⟨hstudents, hcourses, fun u => ?_, fun hno u fd hu => ?_⟩
  · rw [hcode]
    by_cases hu : u = t
    · subst hu
      simpa using hplace
    · simpa [hu] using (h.place u).mono hnamed
  · have hold : s.opened u = some fd → d.courses.named = some fd := fun hfd =>
      hkeeps (hno t) fd (h.opened hno u fd hfd)
    by_cases hut : u = t
    · subst hut
      obtain hfd | hfd := hopened fd (by simpa using hu)
      · exact hold hfd
      · exact hfd
    · exact hold (by simpa [hut] using hu)

namespace FileServer

theorem step_open {f : FileName} {create : Bool} {code : Int} {body : Nat → FileOp Int}
    (h : s.rest t = withFile f create code body) :
    s.step t = some { s with
      disk := s.disk.setFile f ((s.disk.file f).openFile create).2
      rest := Function.update s.rest t (match ((s.disk.file f).openFile create).1 with
        | none => .ret code
        | some fd => body fd)
      opened := Function.update s.opened t
        (((Syscall.openFile f create).coursesFd ((s.disk.file f).openFile create).1).or
          (s.opened t)) } := by
  rw [step, h]
  rfl

theorem step_section {next : Unit → FileOp Int} (h : s.rest t = .call .semWait next) :
    s.step t = (s.disk.runSection (s.rest t)).map fun out =>
      { s with
        disk := out.2
        rest := Function.update s.rest t out.1
        sections := Function.update s.sections t (s.sections t + 1) } := by
  rw [step, h]
  rfl

end FileServer

/-- A section that is followed by nothing. -/
theorem runSection_of_next {γ : Type} {d : Disk} {p : FileOp β} {out : Option γ} {code : γ → β}
    {disk : γ → Disk}
    (h : ∀ next : β → FileOp β,
      d.runSection (p.bind next) = out.map fun o => (next (code o), disk o)) :
    d.runSection p = out.map fun o => (.ret (code o), disk o) := by
  rw [← h .ret, bind_ret]

/-! ## One step -/

/-- A session opens a file. -/
theorem Simulates.open {f : FileName} {create : Bool} {code : Int} {body : Nat → FileOp Int}
    (h : Simulates calls s x) (hrest : s.rest t = withFile f create code body)
    (hs : s.step t = some s')
    (hplace : ∀ y, (s.disk.file f).openFile create = y →
      Place (s.disk.setFile f y.2).students.named (calls t)
        (match y.1 with
          | none => .ret code
          | some fd => body fd)
        (s.sections t) (((Syscall.openFile f create).coursesFd y.1).or (s.opened t)) (x.code t)) :
    s'.sections t = s.sections t ∧ Simulates calls s' x := by
  rw [FileServer.step_open hrest] at hs
  cases hs
  have hsections : s.sections = Function.update s.sections t (s.sections t) :=
    (Function.update_eq_self t s.sections).symm
  have hcode : x.code = Function.update x.code t (x.code t) :=
    (Function.update_eq_self t x.code).symm
  have hmove := h.move (y := x) (d := s.disk.setFile f ((s.disk.file f).openFile create).2)
    ?_ ?_ ?_ (fun _ => ?_) ?_ hcode (hplace _ rfl)
  · rw [← hsections] at hmove
    exact ⟨rfl, hmove⟩
  · rw [← h.students]
    cases f with
    | students => exact NamedFile.getD_content_openFile create
    | _ => rfl
  · rw [← h.courses]
    cases f with
    | courses => exact NamedFile.getD_content_openFile create
    | _ => rfl
  · intro fd hfd
    cases f with
    | students => exact NamedFile.named_openFile create hfd
    | _ => exact hfd
  · intro fd hfd
    cases f with
    | courses => exact NamedFile.named_openFile create hfd
    | _ => exact hfd
  · intro fd hfd
    cases f with
    | courses =>
      change ((s.disk.courses.openFile create).1.or (s.opened t)) = some fd at hfd
      obtain hopen | ⟨-, hold⟩ := Option.or_eq_some_iff.mp hfd
      · exact .inr (NamedFile.named_of_openFile hopen)
      · exact .inl hold
    | _ => exact .inl hfd

/-- A call that has not decided a code returns without it. -/
theorem Place.failed {named : Option Nat} {call : Call} {sections : Nat} {opened : Option Nat} :
    Place named call (.ret (-1)) sections opened none :=
  .done (by simp)

/-- A session after its first step. -/
theorem Place.opened {d : Disk} {call : Call} {f : FileName} (hfile : call.file = f)
    {y : Option Nat × NamedFile f.Record} (hy : (d.file f).openFile call.create = y) :
    Place (d.setFile f y.2).students.named call
      (match y.1 with
        | none => .ret (-1)
        | some fd => call.body fd)
      0 (((Syscall.openFile f call.create).coursesFd y.1).or none) none := by
  obtain ⟨_ | fd, file⟩ := y
  · exact .failed
  · cases f with
    | students =>
      refine .openedStudents hfile ?_
      have hnamed := NamedFile.named_of_openFile (congrArg Prod.fst hy)
      rwa [hy] at hnamed
    | courses => exact .openedCourses hfile
    | users => cases call <;> cases hfile
    | faculty => cases call <;> cases hfile

/-- A session does its first step. -/
theorem Simulates.step_start (h : Simulates calls s x) (hrest : s.rest t = (calls t).program)
    (hsections : s.sections t = 0) (hopened : s.opened t = none) (hcode : x.code t = none)
    (hs : s.step t = some s') : s'.sections t = s.sections t ∧ Simulates calls s' x := by
  refine h.open (hrest.trans (calls t).program_eq) hs fun y hy => ?_
  rw [hsections, hopened, hcode]
  exact .opened rfl hy

theorem withFile_bind {f : FileName} {create : Bool} {code : α} {body : Nat → FileOp α}
    (g : α → β) : ((withFile f create code body).bind fun a => .ret (g a)) =
      withFile f create (g code) fun fd => (body fd).bind fun a => .ret (g a) := by
  refine congrArg (Prog.call (Syscall.openFile f create)) (funext fun out => ?_)
  cases out <;> rfl

/-- A session that has removed a course opens `students.dat`. -/
theorem Simulates.step_removed (h : Simulates calls s x) {id : CString} {found : Bool}
    (hcall : calls t = .removeCourse id) (hrest : s.rest t = removeFromStudents id (some found))
    (hsections : s.sections t = 1) (hcode : x.code t = some (if found then 0 else -1))
    (hs : s.step t = some s') : s'.sections t = s.sections t ∧ Simulates calls s' x := by
  have hprogram : s.rest t = withFile .students false (if found then 0 else -1) fun fd =>
      (sweepSection id fd).bind fun _ => .ret (if found then 0 else -1) := by
    rw [hrest, ← withFile_bind (fun _ => if found then 0 else -1)]
    rfl
  refine h.open hprogram hs fun y hy => ?_
  rw [hcall, hsections, hcode]
  obtain ⟨_ | fd, file⟩ := y
  · exact .done (by simp)
  · have hnamed := NamedFile.named_of_openFile (congrArg Prod.fst hy)
    rw [hy] at hnamed
    exact .sweeping found hnamed

/-- A session that has taken a student from a roster opens `students.dat`. -/
theorem Simulates.step_unrostered (h : Simulates calls s x) {studentId courseId : CString}
    (hcall : calls t = .unenrollCourse studentId courseId)
    (hrest : s.rest t = unenrollRecord studentId courseId)
    (hsections : s.sections t = 1) (hcode : x.code t = none)
    (hs : s.step t = some s') : s'.sections t = s.sections t ∧ Simulates calls s' x := by
  refine h.open hrest hs fun y hy => ?_
  rw [hcall, hsections, hcode]
  obtain ⟨_ | fd, file⟩ := y
  · exact .failed
  · have hnamed := NamedFile.named_of_openFile (congrArg Prod.fst hy)
    rw [hy] at hnamed
    exact .unlisting hnamed

/-- What a section leaves: the files, the rest of the call and the code, if it is decided. -/
structure Performs (d : Disk) (call : Call) (n : Nat) (o : Option Nat) (v : Option Int)
    (out : FileOp Int × Disk) (y : Option Int × List Student × List Course) : Prop where
  students : out.2.students.content.getD [] = y.2.1
  courses : out.2.courses.content.getD [] = y.2.2
  named : ∀ fd, d.students.named = some fd → out.2.students.named = some fd
  keeps : (∀ id, call ≠ .removeCourse id) → ∀ fd, d.courses.named = some fd →
    out.2.courses.named = some fd
  place : Place out.2.students.named call out.1 (n + 1) o (y.1.or v)

/-- A session does a section. -/
theorem Simulates.section (h : Simulates calls s x) {next : Unit → FileOp Int}
    (hrest : s.rest t = .call .semWait next) (hs : s.step t = some s')
    (hperforms : ∀ out, s.disk.runSection (s.rest t) = some out →
      ∃ y, (calls t).sectionOn s.students s.courses (s.sections t) = some y ∧
        Performs s.disk (calls t) (s.sections t) (s.opened t) (x.code t) out y) :
    s'.sections t = s.sections t + 1 ∧
      ∃ x', x.step calls (t, s.sections t) = some x' ∧ Simulates calls s' x' := by
  rw [FileServer.step_section hrest] at hs
  obtain ⟨⟨p, d⟩, hout, rfl⟩ := Option.map_eq_some_iff.mp hs
  obtain ⟨⟨v, students, courses⟩, hsection, hp⟩ := hperforms _ hout
  refine ⟨Function.update_self .., ⟨students, courses, Function.update x.code t (v.or (x.code t))⟩,
    ?_, ?_⟩
  · rw [h.students, h.courses] at hsection
    rw [Serial.step, hsection, Option.map_some]
  · have hopened : s.opened = Function.update s.opened t (s.opened t) :=
      (Function.update_eq_self t s.opened).symm
    have hmove := h.move (y := ⟨students, courses, Function.update x.code t (v.or (x.code t))⟩)
      hp.students hp.courses hp.named hp.keeps (fun _ hfd => .inl hfd) rfl hp.place
    rw [← hopened] at hmove
    exact hmove

section Performs

variable {d : Disk} {p : FileOp Int} {call : Call} {n fd : Nat} {o : Option Nat} {v : Option Int}

/-- A section on `students.dat` that is the last of its call. -/
theorem exists_performs_students (hnamed : d.students.named = some fd)
    {f : List Student → Option (Int × List Student)}
    (hrun : d.runSection p =
      (f (d.students.read fd)).map fun out => (.ret out.1, d.setStudents fd out.2))
    (hsection : ∀ students courses, call.sectionOn students courses n =
      (f students).map fun out => (some out.1, out.2, courses)) :
    ∀ out, d.runSection p = some out →
      ∃ y, call.sectionOn (d.students.content.getD []) (d.courses.content.getD []) n = some y ∧
        Performs d call n o v out y := by
  intro out hout
  rw [hrun] at hout
  obtain ⟨⟨code, records⟩, hf, rfl⟩ := Option.map_eq_some_iff.mp hout
  have hcontent : d.students.content.getD [] = d.students.read fd := by
    rw [NamedFile.content_of_named hnamed, Option.getD_some]
  refine ⟨(some code, records, d.courses.content.getD []), ?_, ?_, rfl, fun _ h => h,
    fun _ _ h => h, ?_⟩
  · rw [hsection, hcontent, hf, Option.map_some]
  · rw [Disk.setStudents, NamedFile.content_update_self hnamed, Option.getD_some]
  · exact .done (by simp)

/-- A section on `courses.dat` that is the last of its call. -/
theorem exists_performs_courses (hnamed : d.courses.named = some fd)
    {f : List Course → Option (Int × List Course)}
    (hrun : d.runSection p =
      (f (d.courses.read fd)).map fun out => (.ret out.1, d.setCourses fd out.2))
    (hsection : ∀ students courses, call.sectionOn students courses n =
      (f courses).map fun out => (some out.1, students, out.2)) :
    ∀ out, d.runSection p = some out →
      ∃ y, call.sectionOn (d.students.content.getD []) (d.courses.content.getD []) n = some y ∧
        Performs d call n o v out y := by
  intro out hout
  rw [hrun] at hout
  obtain ⟨⟨code, records⟩, hf, rfl⟩ := Option.map_eq_some_iff.mp hout
  have hcontent : d.courses.content.getD [] = d.courses.read fd := by
    rw [NamedFile.content_of_named hnamed, Option.getD_some]
  refine ⟨(some code, d.students.content.getD [], records), ?_, rfl, ?_, fun _ h => h,
    fun _ _ h => h, ?_⟩
  · rw [hsection, hcontent, hf, Option.map_some]
  · rw [Disk.setCourses, NamedFile.content_update_self hnamed, Option.getD_some]
  · exact .done (by simp)

/-- Without `courses.dat`, the section of `enroll_course` does what it does with an empty one,
but for the code of the failure. -/
theorem enrollIn_missing {studentId courseId : CString} {students : List Student}
    {out : Int × List Student × Option (List Course)}
    (h : enrollIn studentId courseId students none = some out) :
    ∃ code, enrollIn studentId courseId students (some []) = some (code, out.2.1, some []) ∧
      (out.1 = 0 ↔ code = 0) ∧ out.2.2 = none := by
  unfold enrollIn at h ⊢
  obtain ⟨found, hfound, h⟩ := Option.bind_eq_some_iff.mp h
  rw [hfound, Option.bind_some]
  split at h
  · cases h
    exact ⟨_, rfl, Iff.rfl, rfl⟩
  · split at h
    · next hactive =>
      cases h
      exact ⟨_, if_pos hactive, Iff.rfl, rfl⟩
    · next hactive =>
      rw [if_neg hactive]
      split at h
      · cases h
      · cases h
        exact ⟨_, rfl, Iff.rfl, rfl⟩
      · cases h
        exact ⟨_, rfl, Iff.rfl, rfl⟩
      · cases h
        exact ⟨errCourseNotFound, rfl, by simp [errCourseNotFound], rfl⟩

theorem exists_performs_enroll (hnamed : d.students.named = some fd)
    (studentId courseId : CString) :
    ∀ out, d.runSection (enrollSection studentId courseId fd) = some out →
      ∃ y, (Call.enrollCourse studentId courseId).sectionOn (d.students.content.getD [])
          (d.courses.content.getD []) 0 = some y ∧
        Performs d (.enrollCourse studentId courseId) 0 o none out y := by
  have hrun := runSection_of_next fun next : Int → FileOp Int =>
    Disk.runSection_enroll (d := d) studentId courseId fd next
  have hcontent : d.students.content.getD [] = d.students.read fd := by
    rw [NamedFile.content_of_named hnamed, Option.getD_some]
  rw [hrun, hcontent]
  intro out hout
  obtain ⟨⟨code, students, courses⟩, henroll, rfl⟩ := Option.map_eq_some_iff.mp hout
  have hstore := NamedFile.content_store (enrollIn_isSome henroll).symm
  have hstudents : (d.enrolled fd students courses).students.content.getD [] = students := by
    rw [Disk.enrolled, NamedFile.content_update_self hnamed, Option.getD_some]
  have hkeeps : ∀ i, d.courses.named = some i →
      (d.enrolled fd students courses).courses.named = some i := fun i hi => by
    rwa [Disk.enrolled, NamedFile.named_store]
  cases hcourses : d.courses.content with
  | some records =>
    rw [hcourses] at henroll
    refine ⟨(some code, students, courses.getD []), ?_, hstudents, ?_, fun _ h => h,
      fun _ => hkeeps, .done (by simp)⟩
    · rw [Option.getD_some, Call.sectionOn, henroll, Option.map_some]
    · exact congrArg (Option.getD · []) hstore
  | none =>
    rw [hcourses] at henroll
    obtain ⟨code', henroll', hcode, hnone⟩ := enrollIn_missing henroll
    refine ⟨(some code', students, []), ?_, hstudents, ?_, fun _ h => h,
      fun _ => hkeeps, .done (by simpa using hcode)⟩
    · rw [Option.getD_none, Call.sectionOn, henroll']
      rfl
    · have hempty : courses = none := hnone
      rw [hempty] at hstore ⊢
      exact congrArg (Option.getD · []) hstore

theorem exists_performs_remove (hnamed : d.courses.named = some fd)
    (id : CString) :
    ∀ out, d.runSection ((removeSection id fd).bind (removeFromStudents id)) = some out →
      ∃ y, (Call.removeCourse id).sectionOn (d.students.content.getD [])
          (d.courses.content.getD []) 0 = some y ∧
        Performs d (.removeCourse id) 0 o none out y := by
  have hcontent : d.courses.content.getD [] = d.courses.read fd := by
    rw [NamedFile.content_of_named hnamed, Option.getD_some]
  rw [Disk.runSection_remove, hcontent]
  intro out hout
  obtain ⟨removed, hremoved, rfl⟩ := Option.map_eq_some_iff.mp hout
  refine ⟨_, by rw [Call.sectionOn, hremoved, Option.map_some], ?_⟩
  obtain rfl := removeFrom_eq hremoved
  by_cases hfound : (d.courses.read fd).any (Course.hasId id) = true
  · rw [hfound]
    refine ⟨rfl, ?_, fun _ h => h, fun h => absurd rfl (h id), .removed true⟩
    rw [if_pos rfl, NamedFile.content_rename, Option.getD_some]
  · rw [Bool.of_not_eq_true hfound]
    refine ⟨rfl, ?_, fun _ h => h, fun _ _ h => h, .removed false⟩
    rw [others_eq_self (Bool.of_not_eq_true hfound)]
    exact hcontent

theorem exists_performs_sweep (hnamed : d.students.named = some fd)
    (id : CString) (found : Bool) (hv : v = some (if found then 0 else -1)) :
    ∀ out, d.runSection ((sweepSection id fd).bind fun _ =>
        pure (if found then 0 else -1)) = some out →
      ∃ y, (Call.removeCourse id).sectionOn (d.students.content.getD [])
          (d.courses.content.getD []) 1 = some y ∧
        Performs d (.removeCourse id) 1 o v out y := by
  have hcontent : d.students.content.getD [] = d.students.read fd := by
    rw [NamedFile.content_of_named hnamed, Option.getD_some]
  rw [Disk.runSection_sweep, hcontent]
  intro out hout
  obtain ⟨swept, hswept, rfl⟩ := Option.map_eq_some_iff.mp hout
  refine ⟨_, by rw [Call.sectionOn, hswept, Option.map_some], ?_, rfl, fun _ h => h,
    fun _ _ h => h, ?_⟩
  · rw [Disk.setStudents, NamedFile.content_update_self hnamed, Option.getD_some]
  · rw [hv]
    exact .done (by simp)

theorem exists_performs_unenrollRoster (hnamed : d.courses.named = some fd)
    (studentId courseId : CString) :
    ∀ out, d.runSection ((unenrollRoster fd studentId courseId).bind fun _ =>
        unenrollRecord studentId courseId) = some out →
      ∃ y, (Call.unenrollCourse studentId courseId).sectionOn (d.students.content.getD [])
          (d.courses.content.getD []) 0 = some y ∧
        Performs d (.unenrollCourse studentId courseId) 0 o none out y := by
  have hcontent : d.courses.content.getD [] = d.courses.read fd := by
    rw [NamedFile.content_of_named hnamed, Option.getD_some]
  rw [Disk.runSection_unenrollRoster, hcontent]
  intro out hout
  obtain ⟨records, hrecords, rfl⟩ := Option.map_eq_some_iff.mp hout
  refine ⟨(none, d.students.content.getD [], records), ?_, rfl, ?_, fun _ h => h,
    fun _ _ h => h, .unrostered⟩
  · rw [Call.sectionOn, hrecords, Option.map_some]
  · rw [Disk.setCourses, NamedFile.content_update_self hnamed, Option.getD_some]

end Performs

/-- A session does the section that its first step was for. -/
theorem exists_performs_body_students {d : Disk} {call : Call} {fd : Nat} {o : Option Nat}
    (hfile : call.file = .students) (hnamed : d.students.named = some fd) :
    ∀ out, d.runSection (call.body fd) = some out →
      ∃ y, call.sectionOn (d.students.content.getD []) (d.courses.content.getD []) 0 = some y ∧
        Performs d call 0 o none out y := by
  cases call with
  | addStudent id name =>
    exact exists_performs_students hnamed (f := fun records =>
        some (0, records ++ [newStudent id name]))
      (@runSection_of_next _ _ _ _ (some ((0 : Int), d.students.read fd ++ [newStudent id name]))
        _ _ fun next => Disk.runSection_append .students _ fd next)
      fun _ _ => rfl
  | updateStudent id newName =>
    exact exists_performs_students hnamed
      (runSection_of_next fun next => Disk.runSection_overwrite .students _ _ fd next)
      fun _ _ => rfl
  | activateDeactivateStudent id activate =>
    exact exists_performs_students hnamed
      (runSection_of_next fun next => Disk.runSection_overwrite .students _ _ fd next)
      fun _ _ => rfl
  | enrollCourse studentId courseId =>
    exact exists_performs_enroll hnamed studentId courseId
  | _ => cases hfile

/-- A session does its first section on `courses.dat`, on the file that has the name. -/
theorem exists_performs_body_courses {d : Disk} {call : Call} {fd : Nat} {o : Option Nat}
    (hfile : call.file = .courses) (hnamed : d.courses.named = some fd) :
    ∀ out, d.runSection (call.body fd) = some out →
      ∃ y, call.sectionOn (d.students.content.getD []) (d.courses.content.getD []) 0 = some y ∧
        Performs d call 0 o none out y := by
  cases call with
  | addCourse id name facultyId seats =>
    exact exists_performs_courses hnamed
      (runSection_of_next fun next =>
        Disk.runSection_addCourse id name facultyId seats fd next)
      fun _ _ => rfl
  | updateCourse id newName newSeats =>
    exact exists_performs_courses hnamed
      (runSection_of_next fun next => Disk.runSection_overwrite .courses _ _ fd next)
      fun _ _ => rfl
  | removeCourse id => exact exists_performs_remove hnamed id
  | unenrollCourse studentId courseId =>
    exact exists_performs_unenrollRoster hnamed studentId courseId
  | _ => cases hfile

theorem Call.exists_body_eq (call : Call) (fd : Nat) :
    ∃ next, call.body fd = .call .semWait next := by
  cases call <;> exact ⟨_, rfl⟩

/-- A session gets on with its call: what it does outside its sections is not seen, and a
section does what it does on the records under the names. -/
theorem Simulates.step (h : Simulates calls s x) (hs : s.step t = some s')
    (hfresh : Fresh ⟨s, t, s'⟩) :
    (s'.sections t = s.sections t ∧ Simulates calls s' x) ∨
      (s'.sections t = s.sections t + 1 ∧
        ∃ x', x.step calls (t, s.sections t) = some x' ∧ Simulates calls s' x') := by
  have hplace := h.place t
  generalize hcall : calls t = call, hrest : s.rest t = rest, hsections : s.sections t = n,
    hopened : s.opened t = o, hcode : x.code t = v at hplace
  cases hplace with
  | start =>
    have hstep := h.step_start (by rw [hrest, hcall]) hsections hopened hcode hs
    exact .inl (by rwa [hsections] at hstep)
  | openedStudents hfile hfd =>
    obtain ⟨next, hnext⟩ := call.exists_body_eq _
    have hstep := h.section (hrest.trans hnext) hs (by
      rw [hrest, hcall, hsections, hcode]
      exact exists_performs_body_students hfile hfd)
    exact .inr (by rwa [hsections] at hstep)
  | openedCourses hfile =>
    obtain ⟨next, hnext⟩ := call.exists_body_eq _
    have hstep := h.section (hrest.trans hnext) hs (by
      rw [hrest, hcall, hsections, hcode]
      exact exists_performs_body_courses hfile (hfresh hsections _ hopened))
    exact .inr (by rwa [hsections] at hstep)
  | removed found =>
    have hstep := h.step_removed hcall hrest hsections hcode hs
    exact .inl (by rwa [hsections] at hstep)
  | sweeping found hfd =>
    have hstep := h.section hrest hs (by
      rw [hrest, hcall, hsections, hcode]
      exact exists_performs_sweep hfd _ found rfl)
    exact .inr (by rwa [hsections] at hstep)
  | unrostered =>
    have hstep := h.step_unrostered hcall hrest hsections hcode hs
    exact .inl (by rwa [hsections] at hstep)
  | unlisting hfd =>
    have hstep := h.section hrest hs (by
      rw [hrest, hcall, hsections, hcode]
      exact exists_performs_students hfd
        (runSection_of_next fun next => Disk.runSection_unenroll _ _ _ next) fun _ _ => rfl)
    exact .inr (by rwa [hsections] at hstep)
  | done =>
    rw [FileServer.step, hrest] at hs
    cases hs

omit [DecidableEq ι] in
/-- Without `remove_course` no file loses its name. -/
theorem Simulates.fresh (h : Simulates calls s x) (hno : ∀ t id, calls t ≠ .removeCourse id) :
    Fresh ⟨s, t, s'⟩ := fun _ fd hfd => h.opened hno t fd hfd

omit [DecidableEq ι] in
/-- Before the first steps nothing has been done. -/
theorem simulates_start (calls : ι → Call) {d : Disk} :
    Simulates calls (.start d calls)
      ⟨d.students.content.getD [], d.courses.content.getD [], fun _ => none⟩ :=
  ⟨rfl, rfl, fun t => .start (calls t), fun _ _ _ h => by cases h⟩

/-- The sections that the steps of a run do, one after another. -/
theorem serial_of_run {d : Disk} {history : List (Event (FileServer ι) ι)}
    (hr : Run FileServer.step (.start d calls) history s) (hfresh : ∀ e ∈ history, Fresh e) :
    ∃ x, serial calls (d.students.content.getD []) (d.courses.content.getD [])
        (sectionOrder history) = some x ∧ Simulates calls s x := by
  induction hr with
  | start => exact ⟨_, rfl, simulates_start calls⟩
  | @snoc history s s' t hr hs ih =>
    obtain ⟨x, hserial, hx⟩ := ih fun e he => hfresh e (List.mem_cons_of_mem _ he)
    obtain ⟨hsame, hx'⟩ | ⟨hnext, x', hstep, hx'⟩ := hx.step hs (hfresh _ List.mem_cons_self)
    · refine ⟨x, ?_, hx'⟩
      rwa [sectionOrder, List.filterMap_cons_none (by exact if_pos hsame)]
    · refine ⟨x', ?_, hx'⟩
      have hturn : sectionOf ⟨s, t, s'⟩ = some (t, s.sections t) := if_neg (by dsimp only; omega)
      rw [sectionOrder, List.filterMap_cons_some hturn, List.reverse_cons, serial_snoc]
      exact Option.bind_eq_some_iff.mpr ⟨x, hserial, hstep⟩

/-- The code of a call that has returned. -/
theorem Place.code_iff {named : Option Nat} {call : Call} {n : Nat} {o : Option Nat}
    {v : Option Int} {code : Int} (h : Place named call (.ret code) n o v) :
    code = 0 ↔ v = some 0 := by
  generalize hrest : Prog.ret code = rest at h
  cases h with
  | start => cases call <;> cases hrest
  | openedStudents =>
    obtain ⟨next, hnext⟩ := call.exists_body_eq _
    rw [hnext] at hrest
    cases hrest
  | openedCourses =>
    obtain ⟨next, hnext⟩ := call.exists_body_eq _
    rw [hnext] at hrest
    cases hrest
  | done hiff =>
    cases hrest
    exact hiff
  | _ => cases hrest

omit [DecidableEq ι] in
theorem Simulates.code_iff (h : Simulates calls s x) {code : Int} (hret : s.Returned t code) :
    code = 0 ↔ x.code t = some 0 := by
  have hplace := h.place t
  rw [hret] at hplace
  exact hplace.code_iff

end AcademiaCr.Academia
