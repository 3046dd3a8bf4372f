import AcademiaCr.Library.Run
import AcademiaCr.Academia.Sections

/-!
# Complete calls

An operation that nobody interrupts, as a function on the contents of `students.dat` and
`courses.dat`. The programs of `FileOps` compute these functions when they are executed from
their first call to their return.

## Main definitions

- `Call`: the operations on students and courses
- `Tables`: the contents of the two files
- `Call.apply`: a complete call, `execute_call`: its program computes it
-/

namespace AcademiaCr.Academia

open CLang RecordFile Resumption Prog

/-- The operations on students and courses, with their arguments. -/
inductive Call where
  | addStudent (id name : CString)
  | updateStudent (id newName : CString)
  | activateDeactivateStudent (id : CString) (activate : Int)
  | addCourse (id name facultyId : CString) (seats : Int)
  | updateCourse (id newName : CString) (newSeats : Int)
  | removeCourse (id : CString)
  | enrollCourse (studentId courseId : CString)
  | unenrollCourse (studentId courseId : CString)
  deriving DecidableEq

/-- The program of an operation. -/
def Call.program : Call → FileOp Int
  | .addStudent id name => Academia.addStudent id name
  | .updateStudent id newName => Academia.updateStudent id newName
  | .activateDeactivateStudent id activate => Academia.activateDeactivateStudent id activate
  | .addCourse id name facultyId seats => Academia.addCourse id name facultyId seats
  | .updateCourse id newName newSeats => Academia.updateCourse id newName newSeats
  | .removeCourse id => Academia.removeCourse id
  | .enrollCourse studentId courseId => Academia.enrollCourse studentId courseId
  | .unenrollCourse studentId courseId => Academia.unenrollCourse studentId courseId

/-! ## Contents -/

/-- The contents of `students.dat` and `courses.dat`, if they exist. -/
structure Tables where
  students : Option (List Student)
  courses : Option (List Course)

namespace Tables

/-- A section on `students.dat`, after it has been opened. -/
def onStudents (t : Tables) (f : List Student → Option (Int × List Student)) :
    Option (Int × Tables) :=
  match t.students with
  | none => some (-1, t)
  | some records => (f records).map fun out => (out.1, { t with students := some out.2 })

/-- A section on `courses.dat`, after it has been opened. -/
def onCourses (t : Tables) (f : List Course → Option (Int × List Course)) :
    Option (Int × Tables) :=
  match t.courses with
  | none => some (-1, t)
  | some records => (f records).map fun out => (out.1, { t with courses := some out.2 })

/-- What `remove_course` does with `students.dat`, if it exists. -/
def sweepStudents (id : CString) : Option (List Student) → Option (Option (List Student))
  | none => some none
  | some students => (sweepIn id students).map some

/-- What `remove_course` does with the contents. -/
def remove (t : Tables) (id : CString) : Option (Int × Tables) :=
  match t.courses with
  | none => some (-1, t)
  | some records => (removeFrom id records).bind fun out =>
    (sweepStudents id t.students).map fun students =>
      (if out.1 then 0 else -1, ⟨students, some out.2⟩)

/-- What `enroll_course` does with the contents. -/
def enroll (t : Tables) (studentId courseId : CString) : Option (Int × Tables) :=
  match t.students with
  | none => some (-1, t)
  | some students => (enrollIn studentId courseId students t.courses).map fun out =>
    (out.1, ⟨some out.2.1, out.2.2⟩)

/-- What `unenroll_course` does with the contents. -/
def unenroll (t : Tables) (studentId courseId : CString) : Option (Int × Tables) :=
  match t.courses with
  | none => some (-1, t)
  | some records => (unenrollFrom studentId courseId records).bind fun records' =>
    { t with courses := some records' }.onStudents (unenrollIn studentId courseId)

end Tables

/-- What a complete call returns and leaves in the files. -/
def Call.apply : Call → Tables → Option (Int × Tables)
  | .addStudent id name, t =>
    some (0, { t with students := some (t.students.getD [] ++ [newStudent id name]) })
  | .updateStudent id newName, t =>
    t.onStudents (overwriteIn (Student.strcmpId id) fun student =>
      some { student with name := strncpy maxName newName })
  | .activateDeactivateStudent id activate, t =>
    t.onStudents (overwriteIn (Student.strcmpId id) fun student =>
      some { student with active := activate })
  | .addCourse id name facultyId seats, t =>
    (addCourseTo id name facultyId seats (t.courses.getD [])).map fun out =>
      (out.1, { t with courses := some out.2 })
  | .updateCourse id newName newSeats, t =>
    t.onCourses (overwriteIn (Course.strcmpId id) fun course => course.resize newName newSeats)
  | .removeCourse id, t => t.remove id
  | .enrollCourse studentId courseId, t => t.enroll studentId courseId
  | .unenrollCourse studentId courseId, t => t.unenroll studentId courseId

/-! ## Executing a complete call -/

namespace Disk

variable {α β : Type} {d : Disk} {fd : Nat}

/-- The contents of `students.dat` and `courses.dat`. -/
def tables (d : Disk) : Tables := ⟨d.students.content, d.courses.content⟩

/-- Execute a program from its first call to its return. -/
def execute (d : Disk) (p : FileOp α) : Option (α × Disk) := p.execute Disk.exec d

/-- A program that starts with one that returns. -/
theorem execute_bind_of {p : FileOp α} {a : α} {d' : Disk} (h : d.execute p = some (a, d'))
    (f : α → FileOp β) : d.execute (p >>= f) = d'.execute (f a) := by
  rw [execute] at h
  rw [execute, bind_eq, execute_bind, h]
  rfl

theorem execute_access (x : Option β) (f : β → FileOp α) :
    d.execute (access x >>= f) = x.bind fun a => d.execute (f a) := by
  cases x <;> rfl

theorem execute_section (p : FileOp α) :
    d.execute p = (d.runSection p).bind fun out => out.2.execute out.1 :=
  (execute_segment p d).symm

/-- A section that is the whole program. -/
theorem execute_of_runSection {p : FileOp β} {x : Option (β × Disk)}
    (h : ∀ {α : Type} (next : β → FileOp α),
      d.runSection (p.bind next) = x.map fun out => (next out.1, out.2)) : d.execute p = x := by
  have hp := h pure
  rw [show p.bind pure = p from bind_ret p] at hp
  rw [execute_section, hp]
  cases x <;> rfl

theorem execute_withFile (f : FileName) (create : Bool) (code : α) (body : Nat → FileOp α) :
    d.execute (withFile f create code body) =
      match ((d.file f).openFile create).1 with
      | none => some (code, d.setFile f ((d.file f).openFile create).2)
      | some fd => (d.setFile f ((d.file f).openFile create).2).execute (body fd) := by
  show (d.setFile f ((d.file f).openFile create).2).execute
    (match ((d.file f).openFile create).1 with | none => pure code | some fd => body fd) = _
  cases ((d.file f).openFile create).1 <;> rfl

theorem execute_withFile_missing {f : FileName} (h : (d.file f).named = none) (code : α)
    (body : Nat → FileOp α) : d.execute (withFile f false code body) = some (code, d) := by
  rw [execute_withFile, NamedFile.openFile_of_missing h, setFile_file]

theorem execute_withFile_named {f : FileName} (h : (d.file f).named = some fd) (create : Bool)
    (code : α) (body : Nat → FileOp α) :
    d.execute (withFile f create code body) = d.execute (body fd) := by
  rw [execute_withFile, NamedFile.openFile_of_named create h, setFile_file]

/-- A file that is opened with `O_CREAT` exists afterwards, with the records that it had. -/
theorem execute_withFile_create (f : FileName) (code : α) (body : Nat → FileOp α) :
    ∃ fd x, x.named = some fd ∧ x.content = some ((d.file f).content.getD []) ∧
      d.execute (withFile f true code body) = (d.setFile f x).execute (body fd) := by
  obtain ⟨fd, hopen, hnamed⟩ := NamedFile.openFile_create (f := d.file f)
  refine ⟨fd, _, hnamed, NamedFile.content_openFile_create, ?_⟩
  rw [execute_withFile, hopen]

theorem tables_setStudents (h : d.students.named = some fd) (records : List Student) :
    (d.setStudents fd records).tables = { d.tables with students := some records } := by
  rw [tables, setStudents, NamedFile.content_update_self h]
  rfl

theorem tables_setCourses (h : d.courses.named = some fd) (records : List Course) :
    (d.setCourses fd records).tables = { d.tables with courses := some records } := by
  rw [tables, setCourses, NamedFile.content_update_self h]
  rfl

theorem tables_enrolled (h : d.students.named = some fd) {students : List Student}
    {courses : Option (List Course)} (hcourses : courses.isSome = d.courses.content.isSome) :
    (d.enrolled fd students courses).tables = ⟨some students, courses⟩ := by
  rw [tables, enrolled, NamedFile.content_update_self h, NamedFile.content_store hcourses.symm]

/-- The program returns the code and leaves the contents that are given. -/
def Computes (d : Disk) (p : FileOp Int) (x : Option (Int × Tables)) : Prop :=
  (d.execute p).map (fun out => (out.1, out.2.tables)) = x

theorem Computes.of_eq {p : FileOp Int} {x : Option (Int × Disk)} (h : d.execute p = x) :
    d.Computes p (x.map fun out => (out.1, out.2.tables)) := by
  rw [Computes, h]

/-! ## The operations -/

theorem computes_addStudent (id name : CString) :
    d.Computes (addStudent id name) (Call.apply (.addStudent id name) d.tables) := by
  obtain ⟨fd, x, hnamed, hcontent, hrun⟩ := execute_withFile_create (d := d) .students
    (-1 : Int) (appendSection .students (newStudent id name))
  have hread : x.read fd = d.students.content.getD [] :=
    Option.some.inj ((NamedFile.content_of_named hnamed).symm.trans hcontent)
  have happend : (d.setFile .students x).execute
      (appendSection .students (newStudent id name) fd) =
      some (0, (d.setFile .students x).setStudents fd (x.read fd ++ [newStudent id name])) := rfl
  have hcomputes := Computes.of_eq (hrun.trans happend)
  rwa [Option.map_some, tables_setStudents hnamed, hread] at hcomputes

theorem computes_addCourse (id name facultyId : CString) (seats : Int) :
    d.Computes (addCourse id name facultyId seats)
      (Call.apply (.addCourse id name facultyId seats) d.tables) := by
  obtain ⟨fd, x, hnamed, hcontent, hrun⟩ := execute_withFile_create (d := d) .courses
    (-1 : Int) (addCourseSection id name facultyId seats)
  have hread : x.read fd = d.courses.content.getD [] :=
    Option.some.inj ((NamedFile.content_of_named hnamed).symm.trans hcontent)
  have hadd : (d.setFile .courses x).execute (addCourseSection id name facultyId seats fd) =
      (addCourseTo id name facultyId seats (x.read fd)).map fun out =>
        (out.1, (d.setFile .courses x).setCourses fd out.2) := execute_of_runSection fun next => by
    rw [Option.map_map]
    exact runSection_addCourse id name facultyId seats fd next
  have hcomputes := Computes.of_eq (hrun.trans hadd)
  rw [Option.map_map, hread] at hcomputes
  refine cast (congrArg _ (congrArg (Option.map · _) (funext fun out => ?_))) hcomputes
  exact congrArg _ (tables_setCourses (d := d.setFile .courses x) hnamed out.2)

/-- The operations that open `students.dat` and do one section on it. -/
theorem computes_onStudents {body : Nat → FileOp Int}
    {f : List Student → Option (Int × List Student)}
    (hbody : ∀ fd, d.execute (body fd) =
      (f (d.students.read fd)).map fun out => (out.1, d.setStudents fd out.2)) :
    d.Computes (withFile .students false (-1) body) (d.tables.onStudents f) := by
  cases hn : d.students.named with
  | none =>
    have hcontent : d.tables.students = none := NamedFile.content_eq_none.mpr hn
    rw [Tables.onStudents, hcontent]
    exact Computes.of_eq (execute_withFile_missing (f := .students) hn (-1) body)
  | some fd =>
    have hcontent : d.tables.students = some (d.students.read fd) := NamedFile.content_of_named hn
    rw [Tables.onStudents, hcontent]
    have hrun := (execute_withFile_named (f := .students) hn false (-1) body).trans (hbody fd)
    have hcomputes := Computes.of_eq hrun
    rw [Option.map_map] at hcomputes
    refine cast (congrArg _ (congrArg (Option.map · _) (funext fun out => ?_))) hcomputes
    exact congrArg _ (tables_setStudents hn out.2)

/-- The operations that open `courses.dat` and do one section on it. -/
theorem computes_onCourses {body : Nat → FileOp Int} {f : List Course → Option (Int × List Course)}
    (hbody : ∀ fd, d.execute (body fd) =
      (f (d.courses.read fd)).map fun out => (out.1, d.setCourses fd out.2)) :
    d.Computes (withFile .courses false (-1) body) (d.tables.onCourses f) := by
  cases hn : d.courses.named with
  | none =>
    have hcontent : d.tables.courses = none := NamedFile.content_eq_none.mpr hn
    rw [Tables.onCourses, hcontent]
    exact Computes.of_eq (execute_withFile_missing (f := .courses) hn (-1) body)
  | some fd =>
    have hcontent : d.tables.courses = some (d.courses.read fd) := NamedFile.content_of_named hn
    rw [Tables.onCourses, hcontent]
    have hrun := (execute_withFile_named (f := .courses) hn false (-1) body).trans (hbody fd)
    have hcomputes := Computes.of_eq hrun
    rw [Option.map_map] at hcomputes
    refine cast (congrArg _ (congrArg (Option.map · _) (funext fun out => ?_))) hcomputes
    exact congrArg _ (tables_setCourses hn out.2)

theorem computes_overwriteStudent (found : Student → Option Bool)
    (edit : Student → Option Student) :
    d.Computes (overwriteFirst .students found edit)
      (d.tables.onStudents (overwriteIn found edit)) :=
  computes_onStudents fun fd => execute_of_runSection fun next => by
    rw [Option.map_map]
    exact runSection_overwrite .students found edit fd next

theorem computes_updateCourse (id newName : CString) (newSeats : Int) :
    d.Computes (updateCourse id newName newSeats)
      (Call.apply (.updateCourse id newName newSeats) d.tables) :=
  computes_onCourses fun fd => execute_of_runSection fun next => by
    rw [Option.map_map]
    exact runSection_overwrite .courses (Course.strcmpId id)
      (fun course => course.resize newName newSeats) fd next

theorem computes_unenrollRecord (studentId courseId : CString) :
    d.Computes (unenrollRecord studentId courseId)
      (d.tables.onStudents (unenrollIn studentId courseId)) :=
  computes_onStudents fun fd => execute_of_runSection fun next => by
    rw [Option.map_map]
    exact runSection_unenroll studentId courseId fd next

theorem computes_enrollCourse (studentId courseId : CString) :
    d.Computes (enrollCourse studentId courseId)
      (Call.apply (.enrollCourse studentId courseId) d.tables) := by
  rw [Call.apply, Tables.enroll]
  cases hn : d.students.named with
  | none =>
    have hcontent : d.tables.students = none := NamedFile.content_eq_none.mpr hn
    rw [hcontent]
    exact Computes.of_eq (execute_withFile_missing (f := .students) hn (-1) _)
  | some fd =>
    have hcontent : d.tables.students = some (d.students.read fd) := NamedFile.content_of_named hn
    rw [hcontent]
    have hsection : d.execute (enrollSection studentId courseId fd) =
        (enrollIn studentId courseId (d.students.read fd) d.courses.content).map fun out =>
          (out.1, d.enrolled fd out.2.1 out.2.2) := execute_of_runSection fun next => by
      rw [Option.map_map]
      exact runSection_enroll studentId courseId fd next
    have hrun := (execute_withFile_named (f := .students) hn false (-1)
      (enrollSection studentId courseId)).trans hsection
    have hcomputes := Computes.of_eq hrun
    rw [Option.map_map] at hcomputes
    refine cast (congrArg _ (Option.map_congr fun out hout => ?_)) hcomputes
    exact congrArg _ (tables_enrolled hn (enrollIn_isSome hout))

theorem computes_unenrollCourse (studentId courseId : CString) :
    d.Computes (unenrollCourse studentId courseId)
      (Call.apply (.unenrollCourse studentId courseId) d.tables) := by
  rw [Call.apply, Tables.unenroll]
  cases hn : d.courses.named with
  | none =>
    have hcontent : d.tables.courses = none := NamedFile.content_eq_none.mpr hn
    rw [hcontent]
    exact Computes.of_eq (execute_withFile_missing (f := .courses) hn (-1) _)
  | some fd =>
    have hcontent : d.tables.courses = some (d.courses.read fd) := NamedFile.content_of_named hn
    have hrun := (execute_withFile_named (f := .courses) hn false (-1) fun fd =>
      (unenrollRoster fd studentId courseId).bind fun _ =>
        unenrollRecord studentId courseId).trans (execute_section _)
    rw [runSection_unenrollRoster] at hrun
    rw [hcontent]
    dsimp only
    cases hfrom : unenrollFrom studentId courseId (d.courses.read fd) with
    | none =>
      rw [hfrom] at hrun
      exact Computes.of_eq hrun
    | some records =>
      rw [hfrom] at hrun
      have hrecord := computes_unenrollRecord (d := d.setCourses fd records)
        studentId courseId
      rw [tables_setCourses hn] at hrecord
      unfold Computes
      rwa [show d.execute (unenrollCourse studentId courseId) = _ from hrun]

/-- The second section of `remove_course`, if `students.dat` exists. -/
theorem computes_removeFromStudents (id : CString) (found : Bool) :
    d.Computes (removeFromStudents id (some found))
      ((Tables.sweepStudents id d.tables.students).map fun students =>
        (if found then 0 else -1, { d.tables with students })) := by
  have hbind : d.execute (removeFromStudents id (some found)) =
      (d.execute (withFile .students false () (sweepSection id))).bind fun out =>
        some (if found then 0 else -1, out.2) := execute_bind _ _ _
  cases hn : d.students.named with
  | none =>
    have hcontent : d.tables.students = none := NamedFile.content_eq_none.mpr hn
    have htables : { d.tables with students := none } = d.tables := by rw [← hcontent]
    rw [execute_withFile_missing (f := .students) hn] at hbind
    have hcomputes := Computes.of_eq hbind
    rw [hcontent, Tables.sweepStudents, Option.map_some, htables]
    exact hcomputes
  | some fd =>
    have hcontent : d.tables.students = some (d.students.read fd) := NamedFile.content_of_named hn
    have hsweep : d.execute (sweepSection id fd) =
        (sweepIn id (d.students.read fd)).map fun records => ((), d.setStudents fd records) :=
      execute_of_runSection fun next => by
        rw [Option.map_map]
        exact runSection_sweep id fd next
    rw [execute_withFile_named (f := .students) hn, hsweep] at hbind
    rw [hcontent, Tables.sweepStudents]
    cases hin : sweepIn id (d.students.read fd) with
    | none =>
      rw [hin] at hbind
      exact Computes.of_eq hbind
    | some records =>
      rw [hin, Option.map_some, Option.bind_some] at hbind
      have hcomputes := Computes.of_eq hbind
      rwa [Option.map_some, tables_setStudents hn] at hcomputes

theorem computes_removeCourse (id : CString) :
    d.Computes (removeCourse id) (Call.apply (.removeCourse id) d.tables) := by
  rw [Call.apply, Tables.remove]
  cases hn : d.courses.named with
  | none =>
    have hcontent : d.tables.courses = none := NamedFile.content_eq_none.mpr hn
    rw [hcontent]
    exact Computes.of_eq (execute_withFile_missing (f := .courses) hn (-1) _)
  | some fd =>
    have hcontent : d.tables.courses = some (d.courses.read fd) := NamedFile.content_of_named hn
    have hrun := (execute_withFile_named (f := .courses) hn false (-1) fun fd =>
      (removeSection id fd).bind (removeFromStudents id)).trans (execute_section _)
    rw [runSection_remove] at hrun
    rw [hcontent]
    dsimp only
    unfold Computes
    rw [show d.execute (removeCourse id) = _ from hrun]
    cases hremove : removeFrom id (d.courses.read fd) with
    | none => rfl
    | some out =>
      rw [Option.map_some, Option.bind_some, Option.bind_some]
      obtain ⟨found, records⟩ := out
      cases found with
      | true =>
        have hrest := computes_removeFromStudents (d := { d with
          courses := d.courses.rename records, temp := none }) id true
        rw [tables, NamedFile.content_rename] at hrest
        exact hrest
      | false =>
        have hrest := computes_removeFromStudents (d := d) id false
        obtain ⟨hfound, rfl⟩ := Prod.mk.inj (removeFrom_eq hremove)
        have hsame : others id (d.courses.read fd) = d.courses.read fd :=
          others_eq_self hfound.symm
        rw [hsame, ← hcontent]
        exact hrest

/-- The program of a call computes what the call does with the contents of the files. -/
theorem computes_call (call : Call) : d.Computes call.program (call.apply d.tables) := by
  cases call with
  | addStudent id name => exact computes_addStudent id name
  | updateStudent id newName => exact computes_overwriteStudent _ _
  | activateDeactivateStudent id activate => exact computes_overwriteStudent _ _
  | addCourse id name facultyId seats => exact computes_addCourse id name facultyId seats
  | updateCourse id newName newSeats => exact computes_updateCourse id newName newSeats
  | removeCourse id => exact computes_removeCourse id
  | enrollCourse studentId courseId => exact computes_enrollCourse studentId courseId
  | unenrollCourse studentId courseId => exact computes_unenrollCourse studentId courseId

end Disk

end AcademiaCr.Academia
