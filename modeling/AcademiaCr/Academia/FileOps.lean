import AcademiaCr.Academia.Syscalls

/-!
# The operations of `file_ops.c` that change files

Each operation opens a file by name, waits for `file_sem`, reads and rewrites records and posts
`file_sem` on every way out. Ids are compared by `strcmp`, and a comparison that leaves an array
without a NUL is a stray access.

## Main definitions

- `addStudent`, `addCourse`, …: the operations, under the names of `file_ops.c`
- `appendRecord`, `overwriteFirst`: what several of them have in common
- `removeSection`, `sweepSection`: the two sections of `remove_course`
- `unenrollRoster`, `unenrollSection`: the two sections of `unenroll_course`
-/

namespace AcademiaCr.Academia

open CLang RecordFile Resumption Prog

/-- `unlock(fd); sem_post(&file_sem); close(fd); return code;`. -/
def release {α : Type} (code : α) : FileOp α := do
  perform .semPost
  return code

/-- `strcmp(course.id, id) == 0`. -/
def Course.strcmpId (id : CString) (course : Course) : Option Bool := course.id.strcmp id

/-- `strcmp(student.id, id) == 0`. -/
def Student.strcmpId (id : CString) (student : Student) : Option Bool := student.id.strcmp id

/-- `strcmp(entry, id) == 0`, for an entry of a roster or a slot of a student. -/
def strcmpEntry (id : CString) (entry : Id) : Option Bool := entry.strcmp id

/-- The records that `while (read(fd, &course, sizeof(Course)) > 0)` goes through. -/
def readCourses (fd : Nat) : FileOp (List Course) := perform (.read .courses fd)

/-- The records that `while (read(fd, &student, sizeof(Student)) > 0)` goes through. -/
def readStudents (fd : Nat) : FileOp (List Student) := perform (.read .students fd)

/-- `int fd = open(f, flags); if (fd < 0) return code;`, and what follows. -/
def withFile {α : Type} (f : FileName) (create : Bool) (code : α) (body : Nat → FileOp α) :
    FileOp α := do
  match ← perform (.openFile f create) with
  | none => return code
  | some fd => body fd

/-! ## Records that are appended -/

/-- Append a record. -/
def appendSection (f : FileName) (r : f.Record) (fd : Nat) : FileOp Int := do
  perform .semWait
  perform (.append f fd r)
  release 0

/-- The operations that append a record to a file, which is created if there is none. -/
def appendRecord (f : FileName) (r : f.Record) : FileOp Int :=
  withFile f true (-1) (appendSection f r)

/-- `add_user`. -/
def addUser (id password : CString) (role : Role) : FileOp Int :=
  appendRecord .users { id := strncpy maxId id, role, password := strncpy maxPass password }

/-- The record that `add_student` writes. -/
def newStudent (id name : CString) : Student :=
  { id := strncpy maxId id, name := strncpy maxName name, active := 1,
    enrolledCourses := .replicate zeros }

/-- `add_student`. -/
def addStudent (id name : CString) : FileOp Int :=
  appendRecord .students (newStudent id name)

/-- `add_faculty`. -/
def addFaculty (id name : CString) : FileOp Int :=
  appendRecord .faculty { id := strncpy maxId id, name := strncpy maxName name }

/-- The record that `add_course` writes. -/
def newCourse (id name facultyId : CString) (seats : Int) : Course :=
  { id := strncpy maxId id, name := strncpy maxName name, facultyId := strncpy maxId facultyId,
    totalSeats := seats, enrolledCount := 0, enrolledStudents := .replicate zeros }

/-- The section of `add_course`. -/
def addCourseSection (id name facultyId : CString) (seats : Int) (fd : Nat) : FileOp Int := do
  perform .semWait
  match ← access (locate? (Course.strcmpId id) (← readCourses fd)) with
  | some _ => release (-1)
  | none =>
    perform (.append .courses fd (newCourse id name facultyId seats))
    release 0

/-- `add_course`. -/
def addCourse (id name facultyId : CString) (seats : Int) : FileOp Int :=
  withFile .courses true (-1) (addCourseSection id name facultyId seats)

/-! ## Records that are overwritten -/

/-- Overwrite the first record that matches. -/
def overwriteSection (f : FileName) (found : f.Record → Option Bool)
    (edit : f.Record → Option f.Record) (fd : Nat) : FileOp Int := do
  perform .semWait
  match ← access (locate? found (← perform (.read f fd))) with
  | none => release (-1)
  | some (pos, r) =>
    let r' ← access (edit r)
    perform (.write f fd pos r')
    release 0

/-- The operations that overwrite a record of a file. -/
def overwriteFirst (f : FileName) (found : f.Record → Option Bool)
    (edit : f.Record → Option f.Record) : FileOp Int :=
  withFile f false (-1) (overwriteSection f found edit)

/-- `activate_deactivate_student`. -/
def activateDeactivateStudent (id : CString) (activate : Int) : FileOp Int :=
  overwriteFirst .students (Student.strcmpId id) fun student =>
    some { student with active := activate }

/-- `update_student`. -/
def updateStudent (id newName : CString) : FileOp Int :=
  overwriteFirst .students (Student.strcmpId id) fun student =>
    some { student with name := strncpy maxName newName }

/-- `update_faculty`. -/
def updateFaculty (id newName : CString) : FileOp Int :=
  overwriteFirst .faculty (fun faculty => faculty.id.strcmp id) fun faculty =>
    some { faculty with name := strncpy maxName newName }

/-- `change_password`. -/
def changePassword (userId newPassword : CString) : FileOp Int :=
  overwriteFirst .users (fun user => user.id.strcmp userId) fun user =>
    some { user with password := strncpy maxPass newPassword }

/-- What `update_course` does with the record: the roster is cut to the new number of seats. -/
def Course.resize (course : Course) (newName : CString) (newSeats : Int) : Option Course :=
  if course.enrolledCount > newSeats then
    (forLoop (fun i roster => roster.set? i zeros) newSeats (maxUsers - newSeats).toNat
      course.enrolledStudents).map fun roster =>
        { course with
          name := strncpy maxName newName, totalSeats := newSeats, enrolledCount := newSeats,
          enrolledStudents := roster }
  else
    some { course with name := strncpy maxName newName, totalSeats := newSeats }

/-- `update_course`. -/
def updateCourse (id newName : CString) (newSeats : Int) : FileOp Int :=
  overwriteFirst .courses (Course.strcmpId id) fun course =>
    course.resize newName newSeats

/-! ## Removing a course -/

/-- Write all other courses to `courses_temp.dat`. -/
def copyOthers (id : CString) : List Course → FileOp Unit
  | [] => return
  | course :: rest => do
    if ← access (course.strcmpId id) then
      copyOthers id rest
    else
      perform (.writeTemp course)
      copyOthers id rest

/-- Clear all slots that hold the course. -/
def Student.clear (student : Student) (id : CString) : Student :=
  { student with
    enrolledCourses := student.enrolledCourses.map fun slot =>
      if slot.str = id then zeros else slot }

/-- Clear the course in all student records from position `spos` on. A record is `changed` if one of
the comparisons with its slots finds the course. -/
def sweep (sfd : Nat) (id : CString) : Nat → List Student → FileOp Unit
  | _, [] => return
  | spos, student :: rest => do
    if (← access (student.enrolledCourses.toList.mapM (strcmpEntry id))).contains true then
      perform (.write .students sfd spos (student.clear id))
      sweep sfd id (spos + 1) rest
    else
      sweep sfd id (spos + 1) rest

/-- The first section of `remove_course`: `courses.dat`. It answers whether the course has been
found, and nothing if `courses_temp.dat` cannot be opened. -/
def removeSection (id : CString) (fd : Nat) : FileOp (Option Bool) := do
  perform .semWait
  let records ← readCourses fd
  match ← access (locate? (Course.strcmpId id) records) with
  | some _ =>
    if ← perform .openTemp then
      copyOthers id records
      perform .renameTemp
      release (some true)
    else
      release none
  | none => release (some false)

/-- The second section of `remove_course`: `students.dat`. -/
def sweepSection (id : CString) (sfd : Nat) : FileOp Unit := do
  perform .semWait
  sweep sfd id 0 (← readStudents sfd)
  release ()

/-- What `remove_course` does after its first section. -/
def removeFromStudents (id : CString) : Option Bool → FileOp Int
  | none => return -1
  | some found => do
    withFile .students false () (sweepSection id)
    return if found then 0 else -1

/-- `remove_course`. -/
def removeCourse (id : CString) : FileOp Int :=
  withFile .courses false (-1) fun fd => do
    removeFromStudents id (← removeSection id fd)

/-! ## Enrolment -/

/-- The scan of the slots of a student: whether it stops at the course, and the first empty
slot it has seen. -/
def scanSlots (courseId : CString) : List Id → Nat → Option Nat → Option (Bool × Option Nat)
  | [], _, emptySlot => some (false, emptySlot)
  | slot :: rest, i, emptySlot => (strcmpEntry courseId slot).bind fun found =>
    if found then some (true, emptySlot)
    else
      scanSlots courseId rest (i + 1)
        (if emptySlot.isNone ∧ slot.toList.head? = some 0 then some i else emptySlot)

/-- The part of `enroll_course` after the checks on the student. -/
def enrollInCourse (studentId courseId : CString) (sfd spos : Nat) (student : Student)
    (emptySlot : Nat) : FileOp Int := do
  match ← perform (.openFile .courses false) with
  | none => release (-1)
  | some cfd =>
    match ← access (locate? (Course.strcmpId courseId) (← readCourses cfd)) with
    | none => release errCourseNotFound
    | some (cpos, course) =>
      if course.enrolledCount ≥ course.totalSeats then
        release errFull
      else
        match ← access (course.enrolledStudents.search (strcmpEntry studentId) 0
            course.enrolledCount.toNat) with
        | some _ => release errAlreadyEnrolled
        | none =>
          let slots ← access (student.enrolledCourses.set? emptySlot (strncpy maxId courseId))
          perform (.write .students sfd spos { student with enrolledCourses := slots })
          let roster ←
            access (course.enrolledStudents.set? course.enrolledCount (strncpy maxId studentId))
          perform (.write .courses cfd cpos
            { course with
              enrolledStudents := roster, enrolledCount := course.enrolledCount + 1 })
          release 0

/-- The section of `enroll_course`. -/
def enrollSection (studentId courseId : CString) (sfd : Nat) : FileOp Int := do
  perform .semWait
  match ← access (locate? (Student.strcmpId studentId) (← readStudents sfd)) with
  | none => release errNotFound
  | some (spos, student) =>
    if student.active = 0 then
      release errInvalidInput
    else
      match ← access (scanSlots courseId student.enrolledCourses.toList 0 none) with
      | (true, _) => release errAlreadyEnrolled
      | (false, none) => release errFull
      | (false, some emptySlot) => enrollInCourse studentId courseId sfd spos student emptySlot

/-- `enroll_course`. -/
def enrollCourse (studentId courseId : CString) : FileOp Int :=
  withFile .students false (-1) (enrollSection studentId courseId)

/-- The roster entries after position `i` move one position to the left. -/
def Course.shift (course : Course) (i : Int) : Option (CArray Id maxUsers) :=
  forLoop
    (fun j roster =>
      match roster.get? (j + 1) with
      | none => none
      | some next => roster.set? j (strncpy maxId next.str))
    i (course.enrolledCount - 1 - i).toNat course.enrolledStudents

/-- The first section of `unenroll_course`: `courses.dat`. -/
def unenrollRoster (fd : Nat) (studentId courseId : CString) : FileOp Unit := do
  perform .semWait
  match ← access (locate? (Course.strcmpId courseId) (← readCourses fd)) with
  | none => release ()
  | some (pos, course) =>
    match ← access (course.enrolledStudents.search (strcmpEntry studentId) 0
        course.enrolledCount.toNat) with
    | none => release ()
    | some i =>
      let roster ← access (course.shift i)
      perform (.write .courses fd pos
        { course with enrolledStudents := roster, enrolledCount := course.enrolledCount - 1 })
      release ()

/-- The second section of `unenroll_course`: `students.dat`. -/
def unenrollSection (studentId courseId : CString) (fd : Nat) : FileOp Int := do
  perform .semWait
  match ← access (locate? (Student.strcmpId studentId) (← readStudents fd)) with
  | none => release (-1)
  | some (pos, student) =>
    match ← access (locate? (strcmpEntry courseId) student.enrolledCourses.toList) with
    | none => release errNotEnrolled
    | some (i, _) =>
      let slots ← access (student.enrolledCourses.set? i zeros)
      perform (.write .students fd pos { student with enrolledCourses := slots })
      release 0

/-- What `unenroll_course` does after its first section. -/
def unenrollRecord (studentId courseId : CString) : FileOp Int :=
  withFile .students false (-1) (unenrollSection studentId courseId)

/-- `unenroll_course`. -/
def unenrollCourse (studentId courseId : CString) : FileOp Int :=
  withFile .courses false (-1) fun fd => do
    unenrollRoster fd studentId courseId
    unenrollRecord studentId courseId

end AcademiaCr.Academia
