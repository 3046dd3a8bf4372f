import AcademiaCr.Academia.FileOps

/-!
# The listings of `file_ops.c`, the set-up and the authentication

The `view_…` functions build a text in a buffer that grows by `realloc`, under `file_sem`, and
return it or `NULL`.

## Main definitions

- `Arg`, `snprintf`: the arguments of a formatted line, which end with a NUL
- `Format`: what a listing shows of its elements
- `appendText`: append to the text, with the buffer grown where needed
- `listing`: what the listings of whole files have in common
- `viewEnrolledCourses`, `viewCourseEnrollments`, …: the listings
- `initialSetup`, `authenticate`: the other users of the files
-/

namespace AcademiaCr.Academia

open CLang RecordFile Resumption Prog

/-! ## Texts -/

/-- The pieces of a formatted line, one after another. -/
def formatted (pieces : List CString) : CString := pieces.foldl .append .empty

/-- `%d`. -/
def decimal (n : Int) : CString := .ofString (toString n)

/-- An argument of `snprintf`: a string, or an array that is read up to its NUL. -/
inductive Arg where
  | text (s : CString)
  | array {n : Nat} (a : CArray UInt8 n)

namespace Arg

def ofString (s : String) : Arg := text (.ofString s)

/-- The bytes of the argument. -/
def str : Arg → CString
  | text s => s
  | array a => a.str

/-- The argument ends with a NUL. -/
def Terminated : Arg → Prop
  | text _ => True
  | array a => a.Terminated

instance (arg : Arg) : Decidable arg.Terminated :=
  match arg with
  | text _ => inferInstanceAs (Decidable True)
  | array a => inferInstanceAs (Decidable a.Terminated)

end Arg

/-- `snprintf(info, size, …)`, without a result if an argument is not terminated. -/
def snprintf (size : Nat) (args : List Arg) : Option CString :=
  if ∀ arg ∈ args, arg.Terminated then some ((formatted (args.map Arg.str)).truncate size)
  else none

/-- `sizeof(course_info)` and the like in the listings of whole files. -/
def infoSize : Nat := 200

/-- `sizeof(course_info)`, `sizeof(student_info)` in the listings of one record. -/
def entrySize : Nat := 100

/-- `strcat(result, info)`, after the buffer has been reallocated where it is too small. -/
def appendText (bufferSize : Nat) (result info : CString) :
    FileOp (Option (Nat × CString)) := do
  let neededSize := result.length + info.length + 1
  if neededSize > bufferSize then
    if ← perform .realloc then
      return some (neededSize + 1024, result.append info)
    else
      return none
  else
    return some (bufferSize, result.append info)

/-- `strcpy(result, text)`, after the buffer has been reallocated where it is too small. -/
def replaceText (bufferSize : Nat) (text : CString) : FileOp (Option (Nat × CString)) :=
  appendText bufferSize .empty text

/-- A listing: its header, the elements that it shows, the local array of this size in which
a line is formatted, with the pieces of the line after its number, and the line that stands in for
an empty listing. -/
structure Format (ρ : Type) where
  header : CString
  noneText : CString
  matching : ρ → Option Bool
  size : Nat
  pieces : ρ → List Arg

/-- `"%d"` and the other pieces of a line. -/
def Format.args {ρ : Type} (fmt : Format ρ) (count : Nat) (r : ρ) : List Arg :=
  .text (decimal count) :: fmt.pieces r

/-- A line in the local array. -/
def Format.line {ρ : Type} (fmt : Format ρ) (count : Nat) (r : ρ) : Option CString :=
  snprintf fmt.size (fmt.args count r)

/-- Append a numbered line for each matching element; the count is the number of the next
line. -/
def appendLines {ρ : Type} (fmt : Format ρ) :
    List ρ → Nat → CString → Nat → FileOp (Option (Nat × CString × Nat))
  | [], bufferSize, result, count => return some (bufferSize, result, count)
  | r :: rest, bufferSize, result, count => do
    if ← access (fmt.matching r) then
      match ← appendText bufferSize result (← access (fmt.line count r)) with
      | none => return none
      | some (bufferSize, result) => appendLines fmt rest bufferSize result (count + 1)
    else
      appendLines fmt rest bufferSize result count

/-- The line that stands in for an empty listing. -/
def appendNone (noneText : CString) (bufferSize : Nat) (result : CString) (count : Nat) :
    FileOp (Option (Nat × CString)) :=
  if count = 1 then appendText bufferSize result noneText else return some (bufferSize, result)

/-- What a listing returns: the text, or `NULL` when memory has run out. -/
def finishText : Option (Nat × CString) → FileOp (Option CString)
  | none => release none
  | some (_, result) => release (some result)

/-! ## Listings of whole files -/

/-- A listing of all matching records of a file. -/
def listing (f : FileName) (fmt : Format f.Record) : FileOp (Option CString) :=
  withFile f false none fun fd => do
    perform .semWait
    if ← perform .malloc then
      match ← appendLines fmt (← perform (.read f fd)) 2048 fmt.header 1 with
      | none => release none
      | some (bufferSize, result, count) =>
        finishText (← appendNone fmt.noneText bufferSize result count)
    else
      release none

namespace Format

def courses : Format Course where
  header := .ofString "All Available Courses:\n"
  noneText := .ofString "No courses available.\n"
  matching _ := some true
  size := infoSize
  pieces course :=
    [.ofString ". ID: ", .array course.id, .ofString ", Name: ", .array course.name,
      .ofString ", Faculty ID: ", .array course.facultyId, .ofString ", Seats: ",
      .text (decimal course.totalSeats), .ofString ", Enrolled: ",
      .text (decimal course.enrolledCount), .ofString "\n"]

def offering (facultyId : CString) : Format Course where
  header := (formatted [.ofString "Courses Offered by Faculty ", facultyId,
    .ofString ":\n"]).truncate 2048
  noneText := .ofString "No courses offered.\n"
  matching course := course.facultyId.strcmp facultyId
  size := infoSize
  pieces course :=
    [.ofString ". ID: ", .array course.id, .ofString ", Name: ", .array course.name,
      .ofString ", Seats: ", .text (decimal course.totalSeats), .ofString ", Enrolled: ",
      .text (decimal course.enrolledCount), .ofString "\n"]

def students : Format Student where
  header := .ofString "All Students:\n"
  noneText := .ofString "No students available.\n"
  matching _ := some true
  size := infoSize
  pieces student :=
    [.ofString ". ID: ", .array student.id, .ofString ", Name: ", .array student.name,
      .ofString ", Status: ", .ofString (if student.active = 0 then "Blocked" else "Active"),
      .ofString "\n"]

def faculty : Format Faculty where
  header := .ofString "All Faculty:\n"
  noneText := .ofString "No faculty available.\n"
  matching _ := some true
  size := infoSize
  pieces faculty :=
    [.ofString ". ID: ", .array faculty.id, .ofString ", Name: ", .array faculty.name,
      .ofString "\n"]

/-- `"%d. %s\n"` after its number. -/
def entryPieces (entry : Id) : List Arg := [.ofString ". ", .array entry, .ofString "\n"]

/-- The slots of a student. -/
def slots : Format Id where
  header := .ofString "Enrolled Courses:\n"
  noneText := .ofString "No courses enrolled.\n"
  matching slot := some (slot.toList.head? ≠ some 0)
  size := entrySize
  pieces := entryPieces

/-- The roster of a course. -/
def roster (courseId : CString) : Format Id where
  header := (formatted [.ofString "Enrollments for Course ", courseId,
    .ofString ":\n"]).truncate 2048
  noneText := .ofString "No students enrolled.\n"
  matching _ := some true
  size := entrySize
  pieces := entryPieces

end Format

/-- `view_all_courses`. -/
def viewAllCourses : FileOp (Option CString) := listing .courses Format.courses

/-- `view_faculty_courses`. -/
def viewFacultyCourses (facultyId : CString) : FileOp (Option CString) :=
  listing .courses (Format.offering facultyId)

/-- `view_all_students`. -/
def viewAllStudents : FileOp (Option CString) := listing .students Format.students

/-- `view_all_faculty`. -/
def viewAllFaculty : FileOp (Option CString) := listing .faculty Format.faculty

/-! ## Listings of one record -/

/-- The slots of a student that hold a course. -/
def slotLines (student : Student) : FileOp (Option (Nat × CString)) := do
  match ← appendLines Format.slots student.enrolledCourses.toList 2048 Format.slots.header 1 with
  | none => return none
  | some (bufferSize, result, count) =>
    appendNone Format.slots.noneText bufferSize result count

/-- `view_enrolled_courses`. -/
def viewEnrolledCourses (studentId : CString) : FileOp (Option CString) :=
  withFile .students false none fun fd => do
    perform .semWait
    if ← perform .malloc then
      match ← access (locate? (Student.strcmpId studentId) (← readStudents fd)) with
      | some (_, student) => finishText (← slotLines student)
      | none => finishText (← replaceText 2048 (.ofString "Student not found\n"))
    else
      release none

/-- The roster entries of a course from position `i` on. -/
def rosterLines (fmt : Format Id) (roster : CArray Id maxUsers) :
    Int → Nat → Nat → CString → Nat → FileOp (Option (Nat × CString × Nat))
  | _, 0, bufferSize, result, count => return some (bufferSize, result, count)
  | i, k + 1, bufferSize, result, count => do
    let entry ← access (roster.get? i)
    match ← appendText bufferSize result (← access (fmt.line count entry)) with
    | none => return none
    | some (bufferSize, result) =>
      rosterLines fmt roster (i + 1) k bufferSize result (count + 1)

/-- The roster of a course. -/
def enrollmentLines (fmt : Format Id) (course : Course) : FileOp (Option (Nat × CString)) := do
  match ← rosterLines fmt course.enrolledStudents 0 course.enrolledCount.toNat 2048 fmt.header
    1 with
  | none => return none
  | some (bufferSize, result, count) => appendNone fmt.noneText bufferSize result count

/-- `view_course_enrollments`. -/
def viewCourseEnrollments (courseId : CString) : FileOp (Option CString) :=
  withFile .courses false none fun fd => do
    perform .semWait
    if ← perform .malloc then
      match ← access (locate? (Course.strcmpId courseId) (← readCourses fd)) with
      | some (_, course) => finishText (← enrollmentLines (.roster courseId) course)
      | none => finishText (← replaceText 2048 (.ofString "Course not found\n"))
    else
      release none

/-! ## Set-up and authentication -/

/-- `initial_setup`. -/
def initialSetup : FileOp Unit := do
  match ← perform (.openFile .users false) with
  | none => addSamples
  | some fd =>
    if (← perform (.read .users fd)).isEmpty then addSamples else return
where
  /-- The accounts of an empty system. -/
  addSamples : FileOp Unit := do
    if (← addUser (.ofString "admin1") (.ofString "adminpass") .admin) = 0 then
      addSampleStudent
      addSampleFaculty
    else
      return
  addSampleStudent : FileOp Unit := do
    if (← addUser (.ofString "s1") (.ofString "pass1") .student) = 0 then
      let _ ← addStudent (.ofString "s1") (.ofString "John")
      return
    else
      return
  addSampleFaculty : FileOp Unit := do
    if (← addUser (.ofString "f1") (.ofString "pass2") .faculty) = 0 then
      let _ ← addFaculty (.ofString "f1") (.ofString "Dr. Smith")
      return
    else
      return

/-- `strcmp(user.id, user_id) == 0 && strcmp(user.password, password) == 0 &&
user.role == expected_role`. -/
def User.strcmpLogin (userId password : CString) (expectedRole : Role) (user : User) :
    Option Bool :=
  (user.id.strcmp userId).bind fun sameId =>
    if sameId then
      (user.password.strcmp password).map fun samePassword =>
        samePassword && decide (user.role = expectedRole)
    else some false

/-- The section of `client_handler` that authenticates a user: without a result if `users.dat`
cannot be opened. -/
def authenticate (userId password : CString) (expectedRole : Role) : FileOp (Option Bool) :=
  withFile .users false none fun fd => do
    perform .semWait
    let found ← access
      (locate? (User.strcmpLogin userId password expectedRole) (← perform (.read .users fd)))
    release (some found.isSome)

end AcademiaCr.Academia
