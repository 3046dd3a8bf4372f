import AcademiaCr.Library.TextBlock
import AcademiaCr.Academia.ViewAnswers

/-!
# The buffers of the listings

The listings of `file_ops.c` with the memory that they use. The size of the block that `result`
points to is tracked in `buffer_size`, each line is formatted in a local array, and any
`malloc` or `realloc` may fail.

## Main definitions

- `TextAccess`: the writes into blocks and local arrays, `TextAccess.Fits`: those within bounds
- `Host`, `Host.exec`: the files, the success of the allocations to come and the writes so far
- `Format.text`: the header and the lines of a listing, with nothing cut
- `Buffered.viewEnrolledCourses`, …: the listings
-/

namespace AcademiaCr.Academia

open CLang RecordFile Resumption Prog

/-! ## Calls -/

/-- A string that is written into memory. -/
inductive TextAccess where
  /-- `snprintf` formats this text for a local array. -/
  | line (size : Nat) (text : CString)
  /-- `strcpy` or `strcat` leaves this text in a block of this size. -/
  | write (bufferSize size : Nat) (text : CString)

/-- A line is not cut; `buffer_size` is the size of the block and exceeds the length of the
text. -/
def TextAccess.Fits : TextAccess → Prop
  | .line size text => text.length < size
  | .write bufferSize size text => text.length < bufferSize ∧ bufferSize = size

/-- The calls of a listing. -/
inductive ListingCall : Type → Type 1 where
  | sys {β : Type} (e : Syscall β) : ListingCall β
  | access (a : TextAccess) : ListingCall Unit

abbrev ListingOp := Prog ListingCall

/-- The files and the memory: whether the allocations to come succeed, and what has been
written. -/
structure Host where
  disk : Disk
  allocations : Nat → Bool
  accesses : List TextAccess

/-- One allocation is over. -/
def Host.allocated (s : Host) : Host := { s with allocations := fun n => s.allocations (n + 1) }

/-- The answer to a call. -/
def Host.exec {β : Type} : ListingCall β → Host → Option (β × Host)
  | .sys .malloc, s => some (s.allocations 0, s.allocated)
  | .sys .realloc, s => some (s.allocations 0, s.allocated)
  | .sys e, s => (s.disk.exec e).map fun out => (out.1, { s with disk := out.2 })
  | .access a, s => some ((), { s with accesses := a :: s.accesses })

/-! ## Formats -/

namespace Format

variable {ρ : Type}

/-- The lines, with nothing cut. -/
def lines (fmt : Format ρ) (records : List ρ) : List CString :=
  ((records.filter fmt.shows).zipIdx 1).map fun r =>
    formatted ((fmt.args r.2 r.1).map Arg.str)

/-- The header and the lines, in their order. -/
def text (fmt : Format ρ) (records : List ρ) : CString :=
  fmt.header.appendAll (if fmt.lines records = [] then [fmt.noneText] else fmt.lines records)

end Format

/-! ## Text in a block that grows -/

namespace Buffered

/-- A call of `file_ops.c` that is not about the text. -/
def sys {β : Type} (e : Syscall β) : ListingOp β := perform (.sys e)

/-- A computation that has no defined value if it leaves an array, a block or an `int`. -/
def checked {α : Type} : Option α → ListingOp α
  | some a => pure a
  | none => sys (.stray α)

/-- A value of type `size_t`. -/
def sizeT (n : Nat) : Nat := n % 2 ^ 64

/-- `count++`, which overflows after the largest `int`. -/
def increment (count : Nat) : ListingOp Nat :=
  checked (if count < 2147483647 then some (count + 1) else none)

/-- `snprintf(info, sizeof(info), …)`. -/
def snprintf (size : Nat) (args : List Arg) : ListingOp CString := do
  let info ← checked (Academia.snprintf size args)
  perform (.access (.line size (formatted (args.map Arg.str))))
  return info

/-- `strcpy` or `strcat` into a block of this size, which leaves this text there. -/
def write (bufferSize size : Nat) (text : CString) : ListingOp TextBlock := do
  perform (.access (.write bufferSize size text))
  checked (TextBlock.hold size text)

/-- `result` is reallocated where `needed_size` exceeds `buffer_size`. -/
def grow (bufferSize : Nat) (result : TextBlock) (neededSize : Nat) :
    ListingOp (Option (Nat × TextBlock)) := do
  if neededSize > bufferSize then
    if ← sys .realloc then
      let grown ← checked (result.realloc (sizeT (neededSize + 1024)))
      return some (sizeT (neededSize + 1024), grown)
    else
      return none
  else
    return some (bufferSize, result)

/-- `strcat(result, info)`, with room made for it. -/
def append (bufferSize : Nat) (result : TextBlock) (info : CString) :
    ListingOp (Option (Nat × TextBlock)) := do
  match ← grow bufferSize result (sizeT (result.text.length + info.length + 1)) with
  | none => return none
  | some (bufferSize, result) =>
    let result ← write bufferSize result.size (result.text.append info)
    return some (bufferSize, result)

/-- `strcpy(result, text)`, with room made for it. -/
def replace (bufferSize : Nat) (result : TextBlock) (text : CString) :
    ListingOp (Option (Nat × TextBlock)) := do
  match ← grow bufferSize result (sizeT (text.length + 1)) with
  | none => return none
  | some (bufferSize, result) =>
    let result ← write bufferSize result.size text
    return some (bufferSize, result)

/-- A numbered line for each matching element. -/
def appendMatching {ρ : Type} (fmt : Format ρ) : List ρ → Nat → TextBlock → Nat →
    ListingOp (Option (Nat × TextBlock × Nat))
  | [], bufferSize, result, count => return some (bufferSize, result, count)
  | r :: rest, bufferSize, result, count => do
    if ← checked (fmt.matching r) then
      let next ← increment count
      let info ← snprintf fmt.size (fmt.args count r)
      match ← append bufferSize result info with
      | none => return none
      | some (bufferSize, result) => appendMatching fmt rest bufferSize result next
    else
      appendMatching fmt rest bufferSize result count

/-- The roster entries of a course from position `i` on. -/
def appendRoster (fmt : Format Id) (roster : CArray Id maxUsers) :
    Int → Nat → Nat → TextBlock → Nat → ListingOp (Option (Nat × TextBlock × Nat))
  | _, 0, bufferSize, result, count => return some (bufferSize, result, count)
  | i, k + 1, bufferSize, result, count => do
    let next ← increment count
    let entry ← checked (roster.get? i)
    let info ← snprintf fmt.size (fmt.args count entry)
    match ← append bufferSize result info with
    | none => return none
    | some (bufferSize, result) => appendRoster fmt roster (i + 1) k bufferSize result next

/-- The line that stands in for an empty listing. -/
def appendNone (noneText : CString) :
    Option (Nat × TextBlock × Nat) → ListingOp (Option (Nat × TextBlock))
  | none => return none
  | some (bufferSize, result, count) =>
    if count = 1 then append bufferSize result noneText else return some (bufferSize, result)

/-- What the listings have in common: the file, the section, the block with the header in it and
the text that is returned. -/
def withBlock (f : FileName) (header : CString)
    (body : List f.Record → Nat → TextBlock → ListingOp (Option (Nat × TextBlock))) :
    ListingOp (Option CString) := do
  match ← sys (.openFile f false) with
  | none => return none
  | some fd =>
    sys .semWait
    if ← sys .malloc then
      let result ← write 2048 2048 header
      let text ← body (← sys (.read f fd)) 2048 result
      sys .semPost
      return text.map fun out => out.2.text
    else
      sys .semPost
      return none

/-- A listing of all matching records of a file. -/
def listFile (f : FileName) (fmt : Format f.Record) : ListingOp (Option CString) :=
  withBlock f fmt.header fun records bufferSize result => do
    appendNone fmt.noneText (← appendMatching fmt records bufferSize result 1)

/-- `view_all_courses`. -/
def viewAllCourses : ListingOp (Option CString) := listFile .courses Format.courses

/-- `view_faculty_courses`. -/
def viewFacultyCourses (facultyId : CString) : ListingOp (Option CString) :=
  listFile .courses (Format.offering facultyId)

/-- `view_all_students`. -/
def viewAllStudents : ListingOp (Option CString) := listFile .students Format.students

/-- `view_all_faculty`. -/
def viewAllFaculty : ListingOp (Option CString) := listFile .faculty Format.faculty

/-- The slots of the student with this id, if there is one. -/
def appendSlots (studentId : CString) (students : List Student) (bufferSize : Nat)
    (result : TextBlock) : ListingOp (Option (Nat × TextBlock)) := do
  match ← checked (locate? (Student.strcmpId studentId) students) with
  | some (_, student) =>
    appendNone Format.slots.noneText
      (← appendMatching Format.slots student.enrolledCourses.toList bufferSize result 1)
  | none => replace bufferSize result (.ofString "Student not found\n")

/-- `view_enrolled_courses`. -/
def viewEnrolledCourses (studentId : CString) : ListingOp (Option CString) :=
  withBlock .students Format.slots.header (appendSlots studentId)

/-- The roster of the course with this id, if there is one. -/
def appendEnrollments (courseId : CString) (courses : List Course) (bufferSize : Nat)
    (result : TextBlock) : ListingOp (Option (Nat × TextBlock)) := do
  match ← checked (locate? (Course.strcmpId courseId) courses) with
  | some (_, course) =>
    appendNone (Format.roster courseId).noneText
      (← appendRoster (Format.roster courseId) course.enrolledStudents 0 course.enrolledCount.toNat
        bufferSize result 1)
  | none => replace bufferSize result (.ofString "Course not found\n")

/-- `view_course_enrollments`. -/
def viewCourseEnrollments (courseId : CString) : ListingOp (Option CString) :=
  withBlock .courses (Format.roster courseId).header (appendEnrollments courseId)

end Buffered

end AcademiaCr.Academia
