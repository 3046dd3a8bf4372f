import Mathlib.Algebra.Group.Int.Defs
import Mathlib.Algebra.Group.Nat.Defs
import AcademiaCr.Academia.Views

/-!
# The menus of `server.c`

What a session may ask for, once the choice and its arguments have been read: the sizes of the
arguments of each choice, the operations that it executes and the text that it answers.

## Main definitions

- `atoi`: the number that a text starts with
- `Request`: the choices of the three menus with their arguments
- `Request.program`: the operations and the answer
- `Menu`: a menu loop, with `handleAdmin`, `handleStudent` and `handleFaculty`
-/

namespace AcademiaCr.Academia

open CLang Resumption

/-! ## Numbers -/

/-- The conversion of a `long` to an `int`. -/
def toInt (n : Int) : Int := n.bmod (2 ^ 32)

/-- The digits at the start of a text, as a number. -/
def leadingDigits (text : List UInt8) : Int :=
  (text.takeWhile fun b => 48 ≤ b ∧ b ≤ 57).foldl (fun n b => 10 * n + (b.toNat - 48)) 0

/-- `isspace`. -/
def isSpace (b : UInt8) : Bool := b = 32 ∨ (9 ≤ b ∧ b ≤ 13)

/-- `atoi`, which is `strtol` cut to an `int`; `strtol` stays within the bounds of a `long`. -/
def atoi (text : List UInt8) : Int :=
  toInt (max (-2 ^ 63) (min (2 ^ 63 - 1)
    (match text.dropWhile isSpace with
      | 45 :: digits => -leadingDigits digits
      | 43 :: digits => leadingDigits digits
      | digits => leadingDigits digits)))

/-- An `int` in memory, least significant byte first. -/
def readInt (bytes : List UInt8) : Int :=
  toInt (bytes.foldr (fun b n => (b.toNat : Int) + 2 ^ 8 * n) 0)

/-- The string that a `char` array holds. -/
def cString (bytes : List UInt8) : CString :=
  ⟨bytes.takeWhile (· ≠ 0), fun h => by
    have hall := List.all_eq_true.mp (List.all_takeWhile (l := bytes) (p := fun b => b ≠ 0))
    simpa using hall 0 h⟩

/-! ## Requests -/

/-- What a session can ask for. -/
inductive Request where
  | addStudent (id name password : CString)
  | viewStudents
  | addFaculty (id name password : CString)
  | viewFaculty
  | activateStudent (id : CString)
  | blockStudent (id : CString)
  | modifyStudent (id newName : CString)
  | modifyFaculty (id newName : CString)
  | viewCourses
  | enroll (courseId : CString)
  | drop (courseId : CString)
  | viewEnrolled
  | viewOffering
  | addCourse (id name : CString) (seats : Int)
  | removeCourse (id : CString)
  | updateCourse (id newName : CString) (newSeats : Int)
  | changePassword (newPassword : CString)
  | invalid
  deriving DecidableEq

/-- `char temp_response[1024]`. -/
def respond (text : CString) : CString := text.truncate 1024

/-- The answer to an operation that returned a code. -/
def respondCode (success failure : String) (ret : Int) : CString :=
  respond (.ofString (if ret = 0 then success else failure))

/-- The answer to a listing. -/
def respondListing (failure : String) (listing : Option CString) : CString :=
  respond (listing.getD (.ofString failure))

/-- The answer to `enroll_course`. -/
def respondEnroll (ret : Int) : CString :=
  respond (.ofString (
    if ret = 0 then "Enrolled successfully\n"
    else if ret = errFull then "Course is full\n"
    else if ret = errAlreadyEnrolled then "Already enrolled in this course\n"
    else if ret = errCourseNotFound then "Course not found\n"
    else if ret = errInvalidInput then "Student is blocked\n"
    else "Failed to enroll\n"))

/-- The operations that a request of a user executes, and the answer. -/
def Request.program (userId : CString) : Request → FileOp CString
  | addStudent id name password => do
    let ret ← addUser id password .student
    let ret ← if ret = 0 then Academia.addStudent id name else pure ret
    return respondCode "Student added successfully\n" "Failed to add student\n" ret
  | viewStudents => do
    return respondListing "No students found or error occurred\n" (← viewAllStudents)
  | addFaculty id name password => do
    let ret ← addUser id password .faculty
    let ret ← if ret = 0 then Academia.addFaculty id name else pure ret
    return respondCode "Faculty added successfully\n" "Failed to add faculty\n" ret
  | viewFaculty => do
    return respondListing "No faculty found or error occurred\n" (← viewAllFaculty)
  | activateStudent id => do
    return respondCode "Student activated successfully\n" "Failed to activate student\n"
      (← activateDeactivateStudent id 1)
  | blockStudent id => do
    return respondCode "Student blocked successfully\n" "Failed to block student\n"
      (← activateDeactivateStudent id 0)
  | modifyStudent id newName => do
    return respondCode "Student details updated successfully\n"
      "Failed to update student details\n" (← updateStudent id newName)
  | modifyFaculty id newName => do
    return respondCode "Faculty details updated successfully\n"
      "Failed to update faculty details\n" (← updateFaculty id newName)
  | viewCourses => do
    return respondListing "No courses found or error occurred\n" (← viewAllCourses)
  | enroll courseId => do
    return respondEnroll (← enrollCourse userId courseId)
  | drop courseId => do
    let ret ← unenrollCourse userId courseId
    return respond (.ofString (
      if ret = 0 then "Dropped successfully\n"
      else if ret = errNotEnrolled then "Not enrolled in this course\n"
      else "Failed to drop course\n"))
  | viewEnrolled => do
    return respondListing "No courses enrolled or error occurred\n" (← viewEnrolledCourses userId)
  | viewOffering => do
    return respondListing "No courses found or error occurred\n" (← viewFacultyCourses userId)
  | addCourse id name seats => do
    return respondCode "Course added successfully\n" "Failed to add course\n"
      (← Academia.addCourse id name userId seats)
  | removeCourse id => do
    return respondCode "Course removed successfully\n" "Failed to remove course\n"
      (← Academia.removeCourse id)
  | updateCourse id newName newSeats => do
    return respondCode "Course updated successfully\n" "Failed to update course\n"
      (← Academia.updateCourse id newName newSeats)
  | changePassword newPassword => do
    return respondCode "Password changed successfully\n" "Failed to change password\n"
      (← Academia.changePassword userId newPassword)
  | invalid => return respond (.ofString "Invalid choice\n")

/-! ## Menus -/

/-- A menu loop: the choice that leaves it, the sizes of the arguments that are read for a
choice, and the request that they make. -/
structure Menu where
  logout : Int
  sizes : Int → List Nat
  request : Int → List (List UInt8) → Request

/-- `handle_admin`. -/
def handleAdmin : Menu where
  logout := 9
  sizes
    | 1 => [maxId, maxName, maxPass]
    | 3 => [maxId, maxName, maxPass]
    | 5 => [maxId]
    | 6 => [maxId]
    | 7 => [maxId, maxName]
    | 8 => [maxId, maxName]
    | _ => []
  request
    | 1, [id, name, password] => .addStudent (cString id) (cString name) (cString password)
    | 2, [] => .viewStudents
    | 3, [id, name, password] => .addFaculty (cString id) (cString name) (cString password)
    | 4, [] => .viewFaculty
    | 5, [id] => .activateStudent (cString id)
    | 6, [id] => .blockStudent (cString id)
    | 7, [id, newName] => .modifyStudent (cString id) (cString newName)
    | 8, [id, newName] => .modifyFaculty (cString id) (cString newName)
    | _, _ => .invalid

/-- `handle_student`. -/
def handleStudent : Menu where
  logout := 6
  sizes
    | 2 => [maxId]
    | 3 => [maxId]
    | 5 => [maxPass]
    | _ => []
  request
    | 1, [] => .viewCourses
    | 2, [courseId] => .enroll (cString courseId)
    | 3, [courseId] => .drop (cString courseId)
    | 4, [] => .viewEnrolled
    | 5, [newPassword] => .changePassword (cString newPassword)
    | _, _ => .invalid

/-- `handle_faculty`. -/
def handleFaculty : Menu where
  logout := 6
  sizes
    | 2 => [maxId, maxName, 4]
    | 3 => [maxId]
    | 4 => [maxId, maxName, 4]
    | 5 => [maxPass]
    | _ => []
  request
    | 1, [] => .viewOffering
    | 2, [id, name, seats] => .addCourse (cString id) (cString name) (readInt seats)
    | 3, [id] => .removeCourse (cString id)
    | 4, [id, newName, newSeats] =>
      .updateCourse (cString id) (cString newName) (readInt newSeats)
    | 5, [newPassword] => .changePassword (cString newPassword)
    | _, _ => .invalid

/-- The menu loop that `client_handler` enters for a role. -/
def Role.menu : Role → Menu
  | admin => handleAdmin
  | student => handleStudent
  | faculty => handleFaculty

end AcademiaCr.Academia
