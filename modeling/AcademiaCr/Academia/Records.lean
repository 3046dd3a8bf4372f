import AcademiaCr.Library.CArray

/-!
# The records of the C server

The fixed-size records that `users.dat`, `students.dat`, `faculty.dat` and `courses.dat` hold,
and the constants and error codes of `academia.h`.

## Main definitions

- `User`, `Student`, `Faculty`, `Course`: the records
- `errNotFound`, …: the codes that an operation returns
-/

namespace AcademiaCr.Academia

open CLang

/-! ## Constants -/

def maxCourses : Nat := 100
def maxUsers : Nat := 100
def maxName : Nat := 50
def maxPass : Nat := 50
def maxId : Nat := 10

def errNotFound : Int := -1
def errFull : Int := -2
def errAlreadyEnrolled : Int := -3
def errNotEnrolled : Int := -4
def errInvalidInput : Int := -5
def errCourseNotFound : Int := -6

/-! ## Records -/

inductive Role where
  | admin
  | student
  | faculty
  deriving DecidableEq, Repr

/-- `char id[MAX_ID]`. -/
abbrev Id := CArray UInt8 maxId

/-- `char name[MAX_NAME]`. -/
abbrev Name := CArray UInt8 maxName

structure User where
  id : Id
  role : Role
  password : CArray UInt8 maxPass
  deriving DecidableEq, Repr

structure Course where
  id : Id
  name : Name
  facultyId : Id
  totalSeats : Int
  enrolledCount : Int
  enrolledStudents : CArray Id maxUsers
  deriving DecidableEq, Repr

structure Student where
  id : Id
  name : Name
  active : Int
  enrolledCourses : CArray Id maxCourses
  deriving DecidableEq, Repr

structure Faculty where
  id : Id
  name : Name
  deriving DecidableEq, Repr

end AcademiaCr.Academia
