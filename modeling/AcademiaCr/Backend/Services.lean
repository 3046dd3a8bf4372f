import AcademiaCr.Backend.Repositories
import AcademiaCr.Backend.Sha256

/-!
# Services

The business logic of `services/`. A function that never lets an exception escape is a
plain program; the others are programs that may throw.
-/

namespace AcademiaCr.Backend

/-- `e.what()`. -/
def Exn.what : Exn → String
  | json => ""
  | std what => what

/-- `a + b` of type `int`, whose overflow is undefined. -/
def addInt (a b : Int) : Option Int := if columnInt (a + b) = a + b then some (a + b) else none

/-! ## Registration -/

/-- `remainingSeats` has no value after an overflow. -/
structure RegistrationResult where
  success : Bool := false
  registrationId : Int := 0
  error : String := ""
  remainingSeats : Option Int := some 0
  deriving DecidableEq, Repr

namespace RegistrationService

/-- The function that `register_student` passes to `transaction`. -/
def registerTransaction (studentId courseId : Int) : SqlExcept RegistrationResult := do
  match ← CourseRepository.findById courseId with
  | none => return { error := "Course not found" }
  | some course =>
    if ← RegistrationRepository.exists' studentId courseId then
      return { error := "Already enrolled in this course"
               remainingSeats := some (course.capacity - course.enrolledCount) }
    else
      let enrolled ← CourseRepository.getEnrolledCount courseId
      let remaining := course.capacity - enrolled
      if remaining ≤ 0 then
        return { error := "Course is full" }
      else
        let regId ← RegistrationRepository.create studentId courseId
        return { success := true, registrationId := regId, remainingSeats := some (remaining - 1) }

/-- `register_student` once it holds the mutex of the course. -/
def registerStudent (studentId courseId : Int) : Sql RegistrationResult := do
  match ← (Database.transaction (registerTransaction studentId courseId)).run with
  | .ok result => return result
  | .error e => return { error := "Registration failed: " ++ e.what }

/-- The function that `drop_student` passes to `transaction`. -/
def dropTransaction (studentId courseId : Int) : SqlExcept RegistrationResult := do
  if ← RegistrationRepository.exists' studentId courseId then
    let _ ← RegistrationRepository.dropRegistration studentId courseId
    match ← CourseRepository.findById courseId with
    | none => return { success := true }
    | some course =>
      let remainingSeats := addInt (course.capacity - course.enrolledCount) 1
      return { success := true, remainingSeats }
  else
    return { error := "Not enrolled in this course" }

/-- `drop_student` once it holds the mutex of the course. -/
def dropStudent (studentId courseId : Int) : Sql RegistrationResult := do
  match ← (Database.transaction (dropTransaction studentId courseId)).run with
  | .ok result => return result
  | .error e => return { error := "Drop failed: " ++ e.what }

end RegistrationService

/-! ## Courses -/

structure CourseResult where
  success : Bool := false
  courseId : Int := 0
  error : String := ""
  deriving DecidableEq, Repr

namespace CourseService

def createCourse (course : Course) (requester : User) : Sql CourseResult := do
  if requester.role ≠ .admin ∧ requester.role ≠ .faculty then
    return { error := "Unauthorized: only admin or faculty can create courses" }
  else if course.courseCode.isEmpty then return { error := "Course code is required" }
  else if course.courseName.isEmpty then return { error := "Course name is required" }
  else if course.capacity ≤ 0 then return { error := "Capacity must be positive" }
  else if course.credits ≤ 0 ∨ course.credits > 6 then
    return { error := "Credits must be between 1 and 6" }
  else if (← CourseRepository.findByCode course.courseCode).isSome then
    return { error := "Course code already exists" }
  else
    match ← (CourseRepository.create course).run with
    | .ok id => return { success := true, courseId := id }
    | .error _ => return { error := "Failed to create course" }

def updateCourse (course : Course) (requester : User) : Sql CourseResult := do
  match ← CourseRepository.findById course.id with
  | none => return { error := "Course not found" }
  | some existing =>
    if requester.role = .faculty ∧ existing.facultyId ≠ requester.id then
      return { error := "You can only update your own courses" }
    else if course.courseName.isEmpty then return { error := "Course name is required" }
    else if course.capacity ≤ 0 then return { error := "Capacity must be positive" }
    else
      let enrolled ← CourseRepository.getEnrolledCount course.id
      if course.capacity < enrolled then
        return { error := "Cannot reduce capacity below current enrollment (" ++
          toString enrolled ++ ")" }
      else
        let _ ← CourseRepository.update course
        return { success := true, courseId := course.id }

def deleteCourse (id : Int) (requester : User) : Sql CourseResult := do
  if requester.role ≠ .admin then
    match ← CourseRepository.findById id with
    | none => return { error := "Course not found" }
    | some existing =>
      if requester.role = .faculty ∧ existing.facultyId ≠ requester.id then
        return { error := "You can only delete your own courses" }
      else remove
  else remove
where
  remove : Sql CourseResult := do
    let _ ← CourseRepository.remove id
    return { success := true, courseId := id }

end CourseService

/-! ## Authentication -/

structure LoginResult where
  success : Bool := false
  token : String := ""
  user : User := {}
  error : String := ""
  deriving DecidableEq, Repr

namespace AuthService

/-- The token that `generate_token` draws is an argument. -/
def login (username password generated : String) : SqlExcept LoginResult := do
  match ← UserRepository.findByUsername username with
  | none => return { error := "Invalid username or password" }
  | some user =>
    if !user.active then return { error := "Account is deactivated" }
    else if hashPassword password ≠ user.passwordHash then
      return { error := "Invalid username or password" }
    else
      UserRepository.createSession generated user.id
      return { success := true, token := generated, user }

def logout (token : String) : Sql Bool := do
  UserRepository.deleteSession token
  return true

def validateToken (token : String) : SqlExcept (Option User) := do
  match ← UserRepository.validateSession token with
  | none => return none
  | some userId => UserRepository.findById userId

end AuthService

end AcademiaCr.Backend
