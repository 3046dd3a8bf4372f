import AcademiaCr.Backend.Sqlite

/-!
# Database wrapper and repositories

`Database::transaction` and the data access functions of the three repositories, call by
call. A `PreparedStatement` is bound and stepped in one call: preparing and binding do not
touch the tables.
-/

namespace AcademiaCr.Backend

/-! ## Database -/

namespace Database

/-- `execute` throws the error text of the library with the statement. -/
def execute (outcome : Sql (Option String)) (statement : String) : SqlExcept Unit := do
  match ← outcome with
  | none => return ()
  | some err => throw (.std ("SQL execution failed: " ++ err ++ " SQL: " ++ statement))

def beginTransaction : SqlExcept Unit := execute (sql .beginImmediate) "BEGIN IMMEDIATE"

def commit : SqlExcept Unit := execute (sql .commit) "COMMIT"

/-- A failing rollback is only logged. -/
def rollback : SqlExcept Unit :=
  tryCatch (execute (sql .rollback) "ROLLBACK") fun _ => return ()

/-- Commit on success, roll back on any exception. An exception of `beginTransaction`
itself leaves the function before the `try`. -/
def transaction {α : Type} (func : SqlExcept α) : SqlExcept α := do
  beginTransaction
  tryCatch
    (do
      let result ← func
      commit
      return result)
    fun e => do
      rollback
      throw e

end Database

/-- `sqlite3_column_int` yields the low 32 bits. -/
def columnInt (n : Int) : Int := n.bmod (2 ^ 32)

/-! ## Users -/

def rowToUser (row : UserRow) : Except Exn User := do
  let role ← stringToRole row.role
  return { id := row.id, username := row.username, passwordHash := row.passwordHash, role,
           name := row.name, email := row.email, active := row.active ≠ 0 }

namespace UserRepository

def ofRow : Option UserRow → SqlExcept (Option User)
  | none => return none
  | some row => do return some (← liftExcept (rowToUser row))
where
  liftExcept {α : Type} (x : Except Exn α) : SqlExcept α := ExceptT.mk (pure x)

def findById (id : Int) : SqlExcept (Option User) := do
  ofRow (← (select (.userById id) : Sql (Option UserRow)))

def findByUsername (username : String) : SqlExcept (Option User) := do
  ofRow (← (select (.userByUsername username) : Sql (Option UserRow)))

def create (user : User) : SqlExcept Int := do
  if ← stepWrite (.insertUser user.username user.passwordHash (roleToString user.role) user.name
      user.email (if user.active then 1 else 0)) then
    return ← (sql .lastInsertRowid : Sql Int)
  else
    throw (.std "Failed to create user")

def update (user : User) : Sql Bool :=
  stepWrite (.updateUser user.name user.email (if user.active then 1 else 0) user.id)

def updatePassword (id : Int) (passwordHash : String) : Sql Bool :=
  stepWrite (.updatePassword passwordHash id)

def remove (id : Int) : Sql Bool := stepWrite (.deleteUser id)

def count : Sql Int := do
  return columnInt (← select .userCount)

def countByRole (role : Role) : Sql Int := do
  return columnInt (← select (.userCountByRole (roleToString role)))

/-- The outcome of the statement is not looked at. -/
def createSession (token : String) (userId : Int) : Sql Unit := do
  let _ ← stepWrite (.insertSession token userId)

def validateSession (token : String) : Sql (Option Int) := select (.sessionUser token)

def deleteSession (token : String) : Sql Unit := do
  let _ ← stepWrite (.deleteSession token)

def cleanupExpiredSessions : Sql Unit := do
  let _ ← stepWrite .cleanupSessions

end UserRepository

/-! ## Courses -/

/-- A `NULL` owner reads as 0. -/
def rowToCourse (j : JoinedCourse) : Course where
  id := j.row.id
  courseCode := j.row.courseCode
  courseName := j.row.courseName
  credits := j.row.credits
  facultyId := j.row.facultyId.getD 0
  facultyName := j.facultyName
  capacity := j.row.capacity
  enrolledCount := j.enrolledCount
  schedule := j.row.schedule

namespace CourseRepository

def findById (id : Int) : Sql (Option Course) := do
  return (← select (.courseById id)).map rowToCourse

def findByCode (code : String) : Sql (Option Course) := do
  return (← select (.courseByCode code)).map rowToCourse

def findAll : Sql (List Course) := do
  return (← select .courses).map rowToCourse

def findByFaculty (facultyId : Int) : Sql (List Course) := do
  return (← select (.coursesByFaculty facultyId)).map rowToCourse

def search (query : String) : Sql (List Course) := do
  return (← select (.coursesLike ("%" ++ query ++ "%"))).map rowToCourse

def create (course : Course) : SqlExcept Int := do
  if ← stepWrite (.insertCourse course.courseCode course.courseName course.credits
      course.facultyId course.capacity course.schedule) then
    return ← (sql .lastInsertRowid : Sql Int)
  else
    throw (.std "Failed to create course")

def update (course : Course) : Sql Bool :=
  stepWrite (.updateCourse course.courseName course.credits course.facultyId course.capacity
    course.schedule course.id)

def remove (id : Int) : Sql Bool := stepWrite (.deleteCourse id)

def count : Sql Int := do
  return columnInt (← select .courseCount)

def getEnrolledCount (courseId : Int) : Sql Int := select (.enrolledCount courseId)

end CourseRepository

/-! ## Registrations -/

def rowToRegistration (j : JoinedRegistration) : Registration where
  id := j.row.id
  studentId := j.row.studentId
  courseId := j.row.courseId
  status := j.row.status
  studentName := j.studentName
  courseCode := j.courseCode
  courseName := j.courseName

namespace RegistrationRepository

def findByStudent (studentId : Int) (status : String := "active") : Sql (List Registration) := do
  return (← select (.registrationsByStudent studentId status)).map rowToRegistration

def findByCourse (courseId : Int) (status : String := "active") : Sql (List Registration) := do
  return (← select (.registrationsByCourse courseId status)).map rowToRegistration

def exists' (studentId courseId : Int) : Sql Bool := do
  let count : Int ← select (.registrationExists studentId courseId)
  return count > 0

/-- Re-activate a dropped row, else insert one. Which of the two happened is read from the
connection-wide `changes`, the new id from `lastInsertRowid`; the id of a row that is gone
reads as 0. -/
def create (studentId courseId : Int) : SqlExcept Int := do
  let _ ← stepWrite (.reactivateRegistration studentId courseId)
  let changes ← (sql .changes : Sql Int)
  if changes > 0 then
    let id ← (select (.registrationId studentId courseId) : Sql (Option Int))
    return id.getD 0
  else if ← stepWrite (.insertRegistration studentId courseId) then
    return ← (sql .lastInsertRowid : Sql Int)
  else
    throw (.std "Failed to create registration")

def dropRegistration (studentId courseId : Int) : Sql Bool :=
  stepWrite (.dropRegistration studentId courseId)

def countActive : Sql Int := do
  return columnInt (← select .activeCount)

def countByStudent (studentId : Int) : Sql Int := do
  return columnInt (← select (.activeCountByStudent studentId))

def totalCreditsForStudent (studentId : Int) : Sql Int := do
  return columnInt (← select (.creditsByStudent studentId))

end RegistrationRepository

end AcademiaCr.Backend
