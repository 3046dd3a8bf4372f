import AcademiaCr.Library.Table
import AcademiaCr.Backend.Models

/-!
# The SQLite tables

The four tables of `initialize_schema` and what each statement of the repositories does
to them: a statement that violates a `UNIQUE`, `CHECK` or `FOREIGN KEY` constraint changes
nothing, a deletion cascades (`ON DELETE CASCADE`, `ON DELETE SET NULL`).

A write yields the tables after it, the number that `sqlite3_changes` will report, which
does not count cascaded rows, and the rowid that it inserted, if any.
-/

namespace AcademiaCr.Backend

structure UserRow where
  id : Int
  username : String
  passwordHash : String
  role : String
  name : String
  email : String
  active : Int
  deriving DecidableEq, Repr

structure CourseRow where
  id : Int
  courseCode : String
  courseName : String
  credits : Int
  facultyId : Option Int
  capacity : Int
  schedule : String
  deriving DecidableEq, Repr

structure RegistrationRow where
  id : Int
  studentId : Int
  courseId : Int
  status : String
  deriving DecidableEq, Repr

structure SessionRow where
  rowid : Int
  token : String
  userId : Int
  expiresAt : Option Int
  deriving DecidableEq, Repr

/-- The content of the database: the tables and the `sqlite_sequence` entries of those
with an `AUTOINCREMENT` key. -/
structure Db where
  users : List UserRow := []
  courses : List CourseRow := []
  registrations : List RegistrationRow := []
  sessions : List SessionRow := []
  userSeq : Int := 0
  courseSeq : Int := 0
  registrationSeq : Int := 0
  deriving DecidableEq, Repr

/-- The effect of a write that completes. -/
structure Applied where
  db : Db
  changed : Nat
  rowid : Option Int := none

/-- `sqlite3_bind_text` with length -1 stores the bytes up to the first NUL. -/
def bindText (s : String) : String := String.ofList (s.toList.takeWhile (· ≠ '\x00'))

/-! ## Rows that statements select -/

/-- The row of a pair, whatever its status. -/
def RegistrationRow.ofPair (s c : Int) (r : RegistrationRow) : Bool :=
  r.studentId = s ∧ r.courseId = c

def RegistrationRow.activePair (s c : Int) (r : RegistrationRow) : Bool :=
  r.studentId = s ∧ r.courseId = c ∧ r.status = "active"

def RegistrationRow.droppedPair (s c : Int) (r : RegistrationRow) : Bool :=
  r.studentId = s ∧ r.courseId = c ∧ r.status = "dropped"

/-- An active row of a course, whoever the student is. -/
def RegistrationRow.activeIn (c : Int) (r : RegistrationRow) : Bool :=
  r.courseId = c ∧ r.status = "active"

/-- An active row of a student, whatever the course is. -/
def RegistrationRow.activeOf (s : Int) (r : RegistrationRow) : Bool :=
  r.studentId = s ∧ r.status = "active"

def RegistrationRow.setStatus (status : String) (r : RegistrationRow) : RegistrationRow :=
  { r with status }

namespace Db

/-- The number of active registrations of a course. -/
def active (db : Db) (c : Int) : Nat := db.registrations.countP (RegistrationRow.activeIn c)

def findUser (db : Db) (id : Int) : Option UserRow := db.users.find? (·.id = id)

def findCourse (db : Db) (id : Int) : Option CourseRow := db.courses.find? (·.id = id)

/-- `REFERENCES users(id)`. -/
def userExists (db : Db) (id : Int) : Bool := db.users.any (·.id = id)

/-- `REFERENCES courses(id)`. -/
def courseExists (db : Db) (id : Int) : Bool := db.courses.any (·.id = id)

/-! ## Registrations -/

/-- `UPDATE registrations SET status = 'active' WHERE … AND status = 'dropped'`. -/
def reactivateRegistration (db : Db) (s c : Int) : Option Applied :=
  some {
    db := { db with
      registrations := Table.update (RegistrationRow.droppedPair s c)
        (RegistrationRow.setStatus "active") db.registrations }
    changed := db.registrations.countP (RegistrationRow.droppedPair s c) }

/-- `INSERT INTO registrations (student_id, course_id, status) VALUES (?, ?, 'active')`. -/
def insertRegistration (db : Db) (s c : Int) : Option Applied :=
  if db.userExists s ∧ db.courseExists c ∧ db.registrations.all (fun r => !r.ofPair s c) then
    let id := Table.nextKey db.registrationSeq (db.registrations.map (·.id))
    some {
      db := { db with
        registrations := db.registrations ++ [⟨id, s, c, "active"⟩], registrationSeq := id }
      changed := 1
      rowid := some id }
  else none

/-- `UPDATE registrations SET status = 'dropped' WHERE … AND status = 'active'`. -/
def dropRegistration (db : Db) (s c : Int) : Option Applied :=
  some {
    db := { db with
      registrations := Table.update (RegistrationRow.activePair s c)
        (RegistrationRow.setStatus "dropped") db.registrations }
    changed := db.registrations.countP (RegistrationRow.activePair s c) }

/-! ## Courses -/

/-- `INSERT INTO courses (course_code, …) VALUES (?, ?, ?, ?, ?, ?)`. The owner is bound
as an integer and so never `NULL`. -/
def insertCourse (db : Db) (code name : String) (credits facultyId capacity : Int)
    (schedule : String) : Option Applied :=
  if db.courses.all (fun c => c.courseCode ≠ bindText code) ∧ 0 < capacity ∧
      db.userExists facultyId then
    let id := Table.nextKey db.courseSeq (db.courses.map (·.id))
    some {
      db := { db with
        courses := db.courses ++
          [⟨id, bindText code, bindText name, credits, some facultyId, capacity,
            bindText schedule⟩]
        courseSeq := id }
      changed := 1
      rowid := some id }
  else none

/-- `UPDATE courses SET course_name = ?, … WHERE id = ?`. The constraints are checked on
the row written, so an update that matches no row succeeds. -/
def updateCourse (db : Db) (name : String) (credits facultyId capacity : Int)
    (schedule : String) (id : Int) : Option Applied :=
  if db.courseExists id ∧ ¬ (0 < capacity ∧ db.userExists facultyId) then none
  else some {
    db := { db with
      courses := Table.update (fun c => c.id = id)
        (fun c => { c with courseName := bindText name, credits, facultyId := some facultyId,
                           capacity, schedule := bindText schedule }) db.courses }
    changed := db.courses.countP fun c => c.id = id }

/-- `DELETE FROM courses WHERE id = ?`, with the registrations of the course. -/
def deleteCourse (db : Db) (id : Int) : Option Applied :=
  some {
    db := { db with
      courses := db.courses.filter fun c => c.id ≠ id
      registrations :=
        if db.courseExists id then db.registrations.filter fun r => r.courseId ≠ id
        else db.registrations }
    changed := db.courses.countP fun c => c.id = id }

/-! ## Users -/

/-- `INSERT INTO users (username, …) VALUES (?, ?, ?, ?, ?, ?)`. -/
def insertUser (db : Db) (username hash role name email : String) (active : Int) :
    Option Applied :=
  if db.users.all (fun u => u.username ≠ bindText username) ∧
      role ∈ ["admin", "faculty", "student"] then
    let id := Table.nextKey db.userSeq (db.users.map (·.id))
    some {
      db := { db with
        users := db.users ++
          [⟨id, bindText username, bindText hash, role, bindText name, bindText email, active⟩]
        userSeq := id }
      changed := 1
      rowid := some id }
  else none

/-- `UPDATE users SET name = ?, email = ?, active = ? WHERE id = ?`. -/
def updateUser (db : Db) (name email : String) (active id : Int) : Option Applied :=
  some {
    db := { db with
      users := Table.update (fun u => u.id = id)
        (fun u => { u with name := bindText name, email := bindText email, active }) db.users }
    changed := db.users.countP fun u => u.id = id }

/-- `UPDATE users SET password_hash = ? WHERE id = ?`. -/
def updatePassword (db : Db) (hash : String) (id : Int) : Option Applied :=
  some {
    db := { db with
      users := Table.update (fun u => u.id = id)
        (fun u => { u with passwordHash := bindText hash }) db.users }
    changed := db.users.countP fun u => u.id = id }

/-- `DELETE FROM users WHERE id = ?`, with the registrations and sessions of the user;
the courses of the user lose their owner. -/
def deleteUser (db : Db) (id : Int) : Option Applied :=
  some {
    db :=
      if db.userExists id then
        { db with
          users := db.users.filter fun u => u.id ≠ id
          registrations := db.registrations.filter fun r => r.studentId ≠ id
          sessions := db.sessions.filter fun s => s.userId ≠ id
          courses := Table.update (fun c => c.facultyId = some id)
            (fun c => { c with facultyId := none }) db.courses }
      else db
    changed := db.users.countP fun u => u.id = id }

/-! ## Sessions -/

/-- `INSERT OR REPLACE INTO sessions … VALUES (?, ?, datetime('now', '+24 hours'))`. -/
def insertSession (db : Db) (now : Int) (token : String) (userId : Int) : Option Applied :=
  if db.userExists userId then
    let rowid := Table.nextKey 0 (db.sessions.map (·.rowid))
    some {
      db := { db with
        sessions := (db.sessions.filter fun s => s.token ≠ bindText token) ++
          [⟨rowid, bindText token, userId, some (now + 24 * 3600)⟩] }
      changed := 1
      rowid := some rowid }
  else none

/-- `DELETE FROM sessions WHERE token = ?`. -/
def deleteSession (db : Db) (token : String) : Option Applied :=
  some {
    db := { db with sessions := db.sessions.filter fun s => s.token ≠ bindText token }
    changed := db.sessions.countP fun s => s.token = bindText token }

/-- `DELETE FROM sessions WHERE expires_at < datetime('now')`. -/
def cleanupSessions (db : Db) (now : Int) : Option Applied :=
  some {
    db := { db with sessions := db.sessions.filter fun s => !(s.expiresAt.any (· < now)) }
    changed := db.sessions.countP fun s => s.expiresAt.any (· < now) }

end Db

end AcademiaCr.Backend
