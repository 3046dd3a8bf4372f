import Mathlib.Algebra.Group.Int.Defs
import Mathlib.Data.String.Basic
import AcademiaCr.Library.CheckedSum
import AcademiaCr.Library.Join
import AcademiaCr.Library.Program
import AcademiaCr.Library.Wildcard
import AcademiaCr.Backend.Tables

/-!
# The shared SQLite connection

All request threads of the server use one connection. Its API calls are atomic; a thread
is at the mercy of the others between two calls. An open transaction belongs to the
connection: every statement executed before its `COMMIT` or `ROLLBACK` is part of it,
whichever thread executes it. `sqlite3_changes` and `sqlite3_last_insert_rowid` report
the latest completed write of any thread.

## Main definitions

- `like`: the `LIKE` operator
- `Query`, `Write`: the prepared statements of the repositories with their parameters
- `SqlCall`: the API calls, `Conn`: the connection, `Conn.exec`: the effect of a call
- `Write.effect`: the tables after a statement, failed or not
- `Sql`: programs over the connection
-/

namespace AcademiaCr.Backend

/-! ## Operators -/

/-- What a character of a `LIKE` pattern stands for. -/
def likeItem : Char → Wildcard.Item Char
  | '%' => .many
  | '_' => .one
  | c => .lit c

/-- `text LIKE pattern`, which ignores the case of ASCII letters. -/
def like (pattern text : String) : Bool :=
  Wildcard.accepts Char.toLower (pattern.toList.map likeItem) text.toList

/-- `OR` with `none` for `NULL`. -/
def or3 : Option Bool → Option Bool → Option Bool
  | some true, _ => some true
  | _, some true => some true
  | some false, some false => some false
  | _, _ => none

/-- `SUM` of integers, an error when a partial sum leaves 64 bits. -/
def sumInt64 (ns : List Int) : Option Int :=
  CheckedSum.checkedSum (fun n => n.bmod (2 ^ 64) = n) 0 ns

/-! ## Prepared statements -/

/-- A course row as it is selected: joined with the name of its owner
(`COALESCE(u.name, '')`) and the number of its active registrations. -/
structure JoinedCourse where
  row : CourseRow
  facultyName : String
  enrolledCount : Int

/-- A registration row joined with its student and its course. -/
structure JoinedRegistration where
  row : RegistrationRow
  studentName : String
  courseCode : String
  courseName : String

/-- The `SELECT` statements, by what stepping them yields: the first row, if any, all rows,
or a number. -/
inductive Query : Type → Type where
  | courseById (id : Int) : Query (Option JoinedCourse)
  | courseByCode (code : String) : Query (Option JoinedCourse)
  | enrolledCount (courseId : Int) : Query Int
  | registrationExists (studentId courseId : Int) : Query Int
  | registrationId (studentId courseId : Int) : Query (Option Int)
  | userById (id : Int) : Query (Option UserRow)
  | userByUsername (username : String) : Query (Option UserRow)
  | userCount : Query Int
  | sessionUser (token : String) : Query (Option Int)
  | courses : Query (List JoinedCourse)
  | coursesByFaculty (facultyId : Int) : Query (List JoinedCourse)
  | coursesLike (pattern : String) : Query (List JoinedCourse)
  | courseCount : Query Int
  | userCountByRole (role : String) : Query Int
  | registrationsByStudent (studentId : Int) (status : String) : Query (List JoinedRegistration)
  | registrationsByCourse (courseId : Int) (status : String) : Query (List JoinedRegistration)
  | activeCount : Query Int
  | activeCountByStudent (studentId : Int) : Query Int
  | creditsByStudent (studentId : Int) : Query Int

namespace Db

/-- The one row of a course in the join of `courseOwners`. -/
def join (db : Db) (row : CourseRow) : JoinedCourse where
  row := row
  facultyName := ((row.facultyId.bind db.findUser).map (·.name)).getD ""
  enrolledCount := db.active row.id

/-- `courses c LEFT JOIN users u ON c.faculty_id = u.id`. -/
def courseOwners (db : Db) : List (CourseRow × Option UserRow) :=
  Table.leftJoin (fun c u => c.facultyId = some u.id) db.courses db.users

/-- The courses that meet a condition, `ORDER BY c.course_code`. -/
def selectCourses (db : Db) (p : CourseRow × Option UserRow → Bool) : List JoinedCourse :=
  Table.orderBy (·.row.courseCode) ((db.courseOwners.filter p).map fun r =>
    { row := r.1, facultyName := (r.2.map (·.name)).getD "", enrolledCount := db.active r.1.id })

/-- `registrations r JOIN users u ON r.student_id = u.id JOIN courses c ON r.course_id = c.id`. -/
def joinedRegistrations (db : Db) : List JoinedRegistration :=
  (Table.innerJoin (fun r c => r.1.courseId = c.id)
    (Table.innerJoin (fun r u => r.studentId = u.id) db.registrations db.users) db.courses).map
      fun r => { row := r.1.1, studentName := r.1.2.name, courseCode := r.2.courseCode,
                 courseName := r.2.courseName }

/-- The credits of the courses joined with the active registrations of a student. -/
def creditsOf (db : Db) (s : Int) : List Int :=
  (Table.innerJoin (fun r c => r.courseId = c.id)
    (db.registrations.filter (RegistrationRow.activeOf s)) db.courses).map (·.2.credits)

end Db

/-- The rows of `find_by_student` are left in the order of the table: the column
`registered_at`, by which they are ordered, is not modelled. A `SUM` that fails reads as 0. -/
def Query.eval (now : Int) (db : Db) : {β : Type} → Query β → β
  | _, courseById id => (db.findCourse id).map db.join
  | _, courseByCode code => (db.courses.find? (·.courseCode = bindText code)).map db.join
  | _, enrolledCount c => (db.active c : Int)
  | _, registrationExists s c =>
    (db.registrations.countP (RegistrationRow.activePair s c) : Int)
  | _, registrationId s c => (db.registrations.find? (RegistrationRow.ofPair s c)).map (·.id)
  | _, userById id => db.findUser id
  | _, userByUsername name => db.users.find? (·.username = bindText name)
  | _, userCount => (db.users.length : Int)
  | _, sessionUser token =>
    (db.sessions.find? fun s => s.token = bindText token ∧ s.expiresAt.all (now < ·)).map
      (·.userId)
  | _, courses => db.selectCourses fun _ => true
  | _, coursesByFaculty f => db.selectCourses fun r => r.1.facultyId = some f
  | _, coursesLike pattern =>
    db.selectCourses fun r =>
      or3 (or3 (some (like (bindText pattern) r.1.courseCode))
        (some (like (bindText pattern) r.1.courseName)))
        (r.2.map fun u => like (bindText pattern) u.name) = some true
  | _, courseCount => (db.courses.length : Int)
  | _, userCountByRole role => (db.users.countP (·.role = bindText role) : Int)
  | _, registrationsByStudent s status =>
    db.joinedRegistrations.filter fun r => r.row.studentId = s ∧ r.row.status = bindText status
  | _, registrationsByCourse c status =>
    Table.orderBy (·.studentName)
      (db.joinedRegistrations.filter fun r => r.row.courseId = c ∧ r.row.status = bindText status)
  | _, activeCount => (db.registrations.countP (·.status = "active") : Int)
  | _, activeCountByStudent s => (db.registrations.countP (RegistrationRow.activeOf s) : Int)
  | _, creditsByStudent s => (sumInt64 (db.creditsOf s)).getD 0

/-- The `INSERT`, `UPDATE` and `DELETE` statements. -/
inductive Write where
  | reactivateRegistration (studentId courseId : Int)
  | insertRegistration (studentId courseId : Int)
  | dropRegistration (studentId courseId : Int)
  | insertCourse (code name : String) (credits facultyId capacity : Int) (schedule : String)
  | updateCourse (name : String) (credits facultyId capacity : Int) (schedule : String) (id : Int)
  | deleteCourse (id : Int)
  | insertUser (username hash role name email : String) (active : Int)
  | updateUser (name email : String) (active id : Int)
  | updatePassword (hash : String) (id : Int)
  | deleteUser (id : Int)
  | insertSession (token : String) (userId : Int)
  | deleteSession (token : String)
  | cleanupSessions

def Write.apply (now : Int) (db : Db) : Write → Option Applied
  | reactivateRegistration s c => db.reactivateRegistration s c
  | insertRegistration s c => db.insertRegistration s c
  | dropRegistration s c => db.dropRegistration s c
  | insertCourse code name credits facultyId capacity schedule =>
    db.insertCourse code name credits facultyId capacity schedule
  | updateCourse name credits facultyId capacity schedule id =>
    db.updateCourse name credits facultyId capacity schedule id
  | deleteCourse id => db.deleteCourse id
  | insertUser username hash role name email active =>
    db.insertUser username hash role name email active
  | updateUser name email active id => db.updateUser name email active id
  | updatePassword hash id => db.updatePassword hash id
  | deleteUser id => db.deleteUser id
  | insertSession token userId => db.insertSession now token userId
  | deleteSession token => db.deleteSession token
  | cleanupSessions => db.cleanupSessions now

/-! ## The connection -/

/-- The calls to the SQLite library. The control statements report an error text; stepping
a write reports whether it returned `SQLITE_DONE`. -/
inductive SqlCall : Type → Type 1 where
  | beginImmediate : SqlCall (Option String)
  | commit : SqlCall (Option String)
  | rollback : SqlCall (Option String)
  | query {β : Type} (q : Query β) : SqlCall β
  | write (w : Write) : SqlCall Bool
  | changes : SqlCall Int
  | lastInsertRowid : SqlCall Int

/-- The connection: the tables as every thread sees them and, while a transaction is open,
the tables that a `ROLLBACK` would restore. -/
structure Conn where
  db : Db := {}
  saved : Option Db := none
  changes : Int := 0
  lastInsertRowid : Int := 0
  deriving DecidableEq, Repr

/-- A statement that violates a constraint is undone and counts no changes. It is assumed to leave
the last rowid as it is, which SQLite does not promise for a failing `INSERT OR REPLACE`. -/
def Conn.write (now : Int) (w : Write) (conn : Conn) : Bool × Conn :=
  match w.apply now conn.db with
  | none => (false, { conn with changes := 0 })
  | some applied => (true, { conn with
      db := applied.db
      changes := applied.changed
      lastInsertRowid := applied.rowid.getD conn.lastInsertRowid })

/-- The tables after a statement, which a violated constraint leaves as they were. -/
def Write.effect (now : Int) (w : Write) (db : Db) : Db := ((w.apply now db).map (·.db)).getD db

theorem Conn.write_db (now : Int) (w : Write) (conn : Conn) :
    (conn.write now w).2.db = w.effect now conn.db := by
  simp only [write, Write.effect]
  split <;> simp_all

theorem Conn.write_saved (now : Int) (w : Write) (conn : Conn) :
    (conn.write now w).2.saved = conn.saved := by
  simp only [write]
  split <;> rfl

/-- The effect of one call, made when the clock shows `now`. -/
def Conn.exec (now : Int) : {β : Type} → SqlCall β → Conn → β × Conn
  | _, .beginImmediate, conn =>
    match conn.saved with
    | some _ => (some "cannot start a transaction within a transaction", conn)
    | none => (none, { conn with saved := some conn.db })
  | _, .commit, conn =>
    match conn.saved with
    | some _ => (none, { conn with saved := none })
    | none => (some "cannot commit - no transaction is active", conn)
  | _, .rollback, conn =>
    match conn.saved with
    | some db => (none, { conn with db := db, saved := none })
    | none => (some "cannot rollback - no transaction is active", conn)
  | _, .query q, conn => (q.eval now conn.db, conn)
  | _, .write w, conn => conn.write now w
  | _, .changes, conn => (conn.changes, conn)
  | _, .lastInsertRowid, conn => (conn.lastInsertRowid, conn)

/-- Programs over the connection. -/
abbrev Sql := Resumption.Prog SqlCall

/-- A program that may throw. -/
abbrev SqlExcept := ExceptT Exn Sql

/-- Make one call. -/
def sql {β : Type} (e : SqlCall β) : Sql β := Resumption.Prog.perform e

/-- Step a `SELECT` statement. -/
def select {β : Type} (q : Query β) : Sql β := sql (.query q)

/-- Step a writing statement. -/
def stepWrite (w : Write) : Sql Bool := sql (.write w)

namespace Conn

variable {α β : Type} {now : Int}

/-- Run a program on the connection without interruption. -/
def run (now : Int) (p : Sql α) (conn : Conn) : α × Conn :=
  Resumption.Prog.run (Conn.exec now) p conn

@[simp] theorem run_ret (a : α) (conn : Conn) : conn.run now (.ret a) = (a, conn) := rfl

@[simp] theorem run_call (e : SqlCall β) (next : β → Sql α) (conn : Conn) :
    conn.run now (.call e next) = (conn.exec now e).2.run now (next (conn.exec now e).1) := rfl

@[simp] theorem run_bind (p : Sql α) (f : α → Sql β) (conn : Conn) :
    conn.run now (p.bind f) = (conn.run now p).2.run now (f (conn.run now p).1) :=
  Resumption.Prog.run_bind _ p f conn

@[simp] theorem run_sql (e : SqlCall β) (conn : Conn) : conn.run now (sql e) = conn.exec now e :=
  rfl

@[simp] theorem run_select (q : Query β) (conn : Conn) :
    conn.run now (select q) = (q.eval now conn.db, conn) := rfl

@[simp] theorem run_stepWrite (w : Write) (conn : Conn) :
    conn.run now (stepWrite w) = conn.write now w := rfl

/-- Run a program that may throw. -/
def runExcept (now : Int) (p : SqlExcept α) (conn : Conn) : Except Exn α × Conn :=
  conn.run now p.run

@[simp] theorem run_run (p : SqlExcept α) (conn : Conn) :
    conn.run now p.run = conn.runExcept now p := rfl

@[simp] theorem runExcept_pure (a : α) (conn : Conn) :
    conn.runExcept now (pure a) = (.ok a, conn) := rfl

@[simp] theorem runExcept_throw (e : Exn) (conn : Conn) :
    conn.runExcept now (throw e : SqlExcept α) = (.error e, conn) := rfl

@[simp] theorem runExcept_liftM (p : Sql α) (conn : Conn) :
    conn.runExcept now (liftM p) = (.ok (conn.run now p).1, (conn.run now p).2) :=
  run_bind _ _ conn

@[simp] theorem runExcept_mk (x : Except Exn α) (conn : Conn) :
    conn.runExcept now (ExceptT.mk (pure x)) = (x, conn) := rfl

@[simp] theorem runExcept_bind (p : SqlExcept α) (f : α → SqlExcept β) (conn : Conn) :
    conn.runExcept now (p >>= f) =
      match conn.runExcept now p with
      | (.ok a, conn') => conn'.runExcept now (f a)
      | (.error e, conn') => (.error e, conn') := by
  rw [runExcept, ExceptT.run_bind, Resumption.Prog.bind_eq, run_bind, run_run]
  rcases conn.runExcept now p with ⟨_ | _, _⟩ <;> rfl

@[simp] theorem runExcept_map (f : α → β) (p : SqlExcept α) (conn : Conn) :
    conn.runExcept now (f <$> p) =
      match conn.runExcept now p with
      | (.ok a, conn') => (.ok (f a), conn')
      | (.error e, conn') => (.error e, conn') := runExcept_bind p (fun a => pure (f a)) conn

@[simp] theorem runExcept_tryCatch (p : SqlExcept α) (h : Exn → SqlExcept α) (conn : Conn) :
    conn.runExcept now (tryCatch p h) =
      match conn.runExcept now p with
      | (.ok a, conn') => (.ok a, conn')
      | (.error e, conn') => conn'.runExcept now (h e) := by
  rw [runExcept, ExceptT.run_tryCatch, Resumption.Prog.bind_eq, run_bind, run_run]
  rcases conn.runExcept now p with ⟨_ | _, _⟩ <;> rfl

end Conn

end AcademiaCr.Backend
