import AcademiaCr.Library.Relational
import AcademiaCr.Backend.Statistics

/-!
# The routes of the REST server

The reading handlers of the four controllers, beside the writing ones of `Controllers`, and all
routes as one interface. Only `GET /api/admin/users` reads whole rows of users; it is a call
of its own, next to those of `SqlCall`.

## Main definitions

- `RestCall`, `Conn.execRest`: what the handlers call
- `RestRequest`: the requests to all routes that use the database
- `RestRequest.answer`: the answer to a request, and the connection after it
- `answers`: the answers to requests one after another
-/

namespace AcademiaCr.Backend

open Resumption

/-! ## Calls -/

/-- The calls of the handlers: those of `SqlCall`, and stepping through
`SELECT … FROM users ORDER BY id`. -/
inductive RestCall : Type → Type 1 where
  | sql {β : Type} (e : SqlCall β) : RestCall β
  | usersById : RestCall (List UserRow)

def Conn.execRest (now : Int) : {β : Type} → RestCall β → Conn → β × Conn
  | _, .sql e, conn => conn.exec now e
  | _, .usersById, conn => (Table.orderBy (·.id) conn.db.users, conn)

/-- A handler; without a value where the code has no defined answer. -/
abbrev RestHandler := ExceptT Exn (Prog RestCall) (Option HttpResponse)

/-- A handler that calls nothing but `SqlCall`. -/
def viaSql {α : Type} (p : SqlExcept α) : ExceptT Exn (Prog RestCall) α :=
  ExceptT.mk (Prog.lift RestCall.sql p.run)

/-! ## Courses -/

def Registration.toJson (r : Registration) : Json :=
  .obj [("id", .int r.id), ("student_id", .int r.studentId), ("course_id", .int r.courseId),
    ("status", .str r.status), ("student_name", .str r.studentName),
    ("course_code", .str r.courseCode), ("course_name", .str r.courseName)]

namespace CourseController

/-- `GET /api/courses`, with the `search` parameter as a C string. -/
def getCourses (authHeader : String) (searchParam : Option String) : Handler := do
  match ← authenticateRequest authHeader with
  | none => return errorResponse "Not authenticated" 401
  | some _ =>
    let search := searchParam.getD ""
    if !search.isEmpty then
      let courses ← CourseRepository.search search
      return successResponse 200 (some (.arr (courses.map Course.toJson))) "Success"
    else
      let courses ← CourseRepository.findAll
      return successResponse 200 (some (.arr (courses.map Course.toJson))) "Success"

/-- `GET /api/courses/<int>`. -/
def getCourse (authHeader : String) (id : Int) : Handler := do
  match ← authenticateRequest authHeader with
  | none => return errorResponse "Not authenticated" 401
  | some _ =>
    match ← CourseRepository.findById id with
    | none => return errorResponse "Course not found" 404
    | some course => return successResponse 200 (some course.toJson) "Success"

end CourseController

/-! ## Registrations -/

namespace RegistrationController

/-- `GET /api/students/<int>/courses`. -/
def getStudentCourses (authHeader : String) (studentId : Int) : Handler := do
  match ← authenticateRequest authHeader with
  | none => return errorResponse "Not authenticated" 401
  | some user =>
    if user.role = .student ∧ user.id ≠ studentId then return errorResponse "Forbidden" 403
    else
      let regs ← RegistrationRepository.findByStudent studentId
      let totalCredits ← RegistrationRepository.totalCreditsForStudent studentId
      return successResponse 200 (some (.obj [
        ("registrations", .arr (regs.map Registration.toJson)),
        ("total_credits", .int totalCredits), ("course_count", .int regs.length)])) "Success"

/-- `GET /api/faculty/<int>/courses`, which answers an empty list. -/
def getFacultyCourses (authHeader : String) (_facultyId : Int) : Handler := do
  match ← authenticateRequest authHeader with
  | none => return errorResponse "Not authenticated" 401
  | some user =>
    if user.role = .student then return errorResponse "Forbidden" 403
    else
      let _ ← RegistrationRepository.findByCourse 0
      return successResponse 200 (some (.arr [])) "Success"

/-- `GET /api/courses/<int>/students`. -/
def getCourseStudents (authHeader : String) (courseId : Int) : Handler := do
  match ← authenticateRequest authHeader with
  | none => return errorResponse "Not authenticated" 401
  | some user =>
    if user.role = .student then return errorResponse "Forbidden" 403
    else
      let regs ← RegistrationRepository.findByCourse courseId
      return successResponse 200 (some (.arr (regs.map Registration.toJson))) "Success"

end RegistrationController

/-! ## Users -/

/-- A row whose role is none of the three throws. -/
def UserRepository.findAll : ExceptT Exn (Prog RestCall) (List User) := do
  let rows ← (Prog.perform .usersById : Prog RestCall (List UserRow))
  ExceptT.mk (pure (rows.mapM rowToUser))

/-- `GET /api/admin/users`. -/
def AdminController.getUsers (authHeader : String) : RestHandler := do
  match ← viaSql (authenticateRequest authHeader) with
  | none => return errorResponse "Admin access required" 403
  | some user =>
    if user.role ≠ .admin then return errorResponse "Admin access required" 403
    else
      let users ← UserRepository.findAll
      return successResponse 200 (some (.arr (users.map User.toJson))) "Success"

/-- `GET /api/auth/me`. -/
def AuthController.getMe (authHeader : String) : Handler := do
  match ← authenticateRequest authHeader with
  | none => return errorResponse "Not authenticated" 401
  | some user => return successResponse 200 (some user.toJson) "Success"

/-! ## All routes -/

/-- The requests to the routes that use the database. -/
inductive RestRequest where
  | postLogin (body : Option Json) (generated : String)
  | postLogout (authHeader : String)
  | getMe (authHeader : String)
  | getCourses (authHeader : String) (searchParam : Option String)
  | getCourse (authHeader : String) (id : Int)
  | getStudentCourses (authHeader : String) (studentId : Int)
  | getFacultyCourses (authHeader : String) (facultyId : Int)
  | getCourseStudents (authHeader : String) (courseId : Int)
  | getUsers (authHeader : String)
  | getStatistics (authHeader : String)
  | write (authHeader : String) (endpoint : Endpoint)

/-- A handler that always has an answer. -/
def Handler.rest (handler : Handler) : RestHandler := viaSql (some <$> handler)

namespace RestRequest

def handler : RestRequest → RestHandler
  | postLogin body generated => (AuthController.postLogin body generated).rest
  | postLogout authHeader => (AuthController.postLogout authHeader).rest
  | getMe authHeader => (AuthController.getMe authHeader).rest
  | getCourses authHeader searchParam => (CourseController.getCourses authHeader searchParam).rest
  | getCourse authHeader id => (CourseController.getCourse authHeader id).rest
  | getStudentCourses authHeader studentId =>
    (RegistrationController.getStudentCourses authHeader studentId).rest
  | getFacultyCourses authHeader facultyId =>
    (RegistrationController.getFacultyCourses authHeader facultyId).rest
  | getCourseStudents authHeader courseId =>
    (RegistrationController.getCourseStudents authHeader courseId).rest
  | getUsers authHeader => AdminController.getUsers authHeader
  | getStatistics authHeader => viaSql (AdminController.getStatistics authHeader)
  | write authHeader endpoint => (endpoint.handler authHeader).rest

/-- The answer to a request that no other request overlaps, or the exception that leaves its
handler, and the connection after it. -/
def answer (request : RestRequest) (now : Int) (conn : Conn) :
    Except Exn (Option HttpResponse) × Conn :=
  request.handler.run.run (Conn.execRest now) conn

end RestRequest

/-- The answers to requests at their times, one after another. -/
def answers : List (RestRequest × Int) → Conn → List (Except Exn (Option HttpResponse))
  | [], _ => []
  | (request, now) :: requests, conn =>
    (request.answer now conn).1 :: answers requests (request.answer now conn).2

/-! ## Handlers over `SqlCall` -/

section Sql

variable {α : Type} {now : Int} {conn : Conn}

theorem run_viaSql (p : SqlExcept α) :
    (viaSql p).run.run (Conn.execRest now) conn = conn.runExcept now p :=
  Prog.run_lift (fun _ _ => rfl) p.run conn

/-- What a handler answers, with its connection. -/
theorem run_rest (handler : Handler) :
    handler.rest.run.run (Conn.execRest now) conn =
      ((conn.runExcept now handler).1.map some, (conn.runExcept now handler).2) := by
  rw [Handler.rest, run_viaSql, Conn.runExcept_map]
  cases conn.runExcept now handler with
  | mk outcome conn' => cases outcome <;> rfl

end Sql

/-! ## Two executions -/

section Alike

open Prog

variable {α : Type} {now : Int} {R : Conn → Conn → Prop} {Q : α → α → Prop}

theorem alikeFrom_catchJson {p p' : Handler}
    (h : AlikeFrom (Conn.exec now) (Conn.exec now) R Eq p p') :
    AlikeFrom (Conn.exec now) (Conn.exec now) R Eq (catchJson p) (catchJson p') := by
  refine alikeFrom_tryCatch h fun e => ?_
  cases e with
  | json => exact alikeFrom_pure rfl
  | std what => exact alikeFrom_mk (.error _)

theorem alikeFrom_viaSql {p p' : SqlExcept α}
    (h : AlikeFrom (Conn.exec now) (Conn.exec now) R Q p p') :
    AlikeFrom (Conn.execRest now) (Conn.execRest now) R Q (viaSql p) (viaSql p') := by
  intro conn conn' hR
  rw [Alike, run_viaSql, run_viaSql]
  exact h conn conn' hR

theorem alikeFrom_rest {handler handler' : Handler}
    (h : AlikeFrom (Conn.exec now) (Conn.exec now) R Eq handler handler') :
    AlikeFrom (Conn.execRest now) (Conn.execRest now) R Eq handler.rest handler'.rest := by
  refine alikeFrom_viaSql (alikeFrom_bind h ?_)
  rintro response _ rfl
  exact alikeFrom_pure rfl

end Alike

end AcademiaCr.Backend
