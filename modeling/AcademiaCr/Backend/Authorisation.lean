import AcademiaCr.Backend.SequentialRuns

/-!
# Who may write courses

The role and ownership checks of the three writing routes of `/api/courses`, followed
through the controller and the service.

## Main definitions

- `CourseRequest`: the writing routes
- `Entitled`: who the routes are for
- `Authorised`: only an entitled user's request changes courses or registrations, and
  any other request fails without effect
-/

namespace AcademiaCr.Backend

open Resumption

/-- The writing requests to `/api/courses`. -/
inductive CourseRequest where
  | post (body : Option Json)
  | put (id : Int) (body : Option Json)
  | delete (id : Int)

def CourseRequest.handler (authHeader : String) : CourseRequest → Handler
  | post body => CourseController.postCourses authHeader body
  | put id body => CourseController.putCourse authHeader id body
  | delete id => CourseController.deleteCourse authHeader id

/-- The user is an administrator, or a faculty member writing a course of their own: the
one a `POST` stores, or the existing one a `PUT` or `DELETE` names. -/
def Entitled (user : User) (before after : Db) : CourseRequest → Prop
  | .post _ => user.role = .admin ∨ (user.role = .faculty ∧
      ∀ c ∈ after.courses, c ∉ before.courses → c.facultyId = some user.id)
  | .put id _ | .delete id => user.role = .admin ∨ (user.role = .faculty ∧
      ∃ c ∈ before.courses, c.id = id ∧ c.facultyId = some user.id)

/-- An error status, or an exception that leaves the handler. -/
def Failed : Except Exn HttpResponse → Prop
  | .error _ => True
  | .ok response => 400 ≤ response.status

instance : DecidablePred Failed
  | .error _ => .isTrue trivial
  | .ok response => inferInstanceAs (Decidable (400 ≤ response.status))

/-- A request is authorised on a connection if it changes courses and registrations only
for an entitled user and otherwise fails without changing any table. -/
def Authorised (now : Int) (authHeader : String) (user : User) (request : CourseRequest)
    (conn : Conn) : Prop :=
  let outcome := conn.runExcept now (request.handler authHeader)
  (outcome.2.db.courses ≠ conn.db.courses ∨ outcome.2.db.registrations ≠ conn.db.registrations →
      Entitled user conn.db outcome.2.db request) ∧
    (¬ Entitled user conn.db outcome.2.db request → Failed outcome.1 ∧ outcome.2.db = conn.db)

/-- The bearer token of the request identifies the user. -/
def Authenticates (now : Int) (conn : Conn) (authHeader : String) (user : User) : Prop :=
  (conn.runExcept now (authenticateRequest authHeader)).1 = .ok (some user)

section

variable {now : Int} {conn : Conn} {authHeader : String} {user : User}

theorem Authenticates.run (h : Authenticates now conn authHeader user) :
    conn.runExcept now (authenticateRequest authHeader) = (.ok (some user), conn) :=
  Prod.ext h (conn.run_readOnly (within_authenticateRequest authHeader))

theorem rowToUser_id {row : UserRow} (h : rowToUser row = .ok user) : user.id = row.id := by
  simp only [rowToUser] at h
  cases hrole : stringToRole row.role with
  | error e => rw [hrole] at h; cases h
  | ok role => rw [hrole] at h; cases h; rfl

theorem runExcept_userById {id : Int}
    (h : (conn.runExcept now (UserRepository.findById id)).1 = .ok (some user)) :
    ∃ row ∈ conn.db.users, user.id = row.id := by
  simp only [UserRepository.findById, Conn.runExcept_bind, Conn.runExcept_liftM, Conn.run_select,
    Query.eval] at h
  cases hrow : conn.db.findUser id with
  | none => rw [hrow] at h; cases h
  | some row =>
    refine ⟨row, List.mem_of_find?_eq_some hrow, ?_⟩
    rw [hrow] at h
    simp only [UserRepository.ofRow, UserRepository.ofRow.liftExcept, Conn.runExcept_bind,
      Conn.runExcept_mk] at h
    cases huser : rowToUser row with
    | error e => rw [huser] at h; cases h
    | ok u =>
      rw [huser] at h
      cases h
      exact rowToUser_id huser

/-- The id of an authenticated user is one that the users table generated. -/
theorem Authenticates.id_pos (hv : conn.db.Valid) (h : Authenticates now conn authHeader user) :
    0 < user.id := by
  have hvalidate : ∃ token,
      (conn.runExcept now (AuthService.validateToken token)).1 = .ok (some user) := by
    unfold Authenticates authenticateRequest at h
    split at h
    · cases h
    split at h
    · cases h
    split at h
    · cases h
    exact ⟨_, h⟩
  obtain ⟨token, htoken⟩ := hvalidate
  simp only [AuthService.validateToken, UserRepository.validateSession, Conn.runExcept_bind,
    Conn.runExcept_liftM, Conn.run_select] at htoken
  split at htoken
  · cases htoken
  · obtain ⟨row, hrow, hid⟩ := runExcept_userById htoken
    rw [hid]
    exact hv.userPos row hrow

/-- What `facultyId.getD 0` names is an owner, since no user has the id 0. -/
theorem owner_of_getD (hpos : 0 < user.id) {row : CourseRow}
    (h : row.facultyId.getD 0 = user.id) : row.facultyId = some user.id := by
  cases hf : row.facultyId with
  | none => rw [hf] at h; simp at h; omega
  | some f => rw [hf] at h; simpa using h

/-! ## The three routes -/

/-- Answers to a request that changed nothing need no entitlement. -/
theorem Authorised.of_failed {request : CourseRequest}
    (hf : Failed (conn.runExcept now (request.handler authHeader)).1)
    (hdb : (conn.runExcept now (request.handler authHeader)).2.db = conn.db) :
    Authorised now authHeader user request conn := by
  refine ⟨fun h => ?_, fun _ => ⟨hf, hdb⟩⟩
  rw [hdb] at h
  exact (h.elim (fun h => h rfl) fun h => h rfl).elim

theorem Authorised.of_entitled {request : CourseRequest}
    (h : Entitled user conn.db (conn.runExcept now (request.handler authHeader)).2.db request) :
    Authorised now authHeader user request conn :=
  ⟨fun _ => h, fun hno => (hno h).elim⟩

/-- The common body of `POST` and `PUT`: read the course, call the service, answer. -/
def courseRoute (service : Course → Sql CourseResult) (answer : CourseResult → Handler)
    (body : Option Json) : Handler := catchJson do
  let course ← fromJson Course.fromJson (← parseBody body)
  let result ← service course
  if !result.success then return errorResponse result.error 400 else answer result

/-- Such a route fails without effect on a bad body, else it does what the service does and
fails if the service does. -/
theorem runExcept_courseRoute (now : Int) (service : Course → Sql CourseResult)
    {answer : CourseResult → Handler}
    (hanswer : ∀ result, ∀ conn : Conn,
      ∃ response, conn.runExcept now (answer result) = (.ok response, conn))
    (body : Option Json) (conn : Conn) :
    (Failed (conn.runExcept now (courseRoute service answer body)).1 ∧
        (conn.runExcept now (courseRoute service answer body)).2 = conn) ∨
      ∃ course, (conn.runExcept now (courseRoute service answer body)).2 =
          (conn.run now (service course)).2 ∧
        ((conn.run now (service course)).1.success = false →
          Failed (conn.runExcept now (courseRoute service answer body)).1) := by
  cases body with
  | none => exact Or.inl ⟨Int.le_refl 400, rfl⟩
  | some json =>
    simp only [courseRoute, catchJson, parseBody, fromJson, Conn.runExcept_tryCatch,
      Conn.runExcept_bind, Conn.runExcept_pure, Conn.runExcept_mk]
    cases hcourse : Course.fromJson json with
    | error e =>
      left
      cases e with
      | json => exact ⟨Int.le_refl 400, rfl⟩
      | std what => exact ⟨trivial, rfl⟩
    | ok course =>
      refine Or.inr ⟨course, ?_⟩
      simp only [Conn.runExcept_liftM]
      cases hsucc : (conn.run now (service course)).1.success with
      | false => simp [Failed, errorResponse]
      | true =>
        obtain ⟨response, hr⟩ := hanswer (conn.run now (service course)).1
          (conn.run now (service course)).2
        simp [hr]

/-- Looking the course up for the answer changes nothing. -/
theorem runExcept_answer (now id : Int) (respond : Option Course → HttpResponse) (conn : Conn) :
    ∃ response, conn.runExcept now (do
      let course ← (CourseRepository.findById id : Sql (Option Course))
      return respond course : Handler) = (.ok response, conn) := by
  simp

/-- The course that `POST` hands to the service. -/
def ownedBy (user : User) (course : Course) : Course :=
  if user.role = .faculty then { course with facultyId := user.id } else course

theorem runExcept_postCourses (hauth : Authenticates now conn authHeader user)
    (hrole : ¬ (user.role ≠ .faculty ∧ user.role ≠ .admin)) (body : Option Json) :
    conn.runExcept now (CourseController.postCourses authHeader body) =
      conn.runExcept now (courseRoute (fun course => CourseService.createCourse
        (ownedBy user course) user)
        (fun result => do
          let created ← (CourseRepository.findById result.courseId : Sql (Option Course))
          return successResponse 201 (created.map Course.toJson) "Course created") body) := by
  simp only [CourseController.postCourses, Conn.runExcept_bind, hauth.run, if_neg hrole]
  rfl

theorem runExcept_putCourse (hauth : Authenticates now conn authHeader user)
    (hrole : ¬ (user.role ≠ .faculty ∧ user.role ≠ .admin)) (id : Int) (body : Option Json) :
    conn.runExcept now (CourseController.putCourse authHeader id body) =
      conn.runExcept now (courseRoute (fun course => CourseService.updateCourse
        { course with id } user)
        (fun _ => do
          let updated ← (CourseRepository.findById id : Sql (Option Course))
          return successResponse 200 (updated.map Course.toJson) "Course updated") body) := by
  simp only [CourseController.putCourse, Conn.runExcept_bind, hauth.run, if_neg hrole]
  rfl

theorem authorised_post (hauth : Authenticates now conn authHeader user) (body : Option Json) :
    Authorised now authHeader user (.post body) conn := by
  by_cases hrole : user.role ≠ .faculty ∧ user.role ≠ .admin
  · refine .of_failed ?_ ?_ <;>
      simp [CourseRequest.handler, CourseController.postCourses, hauth.run, hrole, Failed,
        errorResponse]
  have hrun := runExcept_postCourses hauth hrole body
  rcases runExcept_courseRoute now
      (fun course => CourseService.createCourse (ownedBy user course) user)
      (fun result => runExcept_answer now result.courseId _) body conn with
    ⟨hf, hc⟩ | ⟨course, hc, hf⟩
  · rw [← hrun] at hf hc
    exact .of_failed hf (congrArg Conn.db hc)
  rw [← hrun] at hf hc
  rcases Conn.run_createCourse now (ownedBy user course) user conn with
    ⟨hno, hdb⟩ | ⟨-, hwho, applied, ha, hdb⟩
  · exact .of_failed (hf hno) (by rw [← hdb, ← hc]; rfl)
  · refine .of_entitled (hwho.imp_right fun hfaculty => ⟨hfaculty, fun c hmem hnew => ?_⟩)
    have hafter : ((conn.runExcept now ((CourseRequest.post body).handler authHeader)).2).db =
        applied.db := by rw [← hdb, ← hc]; rfl
    rw [hafter] at hmem
    simp only [Db.insertCourse] at ha
    split at ha
    · cases ha
      obtain hold | hadded := List.mem_append.mp hmem
      · exact absurd hold hnew
      · rw [List.mem_singleton.mp hadded]
        simp [ownedBy, hfaculty]
    · cases ha

theorem authorised_put (hv : conn.db.Valid) (hauth : Authenticates now conn authHeader user)
    (id : Int) (body : Option Json) : Authorised now authHeader user (.put id body) conn := by
  by_cases hrole : user.role ≠ .faculty ∧ user.role ≠ .admin
  · refine .of_failed ?_ ?_ <;>
      simp [CourseRequest.handler, CourseController.putCourse, hauth.run, hrole, Failed,
        errorResponse]
  have hrun := runExcept_putCourse hauth hrole id body
  rcases runExcept_courseRoute now
      (fun course => CourseService.updateCourse { course with id } user)
      (fun _ => runExcept_answer now id _) body conn with ⟨hf, hc⟩ | ⟨course, hc, hf⟩
  · rw [← hrun] at hf hc
    exact .of_failed hf (congrArg Conn.db hc)
  rw [← hrun] at hf hc
  rcases Conn.run_updateCourse now { course with id } user conn with
    ⟨hno, hconn⟩ | ⟨-, ⟨row, hrow, howner⟩, -, -⟩
  · exact .of_failed (hf hno) (congrArg Conn.db (hc.trans hconn))
  · refine .of_entitled ?_
    by_cases hadmin : user.role = .admin
    · exact Or.inl hadmin
    · have hfaculty : user.role = .faculty := by tauto
      exact Or.inr ⟨hfaculty, row, Db.findCourse_mem hrow, Db.findCourse_id hrow,
        owner_of_getD (hauth.id_pos hv) (howner hfaculty)⟩

/-- The route answers as the service does. -/
theorem runExcept_deleteCourse (hauth : Authenticates now conn authHeader user) (id : Int) :
    conn.runExcept now (CourseController.deleteCourse authHeader id) =
      (.ok (if (conn.run now (CourseService.deleteCourse id user)).1.success then
          successResponse 200 none "Course deleted"
        else errorResponse (conn.run now (CourseService.deleteCourse id user)).1.error 400),
      (conn.run now (CourseService.deleteCourse id user)).2) := by
  simp only [CourseController.deleteCourse, Conn.runExcept_bind, hauth.run, Conn.runExcept_liftM]
  cases (conn.run now (CourseService.deleteCourse id user)).1.success <;> rfl

/-- A student's request to delete a course that exists is carried out. -/
theorem not_authorised_delete (hauth : Authenticates now conn authHeader user) {id : Int}
    (hrole : user.role = .student) (hc : conn.db.courseExists id = true) :
    ¬ Authorised now authHeader user (.delete id) conn := by
  rintro ⟨hchange, -⟩
  simp only [CourseRequest.handler, runExcept_deleteCourse hauth] at hchange
  obtain ⟨row, hrow, hid⟩ := Db.courseExists_iff.mp hc
  obtain ⟨-, -, -, hno⟩ | ⟨-, hconn, -⟩ := Conn.run_deleteCourse now id user conn
  · obtain ⟨found, hfound⟩ := Option.isSome_iff_exists.mp
      (List.find?_isSome.mpr ⟨row, hrow, by simpa using hid⟩ :
        (conn.db.findCourse id).isSome = true)
    rw [hrole] at hno
    cases (hno found hfound).1
  · rw [hconn] at hchange
    have hentitled := hchange (Or.inl fun hsame => ?_)
    · simp [Entitled, hrole] at hentitled
    · -- the row is gone
      have hmem := hsame.symm ▸ hrow
      simp [Conn.write, Write.apply, Db.deleteCourse, hid] at hmem

theorem authorised_delete (hv : conn.db.Valid) (hauth : Authenticates now conn authHeader user)
    {id : Int} (h : ¬ (user.role = .student ∧ conn.db.courseExists id = true)) :
    Authorised now authHeader user (.delete id) conn := by
  have hpos := hauth.id_pos hv
  rcases Conn.run_deleteCourse now id user conn with
    ⟨hfail, hconn, -, -⟩ | ⟨-, -, hadmin | ⟨row, hrow, howner⟩⟩
  · refine .of_failed ?_ ?_ <;>
      simp only [CourseRequest.handler, runExcept_deleteCourse hauth, hfail, hconn]
    simp [Failed, errorResponse]
  · exact .of_entitled (Or.inl hadmin)
  · have hmem := Db.findCourse_mem hrow
    have hid := Db.findCourse_id hrow
    cases hrole : user.role with
    | admin => exact .of_entitled (Or.inl hrole)
    | faculty =>
      exact .of_entitled (Or.inr ⟨hrole, row, hmem, hid, owner_of_getD hpos (howner hrole)⟩)
    | student => exact absurd ⟨hrole, Db.courseExists_iff.mpr ⟨row, hmem, hid⟩⟩ h

end

/-! ## All routes, and the session of a student -/

/-- The seeded database after `john.doe` (user 5) logged in. -/
def studentSession : Conn := ((startup true).run 0 (UserRepository.createSession "f00d" 5)).2

def johnDoe : User where
  id := 5
  username := "john.doe"
  passwordHash := hashPassword "student123"
  role := .student
  name := "John Doe"
  email := "john.doe@academia.edu"

theorem studentSession_valid : studentSession.db.Valid :=
  (Conn.run_valid _ (startup_sound true).connValid).db

theorem studentSession_authenticates :
    Authenticates 0 studentSession "Bearer f00d" johnDoe := by
  unfold Authenticates
  decide +kernel

/-- On every table state that the schema allows, a request to write courses is authorised
unless it is a student's request to delete a course that exists. -/
theorem authorised_iff {now : Int} {conn : Conn} {authHeader : String} {user : User}
    (hv : conn.db.Valid) (hauth : Authenticates now conn authHeader user)
    (request : CourseRequest) :
    Authorised now authHeader user request conn ↔
      ¬ (∃ id, request = .delete id ∧ user.role = .student ∧ conn.db.courseExists id = true) := by
  constructor
  · rintro h ⟨id, rfl, hrole, hc⟩
    exact not_authorised_delete hauth hrole hc h
  · intro h
    cases request with
    | post body => exact authorised_post hauth body
    | put id body => exact authorised_put hv hauth id body
    | delete id => exact authorised_delete hv hauth fun ⟨hrole, hc⟩ => h ⟨id, rfl, hrole, hc⟩

/-- The requests of `john.doe` to create a course are refused. -/
theorem authorised_johnDoe_post : Authorised 0 "Bearer f00d" johnDoe (.post none) studentSession :=
  (authorised_iff studentSession_valid studentSession_authenticates _).mpr (by simp)

/-- The student `john.doe` deletes the course `CS301` of `dr.smith`. -/
theorem student_deletes_course :
    ¬ ∀ conn : Conn, conn.db.Valid → ∀ now authHeader user,
      Authenticates now conn authHeader user →
        ∀ request, Authorised now authHeader user request conn := by
  intro h
  have hcourse : studentSession.db.courseExists 1 = true := by decide +kernel
  exact not_authorised_delete studentSession_authenticates rfl hcourse
    (h _ studentSession_valid _ _ _ studentSession_authenticates _)

end AcademiaCr.Backend
