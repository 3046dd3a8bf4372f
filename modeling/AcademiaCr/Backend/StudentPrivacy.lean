import AcademiaCr.Backend.StudentView

/-!
# What a student is told

A student may call every route. The answers to all requests of a student, one after another, are
the same on two databases that look the same to the student: they depend on the other students
only through the number of seats that these have taken in each course.

## Main definitions

- `Own`: programs all of whose statements concern the student
- `AlikeFor`: programs that answer alike on databases that look the same to the student
- `RestRequest.MadeBy`: the requests that carry the student's name or tokens
- `answers_of_sameView`: the answers depend on what the student can see
-/

namespace AcademiaCr.Backend

open Resumption Prog

/-! ## Programs about the student -/

section Own

variable {α β : Type} {v : Viewer}

abbrev Own (v : Viewer) (p : Sql α) : Prop := p.Calls fun _ e => e.OwnOf v

theorem own_bind {p : Sql α} {f : α → Sql β} (hp : Own v p) (hf : ∀ a, Own v (f a)) :
    Own v (p >>= f) := calls_bind hp hf

theorem own_sql {e : SqlCall β} (he : e.OwnOf v) : Own v (sql e) := ⟨he, fun _ => trivial⟩

theorem own_select {q : Query β} (hq : q.OwnOf v) : Own v (select q) := ⟨hq, fun _ => trivial⟩

theorem own_stepWrite {w : Write} (hw : w.OwnOf v) : Own v (stepWrite w) :=
  ⟨hw, fun _ => trivial⟩

theorem own_courseById (id : Int) : Own v (CourseRepository.findById id) :=
  own_bind (own_select trivial) fun _ => trivial

theorem own_execute {e : SqlCall (Option String)} (he : e.OwnOf v) (statement : String) :
    Own v (Database.execute (sql e) statement).run := by
  refine calls_except_bind (calls_liftM (own_sql he)) fun err => ?_
  cases err <;> trivial

end Own

/-! ## Programs on both databases -/

/-- On connections that look the same to the student, the programs throw the same or return
related values, and they leave connections that look the same. -/
abbrev AlikeFor (v : Viewer) (now : Int) {α : Type} (Q : α → α → Prop) (p p' : SqlExcept α) :
    Prop :=
  AlikeFrom (Conn.exec now) (Conn.exec now) (SameViewOn v) Q p p'

section AlikeFor

variable {α β : Type} {v : Viewer} {now : Int} {Q : α → α → Prop}

theorem alikeFor_of_own {p : SqlExcept α} (hp : Own v p.run) : AlikeFor v now Eq p p :=
  alikeFrom_of_calls hp fun _ _ _ he h => h.exec he

theorem alikeFor_answer (response : HttpResponse) :
    AlikeFor v now Eq (return response : Handler) (return response) := alikeFrom_pure rfl

/-- What the student's programs return on both databases is the same. -/
theorem alikeFor_bind {p : SqlExcept α} {f : α → SqlExcept β} {Q : β → β → Prop}
    (h : AlikeFor v now Eq p p) (hf : ∀ a, AlikeFor v now Q (f a) (f a)) :
    AlikeFor v now Q (p >>= f) (p >>= f) := by
  refine alikeFrom_bind h ?_
  rintro a _ rfl
  exact hf a

theorem alikeFor_liftM {p : Sql α} (hp : Own v p) :
    AlikeFor v now Eq (liftM p : SqlExcept α) (liftM p) := alikeFor_of_own (calls_liftM hp)

/-! ## The account -/

/-- Both found nobody, or both the student. -/
def IsStudent (v : Viewer) (found found' : Option User) : Prop :=
  found = found' ∧ ∀ user, found = some user → user.id = v.id ∧ user.role = .student

/-- Both found no row, or both that of the student. -/
def IsAccount (v : Viewer) (found found' : Option UserRow) : Prop :=
  found = found' ∧ ∀ row, found = some row → row.id = v.id ∧ row.role = "student"

theorem alikeFor_ofRow {found found' : Option UserRow} (h : IsAccount v found found') :
    AlikeFor v now (IsStudent v) (UserRepository.ofRow found) (UserRepository.ofRow found') := by
  obtain ⟨rfl, h⟩ := h
  cases found with
  | none => exact alikeFrom_pure ⟨rfl, by simp⟩
  | some row =>
    obtain ⟨hid, hrole⟩ := h row rfl
    have hread : rowToUser row = .ok
        { id := row.id, username := row.username, passwordHash := row.passwordHash,
          role := .student, name := row.name, email := row.email, active := row.active ≠ 0 } := by
      rw [rowToUser, hrole]
      rfl
    refine alikeFrom_bind (Q := fun user user' => user = user' ∧ user.id = v.id ∧
      user.role = .student) (alikeFrom_mk ?_) fun user user' huser => alikeFrom_pure ?_
    · rw [hread]
      exact .ok ⟨rfl, hid, rfl⟩
    · obtain ⟨rfl, huser⟩ := huser
      refine ⟨rfl, fun u hu => ?_⟩
      cases hu
      exact huser

theorem SameViewOn.account {conn conn' : Conn} (h : SameViewOn v conn conn')
    {q : Query (Option UserRow)} (hq : q.OwnOf v) (hrow : ∀ row, q.eval now conn.db = some row →
      row ∈ conn.db.users ∧ row.id = v.id) :
    Alike (Conn.exec now) (Conn.exec now) (SameViewOn v) (IsAccount v) (select q) (select q)
      conn conn' := by
  refine ⟨⟨h.db.eval now hq, fun row hfound => ?_⟩, h⟩
  obtain ⟨hmem, hid⟩ := hrow row hfound
  exact ⟨hid, h.db.left.student row hmem hid⟩

theorem alikeFor_userById : AlikeFor v now (IsStudent v) (UserRepository.findById v.id)
    (UserRepository.findById v.id) := by
  refine alikeFrom_bind (alikeFrom_liftM fun conn conn' h => h.account rfl fun row hrow => ?_)
    fun found found' hfound => alikeFor_ofRow hfound
  have hfound : conn.db.users.find? (fun u => decide (u.id = v.id)) = some row := hrow
  exact ⟨List.mem_of_find?_eq_some hfound, by simpa using List.find?_some hfound⟩

theorem alikeFor_userByUsername {username : String} (hname : bindText username = v.username) :
    AlikeFor v now (IsStudent v) (UserRepository.findByUsername username)
      (UserRepository.findByUsername username) := by
  refine alikeFrom_bind (alikeFrom_liftM fun conn conn' h => h.account hname fun row hrow => ?_)
    fun found found' hfound => alikeFor_ofRow hfound
  have hfound : conn.db.users.find? (fun u => decide (u.username = bindText username)) =
      some row := hrow
  have hmem := List.mem_of_find?_eq_some hfound
  have hrowname : row.username = bindText username := by simpa using List.find?_some hfound
  exact ⟨hmem, h.db.left.named row hmem (hrowname.trans hname)⟩

/-- The header holds a token of the student, if it holds one. -/
def Viewer.Carries (v : Viewer) (authHeader : String) : Prop :=
  v.tokens (bindText (String.ofList (authHeader.toList.drop 7)))

theorem alikeFor_authenticateRequest {authHeader : String} (h : v.Carries authHeader) :
    AlikeFor v now (IsStudent v) (authenticateRequest authHeader)
      (authenticateRequest authHeader) := by
  have hnobody : AlikeFor v now (IsStudent v) (return none) (return none) :=
    alikeFrom_pure ⟨rfl, by simp⟩
  unfold authenticateRequest
  iterate 3
    split
    · exact hnobody
  refine alikeFrom_bind (Q := fun found found' => found = found' ∧
    (found = none ∨ found = some v.id)) (alikeFrom_liftM fun conn conn' hsame => ?_) ?_
  · have hquery : (Query.sessionUser (String.ofList (authHeader.toList.drop 7))).OwnOf v := h
    have hfound : (Query.sessionUser (String.ofList (authHeader.toList.drop 7))).eval now conn.db =
        none ∨ (Query.sessionUser (String.ofList (authHeader.toList.drop 7))).eval now conn.db =
          some v.id := by
      rw [hsame.db.left.sessionUser now h]
      split
      · exact Or.inr rfl
      · exact Or.inl rfl
    exact ⟨⟨hsame.db.eval now hquery, hfound⟩, hsame⟩
  · rintro found _ ⟨rfl, rfl | rfl⟩
    · exact hnobody
    · exact alikeFor_userById

/-- A handler that authenticates the student. -/
theorem alikeFor_authenticated {authHeader : String} (hheader : v.Carries authHeader)
    {refused : SqlExcept α} {handler : User → SqlExcept α}
    (hrefused : AlikeFor v now Q refused refused)
    (h : ∀ user : User, user.id = v.id → user.role = .student →
      AlikeFor v now Q (handler user) (handler user)) :
    AlikeFor v now Q
      (authenticateRequest authHeader >>= fun found =>
        match found with
        | none => refused
        | some user => handler user)
      (authenticateRequest authHeader >>= fun found =>
        match found with
        | none => refused
        | some user => handler user) := by
  refine alikeFrom_bind (alikeFor_authenticateRequest hheader) ?_
  rintro found _ ⟨rfl, hstudent⟩
  cases found with
  | none => exact hrefused
  | some user => exact h user (hstudent user rfl).1 (hstudent user rfl).2

/-! ## Registration -/

theorem alikeFor_transaction {func : SqlExcept α} (h : AlikeFor v now Eq func func) :
    AlikeFor v now Eq (Database.transaction func) (Database.transaction func) := by
  have hbegin : AlikeFor v now Eq Database.beginTransaction Database.beginTransaction :=
    alikeFor_of_own (own_execute (e := .beginImmediate) trivial _)
  have hcommit : AlikeFor v now Eq Database.commit Database.commit :=
    alikeFor_of_own (own_execute (e := .commit) trivial _)
  have hrollback : AlikeFor v now Eq Database.rollback Database.rollback :=
    alikeFor_of_own (calls_tryCatch (own_execute (e := .rollback) trivial _) fun _ => trivial)
  refine alikeFor_bind hbegin fun _ => alikeFrom_tryCatch ?_ fun e => ?_
  · exact alikeFor_bind h fun _ => alikeFor_bind hcommit fun _ => alikeFrom_pure rfl
  · exact alikeFor_bind hrollback fun _ => alikeFrom_mk (.error e)

/-- The new registration gets the same key on both databases. -/
theorem alikeFor_insert (c : Int) :
    AlikeFor v now Eq
      (do
        if ← stepWrite (.insertRegistration v.id c) then return ← (sql .lastInsertRowid : Sql Int)
        else throw (.std "Failed to create registration") : SqlExcept Int)
      (do
        if ← stepWrite (.insertRegistration v.id c) then return ← (sql .lastInsertRowid : Sql Int)
        else throw (.std "Failed to create registration")) := by
  intro conn conn' h
  have hown : (Write.insertRegistration v.id c).OwnOf v := rfl
  have hwritten : SameViewOn v (conn.write now (.insertRegistration v.id c)).2
      (conn'.write now (.insertRegistration v.id c)).2 := (h.write hown).2
  have hrun : ∀ conn : Conn, conn.runExcept now (do
      if ← stepWrite (.insertRegistration v.id c) then return ← (sql .lastInsertRowid : Sql Int)
      else throw (.std "Failed to create registration") : SqlExcept Int) =
      (if (conn.write now (.insertRegistration v.id c)).1 then
          .ok (conn.write now (.insertRegistration v.id c)).2.lastInsertRowid
        else .error (.std "Failed to create registration"),
        (conn.write now (.insertRegistration v.id c)).2) := by
    intro conn
    simp only [Conn.runExcept_bind, Conn.runExcept_liftM, Conn.run_stepWrite]
    split <;> simp [Conn.exec]
  show SameOutcome Eq (conn.runExcept now _).1 (conn'.runExcept now _).1 ∧
    SameViewOn v (conn.runExcept now _).2 (conn'.runExcept now _).2
  rw [hrun, hrun]
  refine ⟨?_, hwritten⟩
  obtain ⟨hnone, hnone'⟩ | ⟨id, hsome, hsome'⟩ := h.db.insertRegistration c
  · simp only [Conn.write, Write.apply, hnone, hnone']
    exact .error _
  · simp only [Conn.write, Write.apply, hsome, hsome']
    exact .ok rfl

theorem alikeFor_create (c : Int) :
    AlikeFor v now Eq (RegistrationRepository.create v.id c)
      (RegistrationRepository.create v.id c) := by
  refine alikeFor_bind (alikeFor_liftM (own_stepWrite rfl)) fun _ => ?_
  refine alikeFor_bind (alikeFor_liftM (own_sql (e := .changes) trivial)) fun _ => ?_
  split
  · exact alikeFor_bind (alikeFor_liftM (own_select rfl)) fun _ => alikeFrom_pure rfl
  · exact alikeFor_insert c

/-- A service that turns an exception into a result. -/
theorem alikeFor_service {func : SqlExcept α} (h : AlikeFor v now Eq func func)
    (f : Except Exn α → β) :
    AlikeFor v now Eq (liftM (func.run.bind fun outcome => ret (f outcome)) : SqlExcept β)
      (liftM (func.run.bind fun outcome => ret (f outcome))) := by
  refine alikeFrom_liftM fun conn conn' hsame => ?_
  refine (h conn conn' hsame).bind fun outcome outcome' t t' hout ht => alike_ret ?_ ht
  rw [sameOutcome_eq.mp hout]

theorem own_exists (c : Int) : Own v (RegistrationRepository.exists' v.id c) :=
  own_bind (own_select rfl) fun _ => trivial

/-- What the service returns once its transaction has ended. -/
def reported (failure : String) : Except Exn RegistrationResult → RegistrationResult
  | .ok result => result
  | .error e => { error := failure ++ e.what }

theorem alikeFor_registerStudent (c : Int) :
    AlikeFor v now Eq (liftM (RegistrationService.registerStudent v.id c) : SqlExcept _)
      (liftM (RegistrationService.registerStudent v.id c)) := by
  have hinner : AlikeFor v now Eq (RegistrationService.registerTransaction v.id c)
      (RegistrationService.registerTransaction v.id c) := by
    refine alikeFor_bind (alikeFor_liftM (own_courseById c)) fun course => ?_
    split
    · exact alikeFrom_pure rfl
    refine alikeFor_bind (alikeFor_liftM (own_exists c)) fun _ => ?_
    split
    · exact alikeFrom_pure rfl
    refine alikeFor_bind (alikeFor_liftM (own_select trivial)) fun _ => ?_
    dsimp only
    split
    · exact alikeFrom_pure rfl
    · exact alikeFor_bind (alikeFor_create c) fun _ => alikeFrom_pure rfl
  have hservice := alikeFor_service (alikeFor_transaction hinner) (reported "Registration failed: ")
  have heq : RegistrationService.registerStudent v.id c =
      (Database.transaction (RegistrationService.registerTransaction v.id c)).run.bind
        fun outcome => ret (reported "Registration failed: " outcome) := by
    rw [RegistrationService.registerStudent]
    exact congrArg (Prog.bind _) (funext fun outcome => by cases outcome <;> rfl)
  rwa [heq]

theorem alikeFor_dropStudent (c : Int) :
    AlikeFor v now Eq (liftM (RegistrationService.dropStudent v.id c) : SqlExcept _)
      (liftM (RegistrationService.dropStudent v.id c)) := by
  have hinner : AlikeFor v now Eq (RegistrationService.dropTransaction v.id c)
      (RegistrationService.dropTransaction v.id c) := by
    refine alikeFor_bind (alikeFor_liftM (own_exists c)) fun _ => ?_
    split
    · refine alikeFor_bind (alikeFor_liftM (own_stepWrite rfl)) fun _ => ?_
      refine alikeFor_bind (alikeFor_liftM (own_courseById c)) fun _ => ?_
      split <;> exact alikeFrom_pure rfl
    · exact alikeFrom_pure rfl
  have hservice := alikeFor_service (alikeFor_transaction hinner) (reported "Drop failed: ")
  have heq : RegistrationService.dropStudent v.id c =
      (Database.transaction (RegistrationService.dropTransaction v.id c)).run.bind
        fun outcome => ret (reported "Drop failed: " outcome) := by
    rw [RegistrationService.dropStudent]
    exact congrArg (Prog.bind _) (funext fun outcome => by cases outcome <;> rfl)
  rwa [heq]

/-! ## Routes -/

theorem alikeFor_postRegister {authHeader : String} (hheader : v.Carries authHeader) (c : Int) :
    AlikeFor v now Eq (RegistrationController.postRegister authHeader c)
      (RegistrationController.postRegister authHeader c) := by
  refine alikeFor_authenticated hheader (alikeFor_answer _) fun user hid hrole => ?_
  split
  · exact alikeFor_answer _
  · rw [hid]
    refine alikeFor_bind (alikeFor_registerStudent c) fun result => ?_
    split <;> exact alikeFor_answer _

theorem alikeFor_deleteRegister {authHeader : String} (hheader : v.Carries authHeader)
    (c : Int) : AlikeFor v now Eq (RegistrationController.deleteRegister authHeader c)
      (RegistrationController.deleteRegister authHeader c) := by
  refine alikeFor_authenticated hheader (alikeFor_answer _) fun user hid hrole => ?_
  split
  · exact alikeFor_answer _
  · rw [hid]
    refine alikeFor_bind (alikeFor_dropStudent c) fun result => ?_
    split <;> exact alikeFor_answer _

/-- The deletion of a course looks at no role but that of a faculty member. -/
theorem alikeFor_deleteCourse {authHeader : String} (hheader : v.Carries authHeader) (id : Int) :
    AlikeFor v now Eq (CourseController.deleteCourse authHeader id)
      (CourseController.deleteCourse authHeader id) := by
  have hremove : Own v (CourseService.deleteCourse.remove id) :=
    own_bind (own_stepWrite (w := .deleteCourse id) trivial) fun _ => trivial
  refine alikeFor_authenticated hheader (alikeFor_answer _) fun user hid hrole => ?_
  refine alikeFor_bind (alikeFor_liftM ?_) fun result => ?_
  · unfold CourseService.deleteCourse
    split
    · refine own_bind (own_courseById _) fun existing => ?_
      split
      · trivial
      · split
        · trivial
        · exact hremove
    · exact hremove
  · split <;> exact alikeFor_answer _

/-- A route that students may not use. -/
theorem alikeFor_forbidden {authHeader : String} (hheader : v.Carries authHeader)
    {refused answer : α} {handler : User → SqlExcept α}
    (h : ∀ user : User, user.role = .student → handler user = return answer) :
    AlikeFor v now Eq
      (authenticateRequest authHeader >>= fun found =>
        match found with
        | none => return refused
        | some user => handler user)
      (authenticateRequest authHeader >>= fun found =>
        match found with
        | none => return refused
        | some user => handler user) := by
  refine alikeFor_authenticated hheader (alikeFrom_pure rfl) fun user _ hrole => ?_
  rw [h user hrole]
  exact alikeFrom_pure rfl

theorem alikeFor_endpoint {authHeader : String} (hheader : v.Carries authHeader)
    (endpoint : Endpoint) :
    AlikeFor v now Eq (endpoint.handler authHeader) (endpoint.handler authHeader) := by
  cases endpoint with
  | postUsers body | putUser id body =>
    exact alikeFor_forbidden hheader fun user hrole => if_pos (by rw [hrole]; decide)
  | deleteUser id =>
    exact alikeFor_forbidden hheader fun user hrole => if_pos (by rw [hrole]; decide)
  | postCourses body | putCourse id body =>
    exact alikeFor_forbidden hheader fun user hrole => if_pos (by rw [hrole]; decide)
  | deleteCourse id => exact alikeFor_deleteCourse hheader id
  | postRegister courseId => exact alikeFor_postRegister hheader courseId
  | deleteRegister courseId => exact alikeFor_deleteRegister hheader courseId

theorem alikeFor_getCourses {authHeader : String} (hheader : v.Carries authHeader)
    (searchParam : Option String) :
    AlikeFor v now Eq (CourseController.getCourses authHeader searchParam)
      (CourseController.getCourses authHeader searchParam) := by
  refine alikeFor_authenticated hheader (alikeFor_answer _) fun user _ _ => ?_
  dsimp only
  split
  · refine alikeFor_bind (alikeFor_liftM ?_) fun _ => alikeFor_answer _
    exact own_bind (own_select trivial) fun _ => trivial
  · refine alikeFor_bind (alikeFor_liftM ?_) fun _ => alikeFor_answer _
    exact own_bind (own_select trivial) fun _ => trivial

theorem alikeFor_getCourse {authHeader : String} (hheader : v.Carries authHeader) (id : Int) :
    AlikeFor v now Eq (CourseController.getCourse authHeader id)
      (CourseController.getCourse authHeader id) := by
  refine alikeFor_authenticated hheader (alikeFor_answer _) fun user _ _ => ?_
  refine alikeFor_bind (alikeFor_liftM (own_courseById id)) fun found => ?_
  cases found <;> exact alikeFor_answer _

theorem alikeFor_getStudentCourses {authHeader : String} (hheader : v.Carries authHeader)
    (studentId : Int) :
    AlikeFor v now Eq (RegistrationController.getStudentCourses authHeader studentId)
      (RegistrationController.getStudentCourses authHeader studentId) := by
  refine alikeFor_authenticated hheader (alikeFor_answer _) fun user hid hrole => ?_
  by_cases hown : studentId = v.id
  · rw [if_neg fun h => h.2 (hid.trans hown.symm), hown]
    refine alikeFor_bind (alikeFor_liftM ?_) fun _ => alikeFor_bind (alikeFor_liftM ?_)
      fun _ => alikeFor_answer _
    · exact own_bind (own_select rfl) fun _ => trivial
    · exact own_bind (own_select rfl) fun _ => trivial
  · rw [if_pos ⟨hrole, fun h => hown (h.symm.trans hid)⟩]
    exact alikeFor_answer _

theorem alikeFor_getMe {authHeader : String} (hheader : v.Carries authHeader) :
    AlikeFor v now Eq (AuthController.getMe authHeader) (AuthController.getMe authHeader) :=
  alikeFor_authenticated hheader (alikeFor_answer _) fun _ _ _ => alikeFor_answer _

theorem alikeFor_postLogout {authHeader : String} (hheader : v.Carries authHeader) :
    AlikeFor v now Eq (AuthController.postLogout authHeader)
      (AuthController.postLogout authHeader) := by
  have hdelete : Own v (stepWrite (.deleteSession (String.ofList (authHeader.toList.drop 7)))) :=
    own_stepWrite hheader
  unfold AuthController.postLogout
  split
  · refine alikeFor_bind (alikeFor_liftM ?_) fun _ => alikeFor_answer _
    exact own_bind (own_bind hdelete fun _ => trivial) fun _ => trivial
  · exact alikeFor_answer _

/-- A login with the username of the student, or without one. -/
def Viewer.Names (v : Viewer) (body : Option Json) : Prop :=
  ∀ json username, body = some json → json.value "username" "" = .ok username →
    username.isEmpty = false → bindText username = v.username

theorem alikeFor_login {username : String} (hname : bindText username = v.username)
    (password : String) {generated : String} (htoken : v.tokens (bindText generated)) :
    AlikeFor v now Eq (AuthService.login username password generated)
      (AuthService.login username password generated) := by
  refine alikeFrom_bind (alikeFor_userByUsername hname) ?_
  rintro found _ ⟨rfl, hstudent⟩
  cases found with
  | none => exact alikeFrom_pure rfl
  | some user =>
    have hid : user.id = v.id := (hstudent user rfl).1
    dsimp only
    split
    · exact alikeFrom_pure rfl
    split
    · exact alikeFrom_pure rfl
    · have hinsert : Own v (stepWrite (.insertSession generated user.id)) :=
        own_stepWrite ⟨htoken, hid⟩
      refine alikeFor_bind (alikeFor_liftM ?_) fun _ => alikeFrom_pure rfl
      exact own_bind hinsert fun _ => trivial

theorem alikeFor_postLogin {body : Option Json} (hbody : v.Names body) {generated : String}
    (htoken : v.tokens (bindText generated)) :
    AlikeFor v now Eq (AuthController.postLogin body generated)
      (AuthController.postLogin body generated) := by
  refine alikeFrom_catchJson ?_
  cases body with
  | none => exact alikeFrom_mk (.error _)
  | some json =>
    refine alikeFrom_bind (Q := fun body body' => json = body ∧ json = body')
      (alikeFrom_pure ⟨rfl, rfl⟩) ?_
    rintro _ _ ⟨rfl, rfl⟩
    refine alikeFrom_bind (Q := fun username username' => username = username' ∧
      json.value "username" "" = .ok username) (alikeFrom_mk (sameOutcome_self _)) ?_
    rintro username _ ⟨rfl, hvalue⟩
    refine alikeFor_bind (alikeFrom_mk (sameOutcome_eq.mpr rfl)) fun password => ?_
    split
    · exact alikeFor_answer _
    · next hgiven =>
      have hname := hbody json username rfl hvalue (Bool.eq_false_iff.mpr (not_or.mp hgiven).1)
      refine alikeFor_bind (alikeFor_login hname password htoken) fun result => ?_
      split <;> exact alikeFor_answer _

end AlikeFor

/-! ## Runs -/

/-- The student makes the request: with a token of the student, or for a login with the student's
name, where it is answered with a token of the student. -/
def RestRequest.MadeBy (v : Viewer) : RestRequest → Prop
  | postLogin body generated => v.Names body ∧ v.tokens (bindText generated)
  | postLogout authHeader | getMe authHeader | getCourses authHeader _ | getCourse authHeader _
  | getStudentCourses authHeader _ | getFacultyCourses authHeader _
  | getCourseStudents authHeader _ | getUsers authHeader | getStatistics authHeader
  | write authHeader _ => v.Carries authHeader

theorem RestRequest.alikeFor {v : Viewer} {now : Int} {request : RestRequest}
    (h : request.MadeBy v) : AlikeFrom (Conn.execRest now) (Conn.execRest now) (SameViewOn v) Eq
      request.handler request.handler := by
  cases request with
  | postLogin body generated => exact alikeFrom_rest (alikeFor_postLogin h.1 h.2)
  | postLogout authHeader => exact alikeFrom_rest (alikeFor_postLogout h)
  | getMe authHeader => exact alikeFrom_rest (alikeFor_getMe h)
  | getCourses authHeader searchParam => exact alikeFrom_rest (alikeFor_getCourses h searchParam)
  | getCourse authHeader id => exact alikeFrom_rest (alikeFor_getCourse h id)
  | getStudentCourses authHeader studentId =>
    exact alikeFrom_rest (alikeFor_getStudentCourses h studentId)
  | getFacultyCourses authHeader facultyId =>
    exact alikeFrom_rest (alikeFor_forbidden h fun user hrole => if_pos hrole)
  | getCourseStudents authHeader courseId =>
    exact alikeFrom_rest (alikeFor_forbidden h fun user hrole => if_pos hrole)
  | getUsers authHeader =>
    refine alikeFrom_bind (alikeFrom_viaSql (alikeFor_authenticateRequest h)) ?_
    rintro found _ ⟨rfl, hstudent⟩
    cases found with
    | none => exact alikeFrom_pure rfl
    | some user =>
      have hrole : user.role ≠ .admin := by
        rw [(hstudent user rfl).2]
        decide
      dsimp only
      rw [if_pos hrole]
      exact alikeFrom_pure rfl
  | getStatistics authHeader =>
    exact alikeFrom_viaSql (alikeFor_forbidden h fun user hrole => if_pos (by rw [hrole]; decide))
  | write authHeader endpoint => exact alikeFrom_rest (alikeFor_endpoint h endpoint)

/-- The answers to all requests of a student are the same on two databases with the same courses
and names of their owners, the same number of seats that others have taken in each course, and
the same account, registrations and sessions of the student. -/
theorem answers_of_sameView (v : Viewer) (requests : List (RestRequest × Int))
    (hrequests : ∀ r ∈ requests, r.1.MadeBy v) {conn conn' : Conn} (h : SameViewOn v conn conn') :
    answers requests conn = answers requests conn' := by
  induction requests generalizing conn conn' with
  | nil => rfl
  | cons first requests ih =>
    have hfirst : AlikeFrom (Conn.execRest first.2) (Conn.execRest first.2) (SameViewOn v) Eq
        first.1.handler first.1.handler :=
      RestRequest.alikeFor (hrequests first List.mem_cons_self)
    obtain ⟨hanswer, hstates⟩ := hfirst conn conn' h
    have hrest := ih (fun r hr => hrequests r (List.mem_cons_of_mem first hr)) hstates
    exact congrArg₂ List.cons (sameOutcome_eq.mp hanswer) hrest

/-- One of two other students is registered for the only course. -/
def Conn.withRival (rival : Int) : Conn :=
  { db := {
      users := [⟨1, "ann", "5f4d", "student", "Ann", "", 1⟩,
        ⟨2, "bob", "", "student", "Bob", "", 1⟩, ⟨3, "eve", "", "student", "Eve", "", 1⟩]
      courses := [⟨1, "CS1", "Logic", 3, none, 2, ""⟩]
      registrations := [⟨1, rival, 1, "active"⟩]
      sessions := [⟨1, "a11ce", 1, some 86400⟩]
      registrationSeq := 1 } }

/-- Ann, with the token `a11ce` and those of her later logins. -/
def ann : Viewer := ⟨1, "ann", fun token => token = "a11ce" ∨ token = "b0b"⟩

/-- Ann registers, asks who else does, and logs out. -/
def annsRequests : List (RestRequest × Int) :=
  [(.getCourses "Bearer a11ce" none, 0), (.write "Bearer a11ce" (.postRegister 1), 1),
    (.getStudentCourses "Bearer a11ce" 1, 2), (.getStudentCourses "Bearer a11ce" 2, 3),
    (.getCourseStudents "Bearer a11ce" 1, 4), (.postLogout "Bearer a11ce", 5)]

theorem annsRequests_of_sameView :
    answers annsRequests (.withRival 2) = answers annsRequests (.withRival 3) := by
  have hfits : ∀ rival : Int, (Conn.withRival rival).db.Fits ann := by
    intro rival
    constructor <;> simp [Conn.withRival, ann]
  refine answers_of_sameView ann annsRequests (fun r hr => ?_)
    ⟨⟨hfits 2, hfits 3, rfl, fun _ _ => rfl, rfl, rfl, fun c => rfl, rfl, rfl⟩, .none, rfl⟩
  have htoken : ann.Carries "Bearer a11ce" := Or.inl (by decide +kernel)
  simp only [annsRequests, List.mem_cons, List.not_mem_nil, or_false] at hr
  obtain rfl | rfl | rfl | rfl | rfl | rfl := hr <;> exact htoken

end AcademiaCr.Backend
