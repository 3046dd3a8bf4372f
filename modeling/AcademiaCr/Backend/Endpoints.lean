import AcademiaCr.Backend.Authorisation

/-!
# The state-changing endpoints

What a request to each of the eight writing routes can do when no other request overlaps
it: it is refused without effect, or it succeeds and writes, or, for the update of a user
alone, it writes and then fails.

## Main definitions

- `Endpoint`: the writing routes, `Endpoint.handler`: what they execute
- `Endpoint.Effect`: the tables after a request that succeeds
- `Endpoint.FailsHalfway`: the update of a user whose password field is ill-typed
- `Conn.endpoint_cases`: the outcomes
-/

namespace AcademiaCr.Backend

open Resumption

/-- The writing routes of the REST interface, apart from the session routes. -/
inductive Endpoint where
  | postUsers (body : Option Json)
  | putUser (id : Int) (body : Option Json)
  | deleteUser (id : Int)
  | postCourses (body : Option Json)
  | putCourse (id : Int) (body : Option Json)
  | deleteCourse (id : Int)
  | postRegister (courseId : Int)
  | deleteRegister (courseId : Int)

def Endpoint.handler (authHeader : String) : Endpoint → Handler
  | postUsers body => AdminController.postUsers authHeader body
  | putUser id body => AdminController.putUser authHeader id body
  | deleteUser id => AdminController.deleteUser authHeader id
  | postCourses body => CourseController.postCourses authHeader body
  | putCourse id body => CourseController.putCourse authHeader id body
  | deleteCourse id => CourseController.deleteCourse authHeader id
  | postRegister courseId => RegistrationController.postRegister authHeader courseId
  | deleteRegister courseId => RegistrationController.deleteRegister authHeader courseId

/-- The connection after a request, and its answer or the exception that left the handler. -/
def Endpoint.run (now : Int) (authHeader : String) (request : Endpoint) (conn : Conn) :
    Except Exn HttpResponse × Conn :=
  conn.runExcept now (request.handler authHeader)

/-! ## Users as rows -/

/-- The fields that the update of a user takes from the body, else from the stored row. -/
structure UserFields (row : UserRow) (body : Json) (name email : String) (active : Bool) :
    Prop where
  name : body.field "name" Json.getString row.name = .ok name
  email : body.field "email" Json.getString row.email = .ok email
  active : body.field "active" Json.getBool (row.active ≠ 0) = .ok active

/-- A flag as the column stores it. -/
def flag (active : Bool) : Int := if active then 1 else 0

/-- The insertion that `create` asks for. -/
def Db.insertGivenUser (db : Db) (u : User) : Option Applied :=
  db.insertUser u.username u.passwordHash (roleToString u.role) u.name u.email (flag u.active)

/-- The row after `UPDATE users SET name = ?, email = ?, active = ?`. -/
def UserRow.rewrite (row : UserRow) (name email : String) (active : Bool) : UserRow :=
  { row with name := bindText name, email := bindText email, active := flag active }

/-- The tables after that statement. -/
def Db.rewriteUser (db : Db) (name email : String) (active : Bool) (id : Int) : Db :=
  { db with users := Table.update (fun u => u.id = id) (·.rewrite name email active) db.users }

/-- The tables after the second statement of the update of a user. -/
def Db.withPassword (now : Int) (db : Db) (password : String) (id : Int) : Db :=
  if password.isEmpty then db
  else (Write.updatePassword (hashPassword password) id).effect now db

theorem Db.Valid.withPassword {now : Int} {db : Db} (h : db.Valid) {password : String} {id : Int} :
    (db.withPassword now password id).Valid := by
  rw [Db.withPassword]
  split
  · exact h
  · exact Write.effect_valid h _

namespace Endpoint

/-- The tables after a request of `user` that succeeds. -/
def Effect (now : Int) (user : User) (db db' : Db) : Endpoint → Prop
  | postUsers _ => user.role = .admin ∧ ∃ u : User, ∃ applied,
      db.insertGivenUser u = some applied ∧ db' = applied.db
  | putUser id body => user.role = .admin ∧ ∃ json row name email active password,
      body = some json ∧ db.findUser id = some row ∧ UserFields row json name email active ∧
      json.field "password" Json.getString "" = .ok password ∧
      db' = (db.rewriteUser name email active id).withPassword now
        password id
  | deleteUser id => user.role = .admin ∧ user.id ≠ id ∧
      db' = (Write.deleteUser id).effect now db
  | postCourses body => (user.role = .faculty ∨ user.role = .admin) ∧ ∃ json course,
      body = some json ∧ Course.fromJson json = .ok course ∧
      Creatable db (ownedBy user course) user ∧
      ∃ applied, db.insertGiven (ownedBy user course) = some applied ∧ db' = applied.db
  | putCourse id body => (user.role = .faculty ∨ user.role = .admin) ∧ ∃ json course,
      body = some json ∧ Course.fromJson json = .ok course ∧
      Updatable db { course with id } user ∧
      db' = (updateGiven { course with id }).effect now db
  | deleteCourse id => db' = (Write.deleteCourse id).effect now db
  | postRegister c => user.role = .student ∧ db' = (db.register user.id c).2
  | deleteRegister c => user.role = .student ∧ db' = (db.drop user.id c).2

/-- An update of a user whose row is rewritten before the type of the password is looked
at. -/
def FailsHalfway (db : Db) : Endpoint → Prop
  | putUser id body => ∃ json row name email active e,
      body = some json ∧ db.findUser id = some row ∧ UserFields row json name email active ∧
      json.field "password" Json.getString "" = .error e ∧ row.rewrite name email active ≠ row
  | _ => False

end Endpoint

/-! ## Users in tables that satisfy the constraints -/

/-- A stored role is one that `string_to_role` knows. -/
theorem rowToUser_of_valid {db : Db} (hv : db.Valid) {row : UserRow} (h : row ∈ db.users) :
    ∃ user, rowToUser row = .ok user ∧ user.id = row.id ∧ user.name = row.name ∧
      user.email = row.email ∧ user.active = (decide (row.active ≠ 0)) := by
  have hrole : ∃ role, stringToRole row.role = .ok role := by
    have := hv.role row h
    simp only [List.mem_cons, List.not_mem_nil, or_false] at this
    rcases this with h | h | h <;> rw [h] <;> exact ⟨_, rfl⟩
  obtain ⟨role, hrole⟩ := hrole
  simp only [rowToUser, hrole]
  exact ⟨_, rfl, rfl, rfl, rfl, rfl⟩

namespace Conn

variable {now : Int} {conn : Conn} {authHeader : String} {user : User}

/-- Looking a user up does not throw, and finds the row with the id. -/
theorem runExcept_findUser (hv : conn.db.Valid) (id : Int) :
    (conn.db.findUser id = none ∧
      conn.runExcept now (UserRepository.findById id) = (.ok none, conn)) ∨
    ∃ row user, conn.db.findUser id = some row ∧ rowToUser row = .ok user ∧
      conn.runExcept now (UserRepository.findById id) = (.ok (some user), conn) := by
  simp only [UserRepository.findById, runExcept_bind, runExcept_liftM, run_select, Query.eval]
  cases hrow : conn.db.findUser id with
  | none => exact Or.inl ⟨rfl, rfl⟩
  | some row =>
    obtain ⟨user, huser, -⟩ := rowToUser_of_valid hv (List.mem_of_find?_eq_some hrow)
    refine Or.inr ⟨row, user, rfl, huser, ?_⟩
    simp only [UserRepository.ofRow, UserRepository.ofRow.liftExcept, huser]
    rfl

/-- Looking a user up for the answer neither throws nor changes anything. -/
theorem runExcept_userAnswer (hv : conn.db.Valid) (id : Int)
    (respond : Option User → HttpResponse) : ∃ found,
    conn.runExcept now (do
      let found ← UserRepository.findById id
      return respond found : Handler) = (.ok (respond found), conn) := by
  obtain ⟨-, h⟩ | ⟨row, user, -, -, h⟩ := @runExcept_findUser now _ hv id
  · exact ⟨none, by simp [h]⟩
  · exact ⟨some user, by simp [h]⟩

/-! ## Middleware -/

/-- The common shape of the handlers: authenticate, refuse or go on. -/
def guarded (authHeader : String) (refusal : HttpResponse) (route : User → Handler) : Handler := do
  match ← authenticateRequest authHeader with
  | none => return refusal
  | some user => route user

/-- A request without a valid token is refused, any other goes on as its user. -/
theorem runExcept_guarded (now : Int) (authHeader : String) {refusal : HttpResponse}
    (hrefusal : 400 ≤ refusal.status) (route : User → Handler) (conn : Conn) :
    (Failed (conn.runExcept now (guarded authHeader refusal route)).1 ∧
      (conn.runExcept now (guarded authHeader refusal route)).2 = conn ∧
      ∀ user, ¬ Authenticates now conn authHeader user) ∨
    ∃ user, Authenticates now conn authHeader user ∧
      conn.runExcept now (guarded authHeader refusal route) = conn.runExcept now (route user) := by
  have hconn : (conn.runExcept now (authenticateRequest authHeader)).2 = conn :=
    conn.run_readOnly (within_authenticateRequest authHeader)
  simp only [guarded, runExcept_bind, Authenticates]
  rcases h : conn.runExcept now (authenticateRequest authHeader) with ⟨out, conn'⟩
  rw [h] at hconn
  cases hconn
  obtain e | _ | user := out
  · exact Or.inl ⟨trivial, rfl, by simp⟩
  · exact Or.inl ⟨hrefusal, rfl, by simp⟩
  · exact Or.inr ⟨user, rfl, rfl⟩

@[simp] theorem runExcept_fromJson {α : Type} (read : Json → Except Exn α) (body : Json)
    (conn : Conn) : conn.runExcept now (fromJson read body) = (read body, conn) := rfl

/-! ## Refusals and throws -/

/-- A program that fails without effect. -/
def FailsIdle (now : Int) (handler : Handler) (conn : Conn) : Prop :=
  Failed (conn.runExcept now handler).1 ∧ (conn.runExcept now handler).2.db = conn.db

theorem failsIdle_throw (e : Exn) : FailsIdle now (throw e) conn := ⟨trivial, rfl⟩

/-- A handler that catches the exceptions of the library turns a failure into a failure. -/
theorem FailsIdle.catchJson {handler : Handler} (h : FailsIdle now handler conn) :
    FailsIdle now (catchJson handler) conn := by
  simp only [FailsIdle, Backend.catchJson, runExcept_tryCatch] at h ⊢
  rcases hrun : conn.runExcept now handler with ⟨e | response, conn'⟩
  · rw [hrun] at h
    cases e with
    | json => exact ⟨Int.le_refl 400, h.2⟩
    | std what => exact ⟨trivial, h.2⟩
  · rw [hrun] at h
    exact h

theorem runExcept_catchJson_ok {handler : Handler} {response : HttpResponse} {conn' : Conn}
    (h : conn.runExcept now handler = (.ok response, conn')) :
    conn.runExcept now (Backend.catchJson handler) = (.ok response, conn') := by
  rw [Backend.catchJson, runExcept_tryCatch, h]

/-! ## Updating a user -/

/-- An update that writes the fields already stored changes nothing. -/
theorem rewriteUser_eq_self {db : Db} (hv : db.Valid) {id : Int} {row : UserRow}
    (hrow : db.findUser id = some row) {name email : String} {active : Bool}
    (h : row.rewrite name email active = row) :
    db.rewriteUser name email active id = db := by
  have hmem := List.mem_of_find?_eq_some hrow
  have hid : row.id = id := by simpa using List.find?_some hrow
  have husers : Table.update (fun u => decide (u.id = id))
      (fun u => u.rewrite name email active) db.users = db.users := by
    refine Table.update_eq_self fun u hu hp => ?_
    have hu' : u = row := Table.eq_of_key_eq hv.userIds hu hmem
      ((by simpa using hp : u.id = id).trans hid.symm)
    rw [hu', h]
  rw [Db.rewriteUser, husers]

/-- The update of a user once the requester and the body are checked. -/
def updateStored (id : Int) (body : Json) : Handler := do
  match ← UserRepository.findById id with
  | none => return errorResponse "User not found" 404
  | some existing =>
    let name ← fromJson (fun b => b.field "name" Json.getString existing.name) body
    let email ← fromJson (fun b => b.field "email" Json.getString existing.email) body
    let active ← fromJson (fun b => b.field "active" Json.getBool existing.active) body
    let _ ← UserRepository.update { existing with name, email, active }
    AdminController.changePassword id body
    let updated ← UserRepository.findById id
    return successResponse 200 (updated.map User.toJson) "User updated"

/-- The update of a user behind the check for an administrator. -/
def putUserRoute (id : Int) (body : Option Json) : Handler := catchJson do
  updateStored id (← parseBody body)

theorem runExcept_putUser (hauth : Authenticates now conn authHeader user)
    (hrole : user.role = .admin) (id : Int) (body : Option Json) :
    conn.runExcept now (AdminController.putUser authHeader id body) =
      conn.runExcept now (putUserRoute id body) := by
  simp only [AdminController.putUser, runExcept_bind, hauth.run, hrole, ne_eq, not_true,
    if_false]
  rfl

/-- Changing the password reads the field and writes at most once. -/
theorem runExcept_changePassword (id : Int) (body : Json) (conn : Conn) :
    (∃ e, body.field "password" Json.getString "" = .error e ∧
      conn.runExcept now (AdminController.changePassword id body) = (.error e, conn)) ∨
    ∃ password conn', body.field "password" Json.getString "" = .ok password ∧
      conn.runExcept now (AdminController.changePassword id body) = (.ok (), conn') ∧
      conn'.db = conn.db.withPassword now password id := by
  simp only [AdminController.changePassword, runExcept_bind, runExcept_fromJson]
  cases hp : body.field "password" Json.getString "" with
  | error e => exact Or.inl ⟨e, rfl, rfl⟩
  | ok password =>
    refine Or.inr ⟨password, ?_⟩
    by_cases hempty : password.isEmpty = true
    · exact ⟨conn, rfl, by simp [hempty], by simp [Db.withPassword, hempty]⟩
    · refine ⟨(conn.write now (.updatePassword (hashPassword password) id)).2, rfl, ?_, ?_⟩
      · simp [hempty, UserRepository.updatePassword]
      · simp [Db.withPassword, hempty, write_db]

/-- Where the fields are well-typed the row is rewritten before the password is read. -/
theorem runExcept_updateStored (now : Int) (hv : conn.db.Valid) {id : Int} {row : UserRow}
    {body : Json} {name email : String} {active : Bool} (hrow : conn.db.findUser id = some row)
    (hf : UserFields row body name email active) :
    conn.runExcept now (updateStored id body) =
      (conn.write now (.updateUser name email (flag active) id)).2.runExcept now (do
        AdminController.changePassword id body
        let updated ← UserRepository.findById id
        return successResponse 200 (updated.map User.toJson) "User updated" : Handler) := by
  obtain ⟨hnone, -⟩ | ⟨row', found, hrow', hfound, hfind⟩ := @runExcept_findUser now _ hv id
  · rw [hrow] at hnone; cases hnone
  rw [hrow] at hrow'
  cases hrow'
  obtain ⟨u, hu, hid, hname, hemail, hactive⟩ :=
    rowToUser_of_valid hv (List.mem_of_find?_eq_some hrow)
  rw [hfound] at hu
  cases hu
  have hid' : found.id = id := hid.trans (by simpa using List.find?_some hrow)
  simp only [updateStored, runExcept_bind, hfind, runExcept_fromJson, hname, hemail, hactive,
    hf.name, hf.email, hf.active, runExcept_liftM, UserRepository.update, run_stepWrite, hid']
  rfl

/-- The update of a stored user fails without effect, or rewrites the row and then reads the
password. -/
theorem updateStored_cases (hv : conn.db.Valid) (id : Int) (body : Json) :
    FailsIdle now (updateStored id body) conn ∨
    ∃ row name email active, conn.db.findUser id = some row ∧
      UserFields row body name email active ∧
      ((∃ e conn', body.field "password" Json.getString "" = .error e ∧
          conn.runExcept now (updateStored id body) = (.error e, conn') ∧
          conn'.db = conn.db.rewriteUser name email active id) ∨
        ∃ password response conn', body.field "password" Json.getString "" = .ok password ∧
          conn.runExcept now (updateStored id body) = (.ok response, conn') ∧
          response.status = 200 ∧
          conn'.db = (conn.db.rewriteUser name email active id).withPassword now password id) := by
  obtain ⟨-, hfind⟩ | ⟨row, found, hrow, hfound, hfind⟩ := @runExcept_findUser now _ hv id
  · exact Or.inl (by simp [FailsIdle, updateStored, hfind, Failed, errorResponse])
  obtain ⟨u, hu, hid, hname, hemail, hactive⟩ :=
    rowToUser_of_valid hv (List.mem_of_find?_eq_some hrow)
  rw [hfound] at hu
  cases hu
  -- each field is read before anything is written
  cases hn : body.field "name" Json.getString found.name with
  | error e => exact Or.inl (by simp [FailsIdle, updateStored, hfind, hn, Failed])
  | ok name =>
  cases he : body.field "email" Json.getString found.email with
  | error e => exact Or.inl (by simp [FailsIdle, updateStored, hfind, hn, he, Failed])
  | ok email =>
  cases ha : body.field "active" Json.getBool found.active with
  | error e => exact Or.inl (by simp [FailsIdle, updateStored, hfind, hn, he, ha, Failed])
  | ok active =>
  have hf : UserFields row body name email active :=
    ⟨hname ▸ hn, hemail ▸ he, hactive ▸ ha⟩
  refine Or.inr ⟨row, name, email, active, hrow, hf, ?_⟩
  have hrun := runExcept_updateStored now hv hrow hf
  have hwritten : (conn.write now (.updateUser name email (flag active) id)).2.db =
      conn.db.rewriteUser name email active id := write_db now _ conn
  generalize (conn.write now (.updateUser name email (flag active) id)).2 = written at hrun hwritten
  rcases @runExcept_changePassword now id body written with
    ⟨e, hp, hpass⟩ | ⟨password, conn', hp, hpass, hdb⟩
  · refine Or.inl ⟨e, written, hp, ?_, hwritten⟩
    rw [hrun, runExcept_bind, hpass]
  · have hv' : conn'.db.Valid := by
      rw [hdb, hwritten]
      exact (@Write.effect_valid now _ hv (.updateUser name email (flag active) id)).withPassword
    obtain ⟨found, hanswer⟩ := @runExcept_userAnswer now _ hv' id
      fun updated => successResponse 200 (updated.map User.toJson) "User updated"
    refine Or.inr ⟨password, successResponse 200 (found.map User.toJson) "User updated", conn', hp,
      ?_, rfl, by rw [hdb, hwritten]⟩
    rw [hrun, runExcept_bind, hpass]
    exact hanswer

/-- An exception of the update reaches the client as a failure, the tables stay written. -/
theorem putUserRoute_of_throw {id : Int} {body : Json} {e : Exn} {conn' : Conn}
    (h : conn.runExcept now (updateStored id body) = (.error e, conn')) :
    Failed (conn.runExcept now (putUserRoute id (some body))).1 ∧
      (conn.runExcept now (putUserRoute id (some body))).2 = conn' := by
  have hinner : conn.runExcept now (do updateStored id (← parseBody (some body))) =
      (.error e, conn') := h
  rw [putUserRoute, catchJson, runExcept_tryCatch, hinner]
  cases e with
  | json => exact ⟨Int.le_refl 400, rfl⟩
  | std what => exact ⟨trivial, rfl⟩

end Conn

/-! ## Registrations -/

namespace Db

/-- A registration that fails changes nothing. -/
theorem register_of_failed {db : Db} {s c : Int} (h : (db.register s c).1.success = false) :
    (db.register s c).2 = db := by
  unfold register at h ⊢
  split
  · rfl
  split
  · rfl
  split
  · rfl
  split
  · rfl
  · simp_all

theorem drop_of_failed {db : Db} {s c : Int} (h : (db.drop s c).1.success = false) :
    (db.drop s c).2 = db := by
  unfold drop at h ⊢
  split
  · next he =>
    rw [if_pos he] at h
    dsimp only at h
    split at h <;> simp at h
  · rfl

/-- The tables with other registrations. -/
def OnlyRegistrations (db db' : Db) : Prop :=
  ∃ rows seq, db' = { db with registrations := rows, registrationSeq := seq }

theorem OnlyRegistrations.refl (db : Db) : OnlyRegistrations db db := ⟨_, _, rfl⟩

/-- A registration writes registrations only. -/
theorem register_onlyRegistrations (db : Db) (s c : Int) :
    OnlyRegistrations db (db.register s c).2 := by
  unfold register
  split
  · exact .refl db
  split
  · exact .refl db
  split
  · exact .refl db
  split
  · exact .refl db
  next id db' ha =>
  simp only [activate] at ha
  split at ha
  · cases ha
    exact ⟨_, db.registrationSeq, rfl⟩
  · obtain ⟨applied, hi, hout⟩ := Option.map_eq_some_iff.mp ha
    obtain ⟨-, -, -, key, -, -, hdb⟩ := insertRegistration_eq_some hi
    cases hout
    exact ⟨_, _, hdb⟩

theorem drop_onlyRegistrations (db : Db) (s c : Int) : OnlyRegistrations db (db.drop s c).2 := by
  unfold drop
  split
  · dsimp only
    split <;> exact ⟨_, db.registrationSeq, rfl⟩
  · exact .refl db

end Db

/-! ## The outcomes -/

/-- A request that succeeds has the effect it is for, on behalf of its user. -/
def Endpoint.Succeeds (now : Int) (authHeader : String) (request : Endpoint) (conn : Conn) : Prop :=
  ∃ user, Authenticates now conn authHeader user ∧
    ¬ Failed (request.run now authHeader conn).1 ∧
    request.Effect now user conn.db (request.run now authHeader conn).2.db

/-- A request that fails leaves the tables as they were. -/
def Endpoint.Refused (now : Int) (authHeader : String) (request : Endpoint) (conn : Conn) : Prop :=
  Conn.FailsIdle now (request.handler authHeader) conn

namespace Endpoint

variable {now : Int} {conn : Conn} {authHeader : String}

/-- A handler refuses without a valid token, and otherwise does what its route does. -/
theorem cases_of_guarded {request : Endpoint} (refusal : HttpResponse) (route : User → Handler)
    (hhandler : request.handler authHeader = Conn.guarded authHeader refusal route)
    (hrefusal : 400 ≤ refusal.status) {P : Prop}
    (hroute : ∀ user, Authenticates now conn authHeader user →
      request.run now authHeader conn = conn.runExcept now (route user) → P)
    (hrefused : request.Refused now authHeader conn → P) : P := by
  rcases Conn.runExcept_guarded now authHeader hrefusal route conn with
    ⟨hf, hconn, -⟩ | ⟨user, hauth, hrun⟩
  · refine hrefused ?_
    rw [Refused, hhandler]
    exact ⟨hf, congrArg Conn.db hconn⟩
  · exact hroute user hauth (by rw [Endpoint.run, hhandler, hrun])

/-- A route that refuses the user without effect. -/
theorem refused_of_run {request : Endpoint} {handler : Handler}
    (hrun : request.run now authHeader conn = conn.runExcept now handler)
    (h : Conn.FailsIdle now handler conn) : request.Refused now authHeader conn := by
  rw [Refused, Conn.FailsIdle, ← Endpoint.run, hrun]
  exact h

theorem deleteUser_cases (id : Int) :
    (deleteUser id).Refused now authHeader conn ∨ (deleteUser id).Succeeds now authHeader conn := by
  refine cases_of_guarded (errorResponse "Admin access required" 403) _ rfl (by decide)
    (fun user hauth hrun => ?_) Or.inl
  by_cases hrole : user.role = .admin
  · by_cases hself : user.id = id
    · exact Or.inl (refused_of_run hrun (by simp [Conn.FailsIdle, hrole, hself, Failed,
        errorResponse]))
    · right
      refine ⟨user, hauth, ?_, hrole, hself, ?_⟩ <;> rw [hrun] <;>
        simp [hrole, hself, Failed, successResponse, UserRepository.remove, Conn.write_db]
  · exact Or.inl (refused_of_run hrun (by simp [Conn.FailsIdle, hrole, Failed, errorResponse]))

theorem deleteCourse_cases (id : Int) :
    (deleteCourse id).Refused now authHeader conn ∨
      (deleteCourse id).Succeeds now authHeader conn := by
  refine cases_of_guarded (errorResponse "Not authenticated" 401) _ rfl (by decide)
    (fun user hauth _ => ?_) Or.inl
  have hrun := runExcept_deleteCourse hauth id
  obtain ⟨hno, hconn, -⟩ | ⟨hok, hconn, -⟩ := Conn.run_deleteCourse now id user conn
  · left
    rw [Refused, Conn.FailsIdle, handler, hrun, hno, hconn]
    exact ⟨Int.le_refl 400, rfl⟩
  · right
    refine ⟨user, hauth, ?_, ?_⟩ <;> rw [Endpoint.run, handler, hrun]
    · simp [hok, Failed, successResponse]
    · rw [hconn, Conn.write_db]
      rfl

/-! ### Registrations -/

theorem failureStatus_ge (error : String) : 400 ≤ RegistrationController.failureStatus error := by
  unfold RegistrationController.failureStatus
  split
  · decide
  split
  · decide
  split <;> decide

theorem postRegister_cases (hs : conn.saved = none) (c : Int) :
    (postRegister c).Refused now authHeader conn ∨
      (postRegister c).Succeeds now authHeader conn := by
  refine cases_of_guarded (errorResponse "Not authenticated" 401) _ rfl (by decide)
    (fun user hauth hrun => ?_) Or.inl
  by_cases hrole : user.role = .student
  · have hreg := Conn.run_registerStudent now user.id c hs
    obtain ⟨hres, hdb⟩ := Prod.ext_iff.mp hreg
    cases hsucc : (conn.db.register user.id c).1.success with
    | false =>
      left
      refine refused_of_run hrun ?_
      simp only at hres hdb
      simp [Conn.FailsIdle, hrole, hres, hdb, hsucc, Failed, errorResponse, failureStatus_ge,
        Db.register_of_failed hsucc]
    | true =>
      right
      simp only at hres hdb
      refine ⟨user, hauth, ?_, hrole, ?_⟩ <;> rw [hrun] <;>
        simp [hrole, hres, hdb, hsucc, Failed, successResponse]
  · exact Or.inl (refused_of_run hrun (by simp [Conn.FailsIdle, hrole, Failed, errorResponse]))

theorem deleteRegister_cases (hs : conn.saved = none) (c : Int) :
    (deleteRegister c).Refused now authHeader conn ∨
      (deleteRegister c).Succeeds now authHeader conn := by
  refine cases_of_guarded (errorResponse "Not authenticated" 401) _ rfl (by decide)
    (fun user hauth hrun => ?_) Or.inl
  by_cases hrole : user.role = .student
  · have hdrop := Conn.run_dropStudent now user.id c hs
    obtain ⟨hres, hdb⟩ := Prod.ext_iff.mp hdrop
    cases hsucc : (conn.db.drop user.id c).1.success with
    | false =>
      left
      refine refused_of_run hrun ?_
      simp only at hres hdb
      simp [Conn.FailsIdle, hrole, hres, hdb, hsucc, Failed, errorResponse, Db.drop_of_failed hsucc]
    | true =>
      right
      simp only at hres hdb
      refine ⟨user, hauth, ?_, hrole, ?_⟩ <;> rw [hrun] <;>
        simp [hrole, hres, hdb, hsucc, Failed, successResponse]
  · exact Or.inl (refused_of_run hrun (by simp [Conn.FailsIdle, hrole, Failed, errorResponse]))

/-! ### Courses -/

/-- A route that reads a course fails without effect on a bad body, else it does what the
service does and answers as the service does. -/
theorem courseRoute_cases (service : Course → Sql CourseResult) {answer : CourseResult → Handler}
    (hanswer : ∀ result, ∀ conn : Conn, ∃ response : HttpResponse, response.status < 400 ∧
      conn.runExcept now (answer result) = (.ok response, conn)) (body : Option Json)
    (hidle : ∀ course, (conn.run now (service course)).1.success = false →
      (conn.run now (service course)).2.db = conn.db) :
    Conn.FailsIdle now (courseRoute service answer body) conn ∨
      ∃ json course, body = some json ∧ Course.fromJson json = .ok course ∧
        (conn.run now (service course)).1.success = true ∧
        ¬ Failed (conn.runExcept now (courseRoute service answer body)).1 ∧
        (conn.runExcept now (courseRoute service answer body)).2 =
          (conn.run now (service course)).2 := by
  cases body with
  | none => exact Or.inl (Conn.FailsIdle.catchJson (Conn.failsIdle_throw _))
  | some json =>
    cases hcourse : Course.fromJson json with
    | error e =>
      exact Or.inl (Conn.FailsIdle.catchJson (by simp [Conn.FailsIdle, parseBody, hcourse, Failed]))
    | ok course =>
      cases hsucc : (conn.run now (service course)).1.success with
      | false =>
        refine Or.inl (Conn.FailsIdle.catchJson ?_)
        simp [Conn.FailsIdle, parseBody, hcourse, hsucc, Failed, errorResponse, hidle course hsucc]
      | true =>
        obtain ⟨response, hstatus, hr⟩ := hanswer (conn.run now (service course)).1
          (conn.run now (service course)).2
        have hrun : conn.runExcept now (courseRoute service answer (some json)) =
            (.ok response, (conn.run now (service course)).2) :=
          Conn.runExcept_catchJson_ok (by simp [parseBody, hcourse, hsucc, hr])
        refine Or.inr ⟨json, course, rfl, hcourse, hsucc, ?_, by rw [hrun]⟩
        rw [hrun]
        simp only [Failed]
        omega

/-- On a readable body such a route leaves what the service leaves. -/
theorem courseRoute_conn (service : Course → Sql CourseResult) {answer : CourseResult → Handler}
    (hanswer : ∀ result, ∀ conn : Conn, ∃ response : HttpResponse, response.status < 400 ∧
      conn.runExcept now (answer result) = (.ok response, conn)) {json : Json} {course : Course}
    (hcourse : Course.fromJson json = .ok course) :
    (conn.runExcept now (courseRoute service answer (some json))).2 =
      (conn.run now (service course)).2 := by
  simp only [courseRoute, catchJson, parseBody, Conn.runExcept_tryCatch, Conn.runExcept_bind,
    Conn.runExcept_pure, Conn.runExcept_fromJson, hcourse, Conn.runExcept_liftM]
  cases hsucc : (conn.run now (service course)).1.success with
  | false => simp
  | true =>
    obtain ⟨response, -, hr⟩ := hanswer (conn.run now (service course)).1
      (conn.run now (service course)).2
    simp [hr]

theorem courseAnswer_ok (id : Int) {status : Int} (h : status < 400) (message : String)
    (conn : Conn) : ∃ response : HttpResponse, response.status < 400 ∧
      conn.runExcept now (do
        let course ← (CourseRepository.findById id : Sql (Option Course))
        return successResponse status (course.map Course.toJson) message : Handler) =
        (.ok response, conn) := by
  refine ⟨successResponse status (((conn.db.findCourse id).map fun row =>
    rowToCourse (conn.db.join row)).map Course.toJson) message, h, ?_⟩
  simp

theorem postCourses_cases (body : Option Json) :
    (postCourses body).Refused now authHeader conn ∨
      (postCourses body).Succeeds now authHeader conn := by
  refine cases_of_guarded (errorResponse "Not authenticated" 401) _ rfl (by decide)
    (fun user hauth hrun => ?_) Or.inl
  by_cases hrole : user.role ≠ .faculty ∧ user.role ≠ .admin
  · exact Or.inl (refused_of_run hrun (by simp [Conn.FailsIdle, hrole, Failed, errorResponse]))
  have hrun := runExcept_postCourses hauth hrole body
  rcases courseRoute_cases (fun course =>
      CourseService.createCourse (ownedBy user course) user)
      (fun result =>
        courseAnswer_ok result.courseId (by decide : (201 : Int) < 400) "Course created") body
      (fun course hno => by
        rcases Conn.createCourse_cases now (ownedBy user course) user conn with
          ⟨-, -, hdb⟩ | ⟨-, _, -, hres, -⟩
        · exact hdb
        · rw [hres] at hno; cases hno) with
    hidle | ⟨json, course, hbody, hcourse, hsucc, hok, hconn⟩
  · exact Or.inl (refused_of_run hrun hidle)
  · right
    rcases Conn.createCourse_cases now (ownedBy user course) user conn with
      ⟨-, hno, -⟩ | ⟨hcreatable, applied, ha, -, hdb⟩
    · rw [hno] at hsucc; cases hsucc
    · rw [← hrun] at hok hconn
      refine ⟨user, hauth, hok, by tauto, json, course, hbody, hcourse, hcreatable, applied, ha, ?_⟩
      rw [← hdb, ← hconn]
      rfl

/-- What `POST /api/courses` leaves when it reads a course. -/
theorem postCourses_conn {user : User} (hauth : Authenticates now conn authHeader user)
    (hrole : user.role = .faculty ∨ user.role = .admin) {json : Json} {course : Course}
    (hcourse : Course.fromJson json = .ok course) :
    ((postCourses (some json)).run now authHeader conn).2 =
      (conn.run now (CourseService.createCourse (ownedBy user course) user)).2 := by
  rw [Endpoint.run, handler, runExcept_postCourses hauth (by tauto) (some json)]
  exact courseRoute_conn (fun course =>
    CourseService.createCourse (ownedBy user course) user)
    (fun result => courseAnswer_ok result.courseId (by decide : (201 : Int) < 400) "Course created")
    hcourse

/-- What `PUT /api/courses/<int>` leaves when it reads a course. -/
theorem putCourse_conn {user : User} (hauth : Authenticates now conn authHeader user)
    (hrole : user.role = .faculty ∨ user.role = .admin) (id : Int) {json : Json} {course : Course}
    (hcourse : Course.fromJson json = .ok course) :
    ((putCourse id (some json)).run now authHeader conn).2 =
      (conn.run now (CourseService.updateCourse { course with id } user)).2 := by
  rw [Endpoint.run, handler, runExcept_putCourse hauth (by tauto) id (some json)]
  exact courseRoute_conn (fun course =>
    CourseService.updateCourse { course with id } user)
    (fun _ => courseAnswer_ok id (by decide : (200 : Int) < 400) "Course updated") hcourse

theorem putCourse_cases (id : Int) (body : Option Json) :
    (putCourse id body).Refused now authHeader conn ∨
      (putCourse id body).Succeeds now authHeader conn := by
  refine cases_of_guarded (errorResponse "Not authenticated" 401) _ rfl (by decide)
    (fun user hauth hrun => ?_) Or.inl
  by_cases hrole : user.role ≠ .faculty ∧ user.role ≠ .admin
  · exact Or.inl (refused_of_run hrun (by simp [Conn.FailsIdle, hrole, Failed, errorResponse]))
  have hrun := runExcept_putCourse hauth hrole id body
  rcases courseRoute_cases (fun course =>
      CourseService.updateCourse { course with id } user)
      (fun _ => courseAnswer_ok id (by decide : (200 : Int) < 400) "Course updated") body
      (fun course hno => by
        rcases Conn.updateCourse_cases now { course with id } user conn with
          ⟨-, -, hconn⟩ | ⟨-, hres, -⟩
        · rw [hconn]
        · rw [hres] at hno; cases hno) with
    hidle | ⟨json, course, hbody, hcourse, hsucc, hok, hconn⟩
  · exact Or.inl (refused_of_run hrun hidle)
  · right
    rcases Conn.updateCourse_cases now { course with id } user conn with
      ⟨-, hno, -⟩ | ⟨hupdatable, -, hwrite⟩
    · rw [hno] at hsucc; cases hsucc
    · rw [← hrun] at hok hconn
      refine ⟨user, hauth, hok, by tauto, json, course, hbody, hcourse, hupdatable, ?_⟩
      rw [← Conn.write_db, ← hwrite, ← hconn]
      rfl

/-! ### Users -/

/-- An insertion of a user reports whether the statement succeeded. -/
theorem run_userCreate (now : Int) (user : User) (conn : Conn) :
    (∃ e conn', conn.runExcept now (UserRepository.create user) = (.error e, conn') ∧
      conn'.db = conn.db) ∨
    (∃ applied id conn', conn.db.insertGivenUser user = some applied ∧
      conn.runExcept now (UserRepository.create user) = (.ok id, conn') ∧
      conn'.db = applied.db) := by
  simp only [UserRepository.create, Conn.runExcept_bind, Conn.runExcept_liftM, Conn.run_stepWrite,
    Conn.write, Write.apply]
  cases h : conn.db.insertGivenUser user with
  | none =>
    rw [Db.insertGivenUser, flag] at h
    rw [h]
    exact Or.inl ⟨_, _, rfl, rfl⟩
  | some applied =>
    rw [Db.insertGivenUser, flag] at h
    rw [h]
    let rowid := applied.rowid.getD conn.lastInsertRowid
    refine Or.inr ⟨applied, rowid, { conn with
      db := applied.db, changes := applied.changed, lastInsertRowid := rowid }, rfl, ?_, rfl⟩
    simp [Conn.exec, rowid]

/-- The creation of a user behind the check for an administrator. -/
def postUsersRoute (body : Option Json) : Handler := catchJson do
  createFrom (← parseBody body)
where
  createFrom (body : Json) : Handler := do
    let newUser ← fromJson User.fromJson body
    if newUser.username.isEmpty then return errorResponse "Username is required" 400
    else if newUser.name.isEmpty then return errorResponse "Name is required" 400
    else
      let password ← fromJson (fun b => b.value "password" "") body
      if password.isEmpty then return errorResponse "Password is required" 400
      else if (← UserRepository.findByUsername newUser.username).isSome then
        return errorResponse "Username already exists" 409
      else
        let id ← UserRepository.create { newUser with passwordHash := hashPassword password }
        let created ← UserRepository.findById id
        return successResponse 201 (created.map User.toJson) "User created"

/-- Creating a user fails without effect or inserts one row. -/
theorem createFrom_cases (hv : conn.db.Valid) (body : Json) :
    Conn.FailsIdle now (postUsersRoute.createFrom body) conn ∨
    ∃ (u : User) (applied : Applied) (response : HttpResponse) (conn' : Conn),
      conn.db.insertGivenUser u = some applied ∧ response.status = 201 ∧
      conn.runExcept now (postUsersRoute.createFrom body) = (.ok response, conn') ∧
      conn'.db = applied.db := by
  cases hu : User.fromJson body with
  | error e => exact Or.inl (by simp [Conn.FailsIdle, postUsersRoute.createFrom, hu, Failed])
  | ok u =>
  by_cases hname : u.username = ""
  · exact Or.inl (by simp [Conn.FailsIdle, postUsersRoute.createFrom, hu, hname, Failed,
      errorResponse])
  by_cases hfull : u.name = ""
  · exact Or.inl (by simp [Conn.FailsIdle, postUsersRoute.createFrom, hu, hname, hfull, Failed,
      errorResponse])
  cases hp : body.value "password" "" with
  | error e => exact Or.inl (by simp [Conn.FailsIdle, postUsersRoute.createFrom, hu, hname, hfull,
      hp, Failed])
  | ok password =>
  by_cases hempty : password = ""
  · exact Or.inl (by simp [Conn.FailsIdle, postUsersRoute.createFrom, hu, hname, hfull, hp, hempty,
      Failed, errorResponse])
  have hlookup : ∃ out, conn.runExcept now (UserRepository.findByUsername u.username) =
      (out, conn) := ⟨_, Prod.ext rfl (conn.run_readOnly (within_userByUsername u.username))⟩
  obtain ⟨out, hlookup⟩ := hlookup
  obtain e | _ | taken := out
  · exact Or.inl (by simp [Conn.FailsIdle, postUsersRoute.createFrom, hu, hname, hfull, hp, hempty,
      hlookup, Failed])
  swap
  · exact Or.inl (by simp [Conn.FailsIdle, postUsersRoute.createFrom, hu, hname, hfull, hp, hempty,
      hlookup, Failed, errorResponse])
  let newUser : User := { u with passwordHash := hashPassword password }
  have hrun : conn.runExcept now (postUsersRoute.createFrom body) = conn.runExcept now (do
      let id ← UserRepository.create newUser
      let created ← UserRepository.findById id
      return successResponse 201 (created.map User.toJson) "User created" : Handler) := by
    simp [postUsersRoute.createFrom, hu, hname, hfull, hp, hempty, hlookup, newUser]
  rcases run_userCreate now newUser conn with
    ⟨e, conn', hcreate, hdb⟩ | ⟨applied, id, conn', ha, hcreate, hdb⟩
  · left
    rw [Conn.FailsIdle, hrun, Conn.runExcept_bind, hcreate]
    exact ⟨trivial, hdb⟩
  · right
    have hv' : conn'.db.Valid := by
      rw [hdb]
      exact Db.valid_insertUser hv ha
    obtain ⟨found, hanswer⟩ := @Conn.runExcept_userAnswer now _ hv' id
      fun created => successResponse 201 (created.map User.toJson) "User created"
    refine ⟨newUser, applied, successResponse 201 (found.map User.toJson) "User created", conn',
      ha, rfl, ?_, hdb⟩
    rw [hrun, Conn.runExcept_bind, hcreate]
    exact hanswer

theorem postUsers_cases (hv : conn.db.Valid) (body : Option Json) :
    (postUsers body).Refused now authHeader conn ∨
      (postUsers body).Succeeds now authHeader conn := by
  refine cases_of_guarded (errorResponse "Admin access required" 403)
    (fun user => if user.role ≠ .admin then
      return errorResponse "Admin access required" 403 else postUsersRoute body) rfl (by decide)
    (fun user hauth hrun => ?_) Or.inl
  by_cases hrole : user.role = .admin
  · rw [if_neg (by simp [hrole])] at hrun
    cases body with
    | none => exact Or.inl (refused_of_run hrun (Conn.FailsIdle.catchJson (Conn.failsIdle_throw _)))
    | some json =>
      rcases @createFrom_cases now _ hv json with
        hidle | ⟨u, applied, response, conn', ha, hstatus, hcreate, hdb⟩
      · exact Or.inl (refused_of_run hrun (Conn.FailsIdle.catchJson hidle))
      · have hroute : conn.runExcept now (postUsersRoute (some json)) = (.ok response, conn') :=
          Conn.runExcept_catchJson_ok hcreate
        rw [hroute] at hrun
        refine Or.inr ⟨user, hauth, ?_, hrole, u, applied, ha, ?_⟩ <;> rw [hrun]
        · simp [Failed, hstatus]
        · exact hdb
  · exact Or.inl (refused_of_run hrun (by simp [Conn.FailsIdle, hrole, Failed, errorResponse]))

/-- The update of a user that rewrote the row and then failed. -/
def Halfway (now : Int) (authHeader : String) (request : Endpoint) (conn : Conn) : Prop :=
  (∃ user, Authenticates now conn authHeader user ∧ user.role = .admin) ∧
    Failed (request.run now authHeader conn).1 ∧
    ∃ id json row name email active e, request = putUser id (some json) ∧
      conn.db.findUser id = some row ∧ UserFields row json name email active ∧
      json.field "password" Json.getString "" = .error e ∧
      (request.run now authHeader conn).2.db = conn.db.rewriteUser name email active id

theorem putUser_cases (hv : conn.db.Valid) (id : Int) (body : Option Json) :
    (putUser id body).Refused now authHeader conn ∨
      (putUser id body).Succeeds now authHeader conn ∨
      (putUser id body).Halfway now authHeader conn := by
  refine cases_of_guarded (errorResponse "Admin access required" 403)
    (fun user => if user.role ≠ .admin then
      return errorResponse "Admin access required" 403 else Conn.putUserRoute id body) rfl
    (by decide) (fun user hauth hrun => ?_) Or.inl
  by_cases hrole : user.role = .admin
  · rw [if_neg (by simp [hrole])] at hrun
    cases body with
    | none => exact Or.inl (refused_of_run hrun (Conn.FailsIdle.catchJson (Conn.failsIdle_throw _)))
    | some json =>
      rcases @Conn.updateStored_cases now _ hv id json with hidle |
        ⟨row, name, email, active, hrow, hfields, ⟨e, conn', hp, hupdate, hdb⟩ |
          ⟨password, response, conn', hp, hupdate, hstatus, hdb⟩⟩
      · exact Or.inl (refused_of_run hrun (Conn.FailsIdle.catchJson hidle))
      · refine Or.inr (Or.inr ⟨⟨user, hauth, hrole⟩, ?_⟩)
        have hroute := Conn.putUserRoute_of_throw hupdate
        rw [hrun, hroute.2]
        exact ⟨hroute.1, id, json, row, name, email, active, e, rfl, hrow, hfields, hp, hdb⟩
      · have hroute : conn.runExcept now (Conn.putUserRoute id (some json)) =
            (.ok response, conn') := Conn.runExcept_catchJson_ok hupdate
        rw [hroute] at hrun
        refine Or.inr (Or.inl ⟨user, hauth, ?_, hrole, json, row, name, email, active, password,
          rfl, hrow, hfields, hp, ?_⟩) <;> rw [hrun]
        · simp [Failed, hstatus]
        · exact hdb
  · exact Or.inl (refused_of_run hrun (by simp [Conn.FailsIdle, hrole, Failed, errorResponse]))

/-- A request is refused without effect or has its effect, except for an update of a user
that fails halfway. -/
theorem outcome (hs : conn.saved = none) (hv : conn.db.Valid) (request : Endpoint) :
    request.Refused now authHeader conn ∨ request.Succeeds now authHeader conn ∨
      request.Halfway now authHeader conn := by
  have hsplit : ∀ {P Q R : Prop}, P ∨ Q → P ∨ Q ∨ R := fun h => h.imp_right Or.inl
  cases request with
  | postUsers body => exact hsplit (postUsers_cases hv body)
  | putUser id body => exact putUser_cases hv id body
  | deleteUser id => exact hsplit (deleteUser_cases id)
  | postCourses body => exact hsplit (postCourses_cases body)
  | putCourse id body => exact hsplit (putCourse_cases id body)
  | deleteCourse id => exact hsplit (deleteCourse_cases id)
  | postRegister c => exact hsplit (postRegister_cases hs c)
  | deleteRegister c => exact hsplit (deleteRegister_cases hs c)

end Endpoint

end AcademiaCr.Backend
