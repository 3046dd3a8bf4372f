import Mathlib.Data.List.Infix
import AcademiaCr.Backend.Services

/-!
# REST handlers

The state-changing handlers of `CourseController`, `AdminController`,
`RegistrationController` and `AuthController` with the bearer-token middleware. A request
body arrives as what `nlohmann::json::parse` makes of it: `none` where that throws. A
handler answers or lets an exception escape.
-/

namespace AcademiaCr.Backend

structure HttpResponse where
  status : Int
  body : Json

abbrev Handler := SqlExcept HttpResponse

/-! ## Middleware -/

def authenticateRequest (authHeader : String) : SqlExcept (Option User) := do
  if authHeader.isEmpty then return none
  else if authHeader.toList.take 7 ≠ "Bearer ".toList then return none
  else if (authHeader.toList.drop 7).isEmpty then return none
  else AuthService.validateToken (String.ofList (authHeader.toList.drop 7))

def errorResponse (message : String) (status : Int) : HttpResponse where
  status := status
  body := .obj [("success", .bool false), ("error", .str message), ("status", .int status)]

/-- A null payload is left out of the body. -/
def successResponse (status : Int) (data : Option Json) (message : String) : HttpResponse where
  status := status
  body := .obj ([("success", .bool true), ("message", .str message)] ++
    (data.map fun d => ("data", d)).toList)

def parseBody : Option Json → SqlExcept Json
  | none => throw .json
  | some body => return body

def fromJson {α : Type} (read : Json → Except Exn α) (body : Json) : SqlExcept α :=
  ExceptT.mk (pure (read body))

/-- `catch (const nlohmann::json::exception&)` around a handler. -/
def catchJson (handler : Handler) : Handler :=
  tryCatch handler fun e =>
    match e with
    | .json => return errorResponse "Invalid JSON body" 400
    | .std what => throw (.std what)

/-! ## Courses -/

namespace CourseController

/-- `POST /api/courses`. -/
def postCourses (authHeader : String) (body : Option Json) : Handler := do
  match ← authenticateRequest authHeader with
  | none => return errorResponse "Not authenticated" 401
  | some user =>
    if user.role ≠ .faculty ∧ user.role ≠ .admin then return errorResponse "Forbidden" 403
    else catchJson do
      let course ← fromJson Course.fromJson (← parseBody body)
      let course := if user.role = .faculty then { course with facultyId := user.id } else course
      let result ← CourseService.createCourse course user
      if !result.success then return errorResponse result.error 400
      else
        let created ← CourseRepository.findById result.courseId
        return successResponse 201 (created.map Course.toJson) "Course created"

/-- `PUT /api/courses/<int>`. -/
def putCourse (authHeader : String) (id : Int) (body : Option Json) : Handler := do
  match ← authenticateRequest authHeader with
  | none => return errorResponse "Not authenticated" 401
  | some user =>
    if user.role ≠ .faculty ∧ user.role ≠ .admin then return errorResponse "Forbidden" 403
    else catchJson do
      let course ← fromJson Course.fromJson (← parseBody body)
      let result ← CourseService.updateCourse { course with id } user
      if !result.success then return errorResponse result.error 400
      else
        let updated ← CourseRepository.findById id
        return successResponse 200 (updated.map Course.toJson) "Course updated"

/-- `DELETE /api/courses/<int>`, which looks at no role itself. -/
def deleteCourse (authHeader : String) (id : Int) : Handler := do
  match ← authenticateRequest authHeader with
  | none => return errorResponse "Not authenticated" 401
  | some user =>
    let result ← CourseService.deleteCourse id user
    if !result.success then return errorResponse result.error 400
    else return successResponse 200 none "Course deleted"

end CourseController

/-! ## Users -/

namespace AdminController

/-- `POST /api/admin/users`. -/
def postUsers (authHeader : String) (body : Option Json) : Handler := do
  match ← authenticateRequest authHeader with
  | none => return errorResponse "Admin access required" 403
  | some user =>
    if user.role ≠ .admin then return errorResponse "Admin access required" 403
    else catchJson do
      let body ← parseBody body
      let newUser ← fromJson User.fromJson body
      if newUser.username.isEmpty then return errorResponse "Username is required" 400
      else if newUser.name.isEmpty then return errorResponse "Name is required" 400
      else
        let password ← fromJson (fun b => b.value "password" "") body
        if password.isEmpty then return errorResponse "Password is required" 400
        else if (← UserRepository.findByUsername newUser.username).isSome then
          return errorResponse "Username already exists" 409
        else
          let id ← UserRepository.create { newUser with passwordHash := hashPassword password }
          let created ← UserRepository.findById id
          return successResponse 201 (created.map User.toJson) "User created"

/-- The second half of the update: a non-empty `password` field is hashed and stored. -/
def changePassword (id : Int) (body : Json) : SqlExcept Unit := do
  let password ← fromJson (fun b => b.field "password" Json.getString "") body
  if password.isEmpty then return ()
  else
    let _ ← UserRepository.updatePassword id (hashPassword password)

/-- `PUT /api/admin/users/<int>`. -/
def putUser (authHeader : String) (id : Int) (body : Option Json) : Handler := do
  match ← authenticateRequest authHeader with
  | none => return errorResponse "Admin access required" 403
  | some user =>
    if user.role ≠ .admin then return errorResponse "Admin access required" 403
    else catchJson do
      let body ← parseBody body
      match ← UserRepository.findById id with
      | none => return errorResponse "User not found" 404
      | some existing =>
        let name ← fromJson (fun b => b.field "name" Json.getString existing.name) body
        let email ← fromJson (fun b => b.field "email" Json.getString existing.email) body
        let active ← fromJson (fun b => b.field "active" Json.getBool existing.active) body
        let _ ← UserRepository.update { existing with name, email, active }
        changePassword id body
        let updated ← UserRepository.findById id
        return successResponse 200 (updated.map User.toJson) "User updated"

/-- `DELETE /api/admin/users/<int>`. -/
def deleteUser (authHeader : String) (id : Int) : Handler := do
  match ← authenticateRequest authHeader with
  | none => return errorResponse "Admin access required" 403
  | some user =>
    if user.role ≠ .admin then return errorResponse "Admin access required" 403
    else if user.id = id then return errorResponse "Cannot delete your own account" 400
    else
      let _ ← UserRepository.remove id
      return successResponse 200 none "User deleted"

end AdminController

/-! ## Registrations -/

namespace RegistrationController

/-- `error.find(text) != npos`. -/
def mentions (error text : String) : Bool := decide (text.toList <:+: error.toList)

/-- The status of a failed registration, read from its error text: the last match counts. -/
def failureStatus (error : String) : Int :=
  if mentions error "not found" then 404
  else if mentions error "Already" then 409
  else if mentions error "full" then 409
  else 400

/-- The number in an answer; `null` stands for one without a value. -/
def seatCount : Option Int → Json
  | some seats => .int seats
  | none => .null

/-- `POST /api/courses/<int>/register`. -/
def postRegister (authHeader : String) (courseId : Int) : Handler := do
  match ← authenticateRequest authHeader with
  | none => return errorResponse "Not authenticated" 401
  | some user =>
    if user.role ≠ .student then
      return errorResponse "Only students can register for courses" 403
    else
      let result ← RegistrationService.registerStudent user.id courseId
      if !result.success then
        return errorResponse result.error (failureStatus result.error)
      else
        return successResponse 201
          (some (.obj [("registration_id", .int result.registrationId),
            ("remaining_seats", seatCount result.remainingSeats)]))
          "Registration successful"

/-- `DELETE /api/courses/<int>/register`. -/
def deleteRegister (authHeader : String) (courseId : Int) : Handler := do
  match ← authenticateRequest authHeader with
  | none => return errorResponse "Not authenticated" 401
  | some user =>
    if user.role ≠ .student then return errorResponse "Only students can drop courses" 403
    else
      let result ← RegistrationService.dropStudent user.id courseId
      if !result.success then return errorResponse result.error 400
      else
        return successResponse 200
          (some (.obj [("remaining_seats", seatCount result.remainingSeats)])) "Course dropped"

end RegistrationController

/-! ## Sessions -/

namespace AuthController

/-- `POST /api/auth/login`; `generated` is the token that `generate_token` draws. -/
def postLogin (body : Option Json) (generated : String) : Handler := catchJson do
  let body ← parseBody body
  let username ← fromJson (fun b => b.value "username" "") body
  let password ← fromJson (fun b => b.value "password" "") body
  if username.isEmpty ∨ password.isEmpty then
    return errorResponse "Username and password are required" 400
  else
    let result ← AuthService.login username password generated
    if !result.success then return errorResponse result.error 401
    else
      return successResponse 200
        (some (.obj [("token", .str result.token), ("user", result.user.toJson)]))
        "Login successful"

/-- `POST /api/auth/logout`. -/
def postLogout (authHeader : String) : Handler := do
  if authHeader.toList.length > 7 then
    let _ ← AuthService.logout (String.ofList (authHeader.toList.drop 7))
    return successResponse 200 none "Logged out"
  else return successResponse 200 none "Logged out"

end AuthController

end AcademiaCr.Backend
