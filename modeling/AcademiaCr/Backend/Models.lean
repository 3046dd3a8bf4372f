import Mathlib.Algebra.Group.Nat.Defs
import Mathlib.Tactic.Common

/-!
# Domain model of the REST server

The records of `models/` and the part of the JSON library that `from_json` and `to_json`
use. Timestamps (`created_at`, `registered_at`) are left out: the code only displays them.
-/

namespace AcademiaCr.Backend

/-- An exception of the C++ code. Handlers catch the JSON library's own apart. -/
inductive Exn where
  | json
  | std (what : String)
  deriving DecidableEq, Repr

/-! ## JSON values -/

/-- A parsed JSON value. A floating-point number is kept as what `static_cast` makes of
it, the only thing the code reads from one. -/
inductive Json where
  | null
  | bool (b : Bool)
  | int (n : Int)
  | float (truncated : Int)
  | str (s : String)
  | arr (items : List Json)
  | obj (fields : List (String × Json))

namespace Json

/-- The value under a key; values other than objects have no keys. -/
def find? (j : Json) (key : String) : Option Json :=
  match j with
  | obj fields => (fields.find? fun f => f.1 = key).map (·.2)
  | _ => none

/-- `get<int64_t>()`. -/
def getInt64 : Json → Except Exn Int
  | int n => .ok (n.bmod (2 ^ 64))
  | float n => .ok (n.bmod (2 ^ 64))
  | _ => .error .json

/-- `get<int>()`, which narrows numbers and reads a boolean as 0 or 1. -/
def getInt : Json → Except Exn Int
  | int n => .ok (n.bmod (2 ^ 32))
  | float n => .ok (n.bmod (2 ^ 32))
  | bool b => .ok (if b then 1 else 0)
  | _ => .error .json

/-- `get<bool>()`. -/
def getBool : Json → Except Exn Bool
  | bool b => .ok b
  | _ => .error .json

/-- `get<std::string>()`. -/
def getString : Json → Except Exn String
  | str s => .ok s
  | _ => .error .json

/-- `if (j.contains(key)) field = j[key].get<T>()`. -/
def field {α : Type} (j : Json) (key : String) (get : Json → Except Exn α) (default : α) :
    Except Exn α :=
  match j.find? key with
  | none => .ok default
  | some v => get v

/-- `j.value(key, default)` for a string default, which only objects support. -/
def value (j : Json) (key default : String) : Except Exn String :=
  match j with
  | obj _ => j.field key getString default
  | _ => .error .json

end Json

/-! ## Roles and users -/

inductive Role where
  | admin
  | faculty
  | student
  deriving DecidableEq, Repr

def roleToString : Role → String
  | .admin => "admin"
  | .faculty => "faculty"
  | .student => "student"

def stringToRole (s : String) : Except Exn Role :=
  if s = "admin" then .ok .admin
  else if s = "faculty" then .ok .faculty
  else if s = "student" then .ok .student
  else .error (.std ("Invalid role: " ++ s))

theorem stringToRole_roleToString (r : Role) : stringToRole (roleToString r) = .ok r := by
  cases r <;> decide

structure User where
  id : Int := 0
  username : String := ""
  passwordHash : String := ""
  role : Role := .student
  name : String := ""
  email : String := ""
  active : Bool := true
  deriving DecidableEq, Repr

/-- The password hash is never serialized. -/
def User.toJson (u : User) : Json :=
  .obj [("id", .int u.id), ("username", .str u.username), ("role", .str (roleToString u.role)),
    ("name", .str u.name), ("email", .str u.email), ("active", .bool u.active)]

def User.fromJson (j : Json) : Except Exn User := do
  let id ← j.field "id" Json.getInt64 0
  let username ← j.field "username" Json.getString ""
  let role ← j.field "role" (fun v => v.getString >>= stringToRole) .student
  let name ← j.field "name" Json.getString ""
  let email ← j.field "email" Json.getString ""
  let active ← j.field "active" Json.getBool true
  let passwordHash ← j.field "password" Json.getString ""
  return { id, username, passwordHash, role, name, email, active }

/-! ## Courses -/

structure Course where
  id : Int := 0
  courseCode : String := ""
  courseName : String := ""
  credits : Int := 3
  facultyId : Int := 0
  /-- Joined from the users table. -/
  facultyName : String := ""
  capacity : Int := 0
  /-- Computed from the registrations. -/
  enrolledCount : Int := 0
  schedule : String := ""
  deriving DecidableEq, Repr

def Course.toJson (c : Course) : Json :=
  .obj [("id", .int c.id), ("course_code", .str c.courseCode), ("course_name", .str c.courseName),
    ("credits", .int c.credits), ("faculty_id", .int c.facultyId),
    ("faculty_name", .str c.facultyName), ("capacity", .int c.capacity),
    ("enrolled_count", .int c.enrolledCount),
    ("available_seats", .int (c.capacity - c.enrolledCount)), ("schedule", .str c.schedule)]

def Course.fromJson (j : Json) : Except Exn Course := do
  let id ← j.field "id" Json.getInt64 0
  let courseCode ← j.field "course_code" Json.getString ""
  let courseName ← j.field "course_name" Json.getString ""
  let credits ← j.field "credits" Json.getInt 3
  let facultyId ← j.field "faculty_id" Json.getInt64 0
  let capacity ← j.field "capacity" Json.getInt 0
  let schedule ← j.field "schedule" Json.getString ""
  return { id, courseCode, courseName, credits, facultyId, capacity, schedule }

/-! ## Registrations -/

structure Registration where
  id : Int := 0
  studentId : Int := 0
  courseId : Int := 0
  status : String := "active"
  /-- The last three are joined for display. -/
  studentName : String := ""
  courseCode : String := ""
  courseName : String := ""
  deriving DecidableEq, Repr

end AcademiaCr.Backend
