import AcademiaCr.Backend.ApiRuns

/-!
# Failed requests

Whether a request that answers with an error status, or leaves its handler by an exception,
has left users, courses and registrations as they were. Parsing and writing are separate in
every handler but the update of a user, which reads the password after its first statement.

## Main definitions

- `Atomic`: a failed request changes none of the three tables
- `atomic_iff`: the requests that are atomic
-/

namespace AcademiaCr.Backend

open Resumption Transition

/-- If the request fails, the three tables are as before. -/
def Atomic (now : Int) (authHeader : String) (request : Endpoint) (conn : Conn) : Prop :=
  let outcome := request.run now authHeader conn
  Failed outcome.1 → outcome.2.db.users = conn.db.users ∧
    outcome.2.db.courses = conn.db.courses ∧ outcome.2.db.registrations = conn.db.registrations

section

variable {now : Int} {conn : Conn} {authHeader : String}

/-- A row that an update changes is not in the table afterwards. -/
theorem users_ne_of_rewrite {db : Db} {id : Int} {row : UserRow} (hrow : db.findUser id = some row)
    {name email : String} {active : Bool} (hne : row.rewrite name email active ≠ row) :
    (db.rewriteUser name email active id).users ≠ db.users := by
  intro hsame
  have hid : row.id = id := by simpa using List.find?_some hrow
  have hfound : (db.rewriteUser name email active id).findUser id =
      some (row.rewrite name email active) := by
    have h := Table.find?_update (p := fun u : UserRow => decide (u.id = id))
      (q := fun u => decide (u.id = id)) (f := (·.rewrite name email active)) (fun _ _ => rfl)
      db.users
    rw [Db.findUser] at hrow ⊢
    rw [Db.rewriteUser, h, hrow, Option.map_some, if_pos (by simpa using hid)]
  rw [Db.findUser, hsame, ← Db.findUser, hrow] at hfound
  exact hne (Option.some.inj hfound).symm

/-- An administrator's update with an ill-typed password fails after it changed the row. -/
theorem not_atomic_of_failsHalfway (hv : conn.db.Valid) {user : User}
    (hauth : Authenticates now conn authHeader user) (hrole : user.role = .admin)
    {request : Endpoint} (h : request.FailsHalfway conn.db) :
    ¬ Atomic now authHeader request conn := by
  cases request with
  | putUser id body =>
    obtain ⟨json, row, name, email, active, e, rfl, hrow, hf, hp, hne⟩ := h
    have hrun := Conn.runExcept_updateStored now hv hrow hf
    rcases @Conn.runExcept_changePassword now id json
      (conn.write now (.updateUser name email (flag active) id)).2 with
      ⟨e', hp', hpass⟩ | ⟨password, conn', hp', -⟩
    · rw [Conn.runExcept_bind, hpass] at hrun
      obtain ⟨hfailed, hconn⟩ := Conn.putUserRoute_of_throw hrun
      have hput := Conn.runExcept_putUser hauth hrole id (some json)
      intro hatomic
      have husers := (hatomic (by rw [Endpoint.run, Endpoint.handler, hput]; exact hfailed)).1
      rw [Endpoint.run, Endpoint.handler, hput, hconn, Conn.write_db] at husers
      exact users_ne_of_rewrite hrow hne husers
    · rw [hp] at hp'; cases hp'
  | postUsers | deleteUser | postCourses | putCourse | deleteCourse | postRegister
  | deleteRegister => exact h.elim

theorem atomic_of_not_failsHalfway (hs : conn.saved = none) (hv : conn.db.Valid)
    {request : Endpoint} (h : ¬ ((∃ user, Authenticates now conn authHeader user ∧
      user.role = .admin) ∧ request.FailsHalfway conn.db)) :
    Atomic now authHeader request conn := by
  intro hfailed
  rcases @Endpoint.outcome now _ authHeader hs hv request with
    ⟨-, hdb⟩ | ⟨user, -, hok, -⟩ |
      ⟨hadmin, -, id, json, row, name, email, active, e, rfl, hrow, hf, hp, hdb⟩
  · have hdb' : (request.run now authHeader conn).2.db = conn.db := hdb
    simp only [hdb', and_self]
  · exact absurd hfailed hok
  · -- the update wrote the row as it was
    have hsame : row.rewrite name email active = row := by
      by_contra hne
      exact h ⟨hadmin, json, row, name, email, active, e, rfl, hrow, hf, hp, hne⟩
    simp only [hdb, Conn.rewriteUser_eq_self hv hrow hsame, and_self]

end

/-! ## The administrator's requests -/

/-- The seeded server after its administrator logged in. -/
def adminLoggedIn : Api := ⟨(ApiCall.login "admin" "admin123" "a11ce").run 0 (startup true), 0⟩

def systemAdministrator : User where
  id := 1
  username := "admin"
  passwordHash := hashPassword "admin123"
  role := .admin
  name := "System Administrator"
  email := "admin@academia.edu"

theorem adminLoggedIn_reachable : Reachable adminLoggedIn :=
  ⟨true, 0, _, Run.start.snoc (l := (.login "admin" "admin123" "a11ce", 0)) rfl⟩

theorem adminLoggedIn_authenticates :
    Authenticates 0 adminLoggedIn.conn "Bearer a11ce" systemAdministrator := by
  unfold Authenticates
  decide +kernel

/-- A deactivation of `john.doe` (user 5) whose password is a number. -/
def brokenUpdate : Endpoint :=
  .putUser 5 (some (.obj [("active", .bool false), ("password", .int 7)]))

/-- In every reachable state a failed request is without effect, unless it is an update of
an existing user by an administrator in which `password` is no string, the other fields are
well-typed and at least one of them differs from what is stored. -/
theorem atomic_iff {s : Api} (h : Reachable s) (now : Int) (authHeader : String)
    (request : Endpoint) : Atomic now authHeader request s.conn ↔
      ¬ ((∃ user, Authenticates now s.conn authHeader user ∧ user.role = .admin) ∧
        request.FailsHalfway s.conn.db) := by
  constructor
  · rintro hatomic ⟨⟨user, hauth, hrole⟩, hhalf⟩
    exact not_atomic_of_failsHalfway h.sound.valid hauth hrole hhalf hatomic
  · exact atomic_of_not_failsHalfway h.sound.idle h.sound.valid

/-- The administrator's deletion of the own account fails, without effect. -/
theorem atomic_deleteUser :
    Failed ((Endpoint.deleteUser 1).run 0 "Bearer a11ce" adminLoggedIn.conn).1 ∧
      Atomic 0 "Bearer a11ce" (.deleteUser 1) adminLoggedIn.conn :=
  ⟨by decide +kernel,
    (atomic_iff adminLoggedIn_reachable 0 "Bearer a11ce" (.deleteUser 1)).mpr fun h => h.2.elim⟩

/-- The deactivation answers with an error and `john.doe` is deactivated. -/
theorem brokenUpdate_not_atomic :
    ¬ ∀ s : Api, Reachable s → ∀ now authHeader request, Atomic now authHeader request s.conn := by
  intro h
  have hrow : adminLoggedIn.conn.db.findUser 5 = some ⟨5, "john.doe", hashPassword "student123",
      "student", "John Doe", "john.doe@academia.edu", 1⟩ := by decide +kernel
  have hhalf : brokenUpdate.FailsHalfway adminLoggedIn.conn.db :=
    ⟨_, _, "John Doe", "john.doe@academia.edu", false, .json, rfl, hrow, ⟨rfl, rfl, rfl⟩, rfl,
      by decide +kernel⟩
  exact not_atomic_of_failsHalfway adminLoggedIn_reachable.sound.valid adminLoggedIn_authenticates
    rfl hhalf (h _ adminLoggedIn_reachable _ _ _)

end AcademiaCr.Backend
