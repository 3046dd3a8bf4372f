import AcademiaCr.Backend.Routes

/-!
# Databases that differ in password hashes

Every statement treats two databases that differ in nothing but the stored hashes alike: it
answers the same, apart from the hash in a row of `users` that it reads, and the databases
after it again differ in nothing but hashes.

## Main definitions

- `SameButHashes`: connections that differ in nothing but stored hashes
- `SqlCall.HidesHash`: the calls whose answers have no hash
- `SameButHashes.exec`: what a call does on two such connections
-/

namespace AcademiaCr.Backend

open Resumption

/-! ## Without the hashes -/

def UserRow.withoutHash (row : UserRow) : UserRow := { row with passwordHash := "" }

namespace Db

def withoutHashes (db : Db) : Db := { db with users := db.users.map UserRow.withoutHash }

variable (db : Db) (id : Int)

@[simp] theorem withoutHashes_courses : db.withoutHashes.courses = db.courses := rfl

@[simp] theorem withoutHashes_registrations :
    db.withoutHashes.registrations = db.registrations := rfl

@[simp] theorem withoutHashes_sessions : db.withoutHashes.sessions = db.sessions := rfl

@[simp] theorem withoutHashes_users :
    db.withoutHashes.users = db.users.map UserRow.withoutHash := rfl

@[simp] theorem withoutHashes_active : db.withoutHashes.active id = db.active id := rfl

@[simp] theorem withoutHashes_courseExists :
    db.withoutHashes.courseExists id = db.courseExists id := rfl

theorem withoutHashes_findUser :
    db.withoutHashes.findUser id = (db.findUser id).map UserRow.withoutHash :=
  List.find?_map

@[simp] theorem withoutHashes_userExists :
    db.withoutHashes.userExists id = db.userExists id :=
  List.any_map

theorem withoutHashes_join (row : CourseRow) : db.withoutHashes.join row = db.join row := by
  rw [join, join]
  congr 1
  cases row.facultyId with
  | none => rfl
  | some f =>
    rw [Option.bind_some, Option.bind_some, withoutHashes_findUser, Option.map_map]
    rfl

theorem withoutHashes_courseOwners : db.withoutHashes.courseOwners =
    db.courseOwners.map fun r => (r.1, r.2.map UserRow.withoutHash) :=
  Table.leftJoin_map _ _ db.courses db.users

/-- A condition on courses and the names of their owners. -/
theorem withoutHashes_selectCourses {p : CourseRow × Option UserRow → Bool}
    (hp : ∀ c u, p (c, u.map UserRow.withoutHash) = p (c, u)) :
    db.withoutHashes.selectCourses p = db.selectCourses p := by
  rw [selectCourses, selectCourses, withoutHashes_courseOwners, List.filter_map, List.map_map]
  congr 1
  have hsame : (p ∘ fun r : CourseRow × Option UserRow =>
      (r.1, r.2.map UserRow.withoutHash)) = p := funext fun r => hp r.1 r.2
  rw [hsame]
  refine List.map_congr_left fun r _ => ?_
  simp only [Function.comp_apply, Option.map_map]
  rfl

theorem withoutHashes_joinedRegistrations :
    db.withoutHashes.joinedRegistrations = db.joinedRegistrations := by
  have husers : Table.innerJoin (fun r u => r.studentId = u.id) db.registrations
      (db.users.map UserRow.withoutHash) =
      (Table.innerJoin (fun r u => r.studentId = u.id) db.registrations db.users).map
        fun pair => (pair.1, pair.2.withoutHash) :=
    Table.innerJoin_map _ _ db.registrations db.users
  rw [joinedRegistrations, joinedRegistrations, withoutHashes_users, withoutHashes_registrations,
    husers]
  generalize Table.innerJoin (fun r u => decide (r.studentId = u.id)) db.registrations
    db.users = pairs
  rw [Table.innerJoin, Table.innerJoin, List.flatMap_map, List.map_flatMap, List.map_flatMap]
  refine List.flatMap_congr fun r _ => ?_
  rw [List.map_map, List.map_map]
  rfl

end Db

/-! ## Connections -/

namespace Conn

def withoutHashes (conn : Conn) : Conn :=
  { conn with db := conn.db.withoutHashes, saved := conn.saved.map Db.withoutHashes }

end Conn

/-- Nothing but stored hashes differs. -/
def SameButHashes (conn conn' : Conn) : Prop := conn.withoutHashes = conn'.withoutHashes

/-- The calls other than those that read a row of `users`. -/
def SqlCall.HidesHash : {β : Type} → SqlCall β → Prop
  | _, .query (.userById _) => False
  | _, .query (.userByUsername _) => False
  | _, _ => True

/-! ## Queries -/

section Queries

variable {β : Type} (now : Int) (db : Db)

theorem Query.eval_withoutHashes {q : Query β} (hq : (SqlCall.query q).HidesHash) :
    q.eval now db.withoutHashes = q.eval now db := by
  cases q with
  | userById | userByUsername => exact hq.elim
  | courseById id => exact congrArg (Option.map · _) (funext fun row => db.withoutHashes_join row)
  | courseByCode code =>
    exact congrArg (Option.map · _) (funext fun row => db.withoutHashes_join row)
  | courses => exact db.withoutHashes_selectCourses fun _ _ => rfl
  | coursesByFaculty f => exact db.withoutHashes_selectCourses fun _ _ => rfl
  | coursesLike pattern =>
    refine db.withoutHashes_selectCourses fun c u => ?_
    cases u <;> rfl
  | registrationsByStudent s status =>
    exact congrArg (List.filter _) db.withoutHashes_joinedRegistrations
  | registrationsByCourse c status =>
    exact congrArg (fun rows => Table.orderBy (·.studentName) (List.filter _ rows))
      db.withoutHashes_joinedRegistrations
  | userCount => exact congrArg _ (List.length_map _)
  | userCountByRole role => exact congrArg _ List.countP_map
  | enrolledCount | registrationExists | registrationId | sessionUser | courseCount |
      activeCount | activeCountByStudent | creditsByStudent => rfl

theorem Query.eval_userByUsername_withoutHashes (username : String) :
    (Query.userByUsername username).eval now db.withoutHashes =
      ((Query.userByUsername username).eval now db).map UserRow.withoutHash :=
  List.find?_map

end Queries

/-! ## Writes -/

/-- The tables after a statement, but for the hashes, with what the connection reports. -/
def Applied.withoutHashes (applied : Applied) : Applied :=
  { applied with db := applied.db.withoutHashes }

theorem Db.withoutHashes_withoutHashes (db : Db) : db.withoutHashes.withoutHashes =
    db.withoutHashes := by
  rw [Db.withoutHashes, withoutHashes_users, List.map_map]
  rfl

/-- A rewriting of rows that looks at no hash. -/
theorem map_update_withoutHash {p : UserRow → Bool} {f : UserRow → UserRow}
    (hp : ∀ u, p u.withoutHash = p u)
    (hf : ∀ u, (f u.withoutHash).withoutHash = (f u).withoutHash) (users : List UserRow) :
    (Table.update p f (users.map UserRow.withoutHash)).map UserRow.withoutHash =
      (Table.update p f users).map UserRow.withoutHash := by
  rw [Table.update, Table.update, List.map_map, List.map_map, List.map_map]
  refine List.map_congr_left fun u _ => ?_
  simp only [Function.comp_apply, hp]
  split
  · exact hf u
  · rfl

namespace Db

variable (db : Db)

theorem withoutHashes_insertUser (username hash role name email : String) (active : Int) :
    (db.withoutHashes.insertUser username hash role name email active).map
        Applied.withoutHashes =
      (db.insertUser username hash role name email active).map Applied.withoutHashes := by
  have hnames : (db.users.map UserRow.withoutHash).all
      (fun u => u.username ≠ bindText username) =
      db.users.all fun u => u.username ≠ bindText username := List.all_map
  have hids : (db.users.map UserRow.withoutHash).map (·.id) = db.users.map (·.id) :=
    List.map_map
  rw [insertUser, insertUser, withoutHashes_users, hnames, hids]
  split
  · simp only [Option.map_some, Applied.withoutHashes, withoutHashes, List.map_append,
      List.map_map]
    rfl
  · rfl

theorem withoutHashes_deleteUser (id : Int) :
    (db.withoutHashes.deleteUser id).map Applied.withoutHashes =
      (db.deleteUser id).map Applied.withoutHashes := by
  have hcount : (db.users.map UserRow.withoutHash).countP (fun u => u.id = id) =
      db.users.countP fun u => u.id = id := List.countP_map
  rw [deleteUser, deleteUser, withoutHashes_users, hcount, withoutHashes_userExists]
  simp only [Option.map_some, Applied.withoutHashes]
  congr 2
  split
  · rw [withoutHashes, withoutHashes, List.filter_map, List.map_map]
    rfl
  · exact db.withoutHashes_withoutHashes

end Db

theorem Write.apply_withoutHashes (now : Int) (db : Db) (w : Write) :
    (w.apply now db.withoutHashes).map Applied.withoutHashes =
      (w.apply now db).map Applied.withoutHashes := by
  have hcount : ∀ id : Int, (db.users.map UserRow.withoutHash).countP (fun u => u.id = id) =
      db.users.countP fun u => u.id = id := fun _ => List.countP_map
  cases w with
  | insertUser username hash role name email active =>
    exact db.withoutHashes_insertUser username hash role name email active
  | deleteUser id => exact db.withoutHashes_deleteUser id
  | updateUser name email active id =>
    simp only [apply, Db.updateUser, Option.map_some, Applied.withoutHashes, Db.withoutHashes,
      hcount]
    rw [map_update_withoutHash (fun _ => rfl) fun _ => rfl]
  | updatePassword hash id =>
    simp only [apply, Db.updatePassword, Option.map_some, Applied.withoutHashes,
      Db.withoutHashes, hcount]
    rw [map_update_withoutHash (fun _ => rfl) fun _ => rfl]
  | insertRegistration s c =>
    simp only [apply, Db.insertRegistration, Db.withoutHashes_userExists,
      Db.withoutHashes_courseExists, Db.withoutHashes_registrations]
    split
    · simp only [Option.map_some, Applied.withoutHashes, Db.withoutHashes, List.map_map]
      rfl
    · rfl
  | insertCourse code name credits facultyId capacity schedule =>
    simp only [apply, Db.insertCourse, Db.withoutHashes_userExists, Db.withoutHashes_courses]
    split
    · simp only [Option.map_some, Applied.withoutHashes, Db.withoutHashes, List.map_map]
      rfl
    · rfl
  | updateCourse name credits facultyId capacity schedule id =>
    simp only [apply, Db.updateCourse, Db.withoutHashes_userExists,
      Db.withoutHashes_courseExists]
    split
    · rfl
    · simp only [Option.map_some, Applied.withoutHashes, Db.withoutHashes, List.map_map]
      rfl
  | insertSession token userId =>
    simp only [apply, Db.insertSession, Db.withoutHashes_userExists]
    split
    · simp only [Option.map_some, Applied.withoutHashes, Db.withoutHashes, List.map_map]
      rfl
    · rfl
  | reactivateRegistration | dropRegistration | deleteCourse | deleteSession |
      cleanupSessions =>
    simp only [apply, Db.reactivateRegistration, Db.dropRegistration, Db.deleteCourse,
      Db.deleteSession, Db.cleanupSessions, Option.map_some, Applied.withoutHashes,
      Db.withoutHashes, List.map_map]
    rfl

namespace Conn

variable (now : Int) (conn : Conn)

theorem withoutHashes_withoutHashes : conn.withoutHashes.withoutHashes = conn.withoutHashes := by
  rw [withoutHashes, withoutHashes, Db.withoutHashes_withoutHashes, Option.map_map]
  congr 2
  exact funext Db.withoutHashes_withoutHashes

theorem write_withoutHashes (w : Write) :
    (conn.withoutHashes.write now w).1 = (conn.write now w).1 ∧
      (conn.withoutHashes.write now w).2.withoutHashes =
        (conn.write now w).2.withoutHashes := by
  have hsaved : (conn.saved.map Db.withoutHashes).map Db.withoutHashes =
      conn.saved.map Db.withoutHashes := congrArg Conn.saved conn.withoutHashes_withoutHashes
  have happly := w.apply_withoutHashes now conn.db
  rw [write, write]
  show _ ∧ _
  cases h : w.apply now conn.db with
  | none =>
    rw [h, Option.map_none, Option.map_eq_none_iff] at happly
    have hnone : w.apply now conn.withoutHashes.db = none := happly
    rw [hnone]
    exact ⟨rfl, congrArg (fun c : Conn => { c with changes := 0 }) conn.withoutHashes_withoutHashes⟩
  | some applied =>
    rw [h, Option.map_some] at happly
    obtain ⟨applied', hsome, happlied⟩ := Option.map_eq_some_iff.mp happly
    have hsome' : w.apply now conn.withoutHashes.db = some applied' := hsome
    rw [hsome']
    refine ⟨rfl, ?_⟩
    obtain ⟨hdb, hchanged, hrowid⟩ : applied'.db.withoutHashes = applied.db.withoutHashes ∧
        applied'.changed = applied.changed ∧ applied'.rowid = applied.rowid := by
      simpa [Applied.withoutHashes] using happlied
    simp only [withoutHashes, hdb, hchanged, hrowid, hsaved]

/-- A call on a connection without hashes leaves what it leaves on the connection itself, but
for the hashes. -/
theorem exec_withoutHashes {β : Type} (e : SqlCall β) :
    (conn.withoutHashes.exec now e).2.withoutHashes = (conn.exec now e).2.withoutHashes := by
  have hsame := conn.withoutHashes_withoutHashes
  cases e with
  | query | changes | lastInsertRowid => exact hsame
  | write w => exact (conn.write_withoutHashes now w).2
  | beginImmediate | commit =>
    simp only [exec, withoutHashes] at hsame ⊢
    cases h : conn.saved <;> simp_all
  | rollback =>
    simp only [exec, withoutHashes] at hsame ⊢
    cases h : conn.saved <;> simp_all

/-- All other calls answer the same without the hashes. -/
theorem answer_withoutHashes {β : Type} {e : SqlCall β} (he : e.HidesHash) :
    (conn.withoutHashes.exec now e).1 = (conn.exec now e).1 := by
  cases e with
  | query q => exact Query.eval_withoutHashes now conn.db he
  | write w => exact (conn.write_withoutHashes now w).1
  | beginImmediate | commit | rollback =>
    simp only [exec, withoutHashes]
    cases conn.saved <;> rfl
  | changes | lastInsertRowid => rfl

end Conn

/-! ## Two connections -/

namespace SameButHashes

variable {conn conn' : Conn} {β : Type} (now : Int)

theorem exec (h : SameButHashes conn conn') (e : SqlCall β) :
    SameButHashes (conn.exec now e).2 (conn'.exec now e).2 := by
  rw [SameButHashes, ← conn.exec_withoutHashes, ← conn'.exec_withoutHashes, h]

theorem answer (h : SameButHashes conn conn') {e : SqlCall β} (he : e.HidesHash) :
    (conn.exec now e).1 = (conn'.exec now e).1 := by
  rw [← conn.answer_withoutHashes now he, ← conn'.answer_withoutHashes now he, h]

theorem userById (h : SameButHashes conn conn') (id : Int) :
    (conn.db.findUser id).map UserRow.withoutHash =
      (conn'.db.findUser id).map UserRow.withoutHash := by
  rw [← conn.db.withoutHashes_findUser, ← conn'.db.withoutHashes_findUser]
  exact congrArg (fun c : Conn => c.db.findUser id) h

theorem userByUsername (h : SameButHashes conn conn') (username : String) :
    ((Query.userByUsername username).eval now conn.db).map UserRow.withoutHash =
      ((Query.userByUsername username).eval now conn'.db).map UserRow.withoutHash := by
  rw [← Query.eval_userByUsername_withoutHashes, ← Query.eval_userByUsername_withoutHashes]
  exact congrArg (fun c : Conn => (Query.userByUsername username).eval now c.db) h

end SameButHashes

end AcademiaCr.Backend
