import AcademiaCr.Backend.Routes

/-!
# What a student can see of the database

The courses with the names of their owners, the number of seats that others have taken in each
course, and what belongs to the student: the account, the registrations and the sessions. Every
statement that the requests of a student execute answers the same on two databases that look the
same to the student, and these look the same again after it.

## Main definitions

- `Viewer`: a student with the tokens of the student's sessions
- `SameView`: databases that look the same to the student
- `SqlCall.OwnOf`: the statements that concern the student
- `SameViewOn.exec`: what these do on two such databases
-/

namespace AcademiaCr.Backend

open Resumption

/-! ## Views -/

/-- A student: the key and the username of the account, and the tokens that are used for it and
for no other account. -/
structure Viewer where
  id : Int
  username : String
  tokens : String → Prop

namespace Db

/-- The owner of a course, as far as courses are shown with it. -/
def ownersOf (db : Db) (c : CourseRow) : List (Int × String) :=
  (db.users.filter fun u => c.facultyId = some u.id).map fun u => (u.id, u.name)

/-- The account of a user. -/
def accountOf (db : Db) (s : Int) : List UserRow := db.users.filter fun u => u.id = s

/-- All registrations of a student. -/
def registrationsOf (db : Db) (s : Int) : List RegistrationRow :=
  db.registrations.filter fun r => r.studentId = s

/-- The seats of a course that others than this student have taken. -/
def seatsOfOthers (db : Db) (s c : Int) : Nat :=
  db.registrations.countP fun r => r.studentId ≠ s && r.activeIn c

/-- The sessions of a user. -/
def sessionsOf (db : Db) (s : Int) : List (String × Option Int) :=
  (db.sessions.filter fun row => row.userId = s).map fun row => (row.token, row.expiresAt)

/-- The account is that of a student, who alone has the username and the tokens; and no key of
a registration is above those given out. -/
structure Fits (v : Viewer) (db : Db) : Prop where
  student : ∀ u ∈ db.users, u.id = v.id → u.role = "student"
  named : ∀ u ∈ db.users, u.username = v.username → u.id = v.id
  tokens : ∀ row ∈ db.sessions, v.tokens row.token → row.userId = v.id
  numbered : ∀ r ∈ db.registrations, r.id ≤ db.registrationSeq

end Db

/-- Two databases that look the same to the student. -/
structure SameView (v : Viewer) (db db' : Db) : Prop where
  left : db.Fits v
  right : db'.Fits v
  courses : db.courses = db'.courses
  owners : ∀ c ∈ db.courses, db.ownersOf c = db'.ownersOf c
  account : db.accountOf v.id = db'.accountOf v.id
  registrations : db.registrationsOf v.id = db'.registrationsOf v.id
  others : ∀ c, db.seatsOfOthers v.id c = db'.seatsOfOthers v.id c
  registrationSeq : db.registrationSeq = db'.registrationSeq
  sessions : db.sessionsOf v.id = db'.sessionsOf v.id

/-- The queries about courses, and those about the student. -/
def Query.OwnOf (v : Viewer) : {β : Type} → Query β → Prop
  | _, courseById _ | _, enrolledCount _ | _, courses | _, coursesLike _ => True
  | _, userById id => id = v.id
  | _, userByUsername username => bindText username = v.username
  | _, sessionUser token => v.tokens (bindText token)
  | _, registrationExists s _ | _, registrationId s _ | _, registrationsByStudent s _
  | _, creditsByStudent s => s = v.id
  | _, _ => False

/-- The writes that the requests of the student execute. -/
def Write.OwnOf (v : Viewer) : Write → Prop
  | reactivateRegistration s _ | insertRegistration s _ | dropRegistration s _ => s = v.id
  | deleteCourse _ => True
  | insertSession token s => v.tokens (bindText token) ∧ s = v.id
  | deleteSession token => v.tokens (bindText token)
  | _ => False

/-- The key of the last row inserted is asked for right after an insertion only. -/
def SqlCall.OwnOf (v : Viewer) : {β : Type} → SqlCall β → Prop
  | _, .query q => q.OwnOf v
  | _, .write w => w.OwnOf v
  | _, .lastInsertRowid => False
  | _, _ => True

/-! ## Queries -/

section Queries

variable {v : Viewer} {db db' : Db}

theorem Db.findUser_eq_head? (db : Db) (s : Int) : db.findUser s = (db.accountOf s).head? :=
  (List.head?_filter ..).symm

theorem Db.userExists_eq (db : Db) (s : Int) : db.userExists s = !(db.accountOf s).isEmpty := by
  rw [Db.userExists, Db.accountOf]
  induction db.users with
  | nil => rfl
  | cons u users ih =>
    rw [List.any_cons, ih]
    by_cases hu : u.id = s <;> simp [hu]

theorem SameView.findUser (h : SameView v db db') : db.findUser v.id = db'.findUser v.id := by
  rw [Db.findUser_eq_head?, Db.findUser_eq_head?, h.account]

/-- The row of the username is the student's. -/
theorem Db.Fits.userByUsername (h : db.Fits v) :
    db.users.find? (fun u => u.username = v.username) =
      (db.accountOf v.id).find? fun u => u.username = v.username :=
  (Table.find?_filter_of_imp fun u hu hname =>
    decide_eq_true (h.named u hu (of_decide_eq_true hname))).symm

theorem Db.active_eq (db : Db) (s c : Int) :
    db.active c = (db.registrationsOf s).countP (RegistrationRow.activeIn c) +
      db.seatsOfOthers s c := by
  rw [Db.active, Db.registrationsOf, Db.seatsOfOthers, List.countP_filter]
  induction db.registrations with
  | nil => rfl
  | cons r rows ih =>
    rw [List.countP_cons, List.countP_cons, List.countP_cons, ih]
    by_cases hs : r.studentId = s <;> simp [hs] <;> omega

theorem SameView.active (h : SameView v db db') (c : Int) : db.active c = db'.active c := by
  rw [db.active_eq v.id, db'.active_eq v.id, h.registrations, h.others]

/-- The name that a course is shown with. -/
theorem Db.facultyName_eq (db : Db) (row : CourseRow) :
    ((row.facultyId.bind db.findUser).map (·.name)) = (db.ownersOf row).head?.map (·.2) := by
  cases hf : row.facultyId with
  | none => simp [Db.ownersOf, hf]
  | some f =>
    rw [Option.bind_some, Db.findUser_eq_head?, Db.accountOf, Db.ownersOf, List.head?_map,
      Option.map_map, hf]
    have hsame : (fun u : UserRow => decide (some f = some u.id)) = fun u => decide (u.id = f) :=
      funext fun u => decide_eq_decide.mpr (by rw [Option.some.injEq, eq_comm])
    rw [hsame]
    rfl

theorem SameView.join (h : SameView v db db') {row : CourseRow} (hrow : row ∈ db.courses) :
    db.join row = db'.join row := by
  rw [Db.join, Db.join, Db.facultyName_eq, Db.facultyName_eq, h.owners row hrow, h.active]

theorem Db.courseOwners_map (db : Db) :
    db.courseOwners.map (fun r => (r.1, r.2.map fun u => (u.id, u.name))) =
      Table.leftJoin (fun c p => c.facultyId = some p.1) db.courses
        (db.users.map fun u => (u.id, u.name)) :=
  (Table.leftJoin_map (fun (c : CourseRow) (p : Int × String) => decide (c.facultyId = some p.1))
    (fun u : UserRow => (u.id, u.name)) db.courses db.users).symm

/-- The courses with the names of their owners. -/
theorem SameView.courseOwners (h : SameView v db db') :
    db.courseOwners.map (fun r => (r.1, r.2.map fun u => (u.id, u.name))) =
      db'.courseOwners.map (fun r => (r.1, r.2.map fun u => (u.id, u.name))) := by
  rw [Db.courseOwners_map, Db.courseOwners_map, ← h.courses]
  refine Table.leftJoin_congr fun c hc => ?_
  rw [List.filter_map, List.filter_map]
  exact h.owners c hc

/-- A selection by what is shown of the owners. -/
theorem SameView.selectCourses (h : SameView v db db') {p : CourseRow × Option UserRow → Bool}
    {q : CourseRow × Option (Int × String) → Bool}
    (hp : ∀ c u, p (c, u) = q (c, u.map fun u => (u.id, u.name))) :
    db.selectCourses p = db'.selectCourses p := by
  have hrows : ∀ db : Db, db.selectCourses p = Table.orderBy (·.row.courseCode)
      (((db.courseOwners.map fun r => (r.1, r.2.map fun u => (u.id, u.name))).filter q).map
        fun r => { row := r.1, facultyName := (r.2.map (·.2)).getD "",
                   enrolledCount := db.active r.1.id }) := by
    intro db
    rw [List.filter_map, List.map_map, Db.selectCourses]
    have hsame : p = q ∘ fun r => (r.1, r.2.map fun u => (u.id, u.name)) :=
      funext fun r => hp r.1 r.2
    rw [← hsame]
    congr 1
    refine List.map_congr_left fun r _ => ?_
    simp only [Function.comp_apply, Option.map_map]
    rfl
  rw [hrows, hrows, h.courseOwners]
  congr 1
  exact List.map_congr_left fun r _ => by rw [h.active]

/-- A registration is joined with the account of its student. -/
theorem Db.joinedRegistrations_of (db : Db) (s : Int) (status : String) :
    (db.joinedRegistrations.filter fun r => r.row.studentId = s ∧ r.row.status = status) =
      ((Table.innerJoin (fun r c => r.1.courseId = c.id)
        (Table.innerJoin (fun r u => r.studentId = u.id)
          ((db.registrationsOf s).filter fun r => r.status = status) (db.accountOf s))
        db.courses).map fun r =>
          { row := r.1.1, studentName := r.1.2.name, courseCode := r.2.courseCode,
            courseName := r.2.courseName : JoinedRegistration }) := by
  have husers : Table.innerJoin (fun r u => decide (r.studentId = u.id))
      ((db.registrationsOf s).filter fun r => r.status = status) (db.accountOf s) =
      Table.innerJoin (fun r u => decide (r.studentId = u.id))
        ((db.registrationsOf s).filter fun r => r.status = status) db.users := by
    refine Table.innerJoin_congr fun r hr => ?_
    have hs : r.studentId = s := by
      simpa using (List.mem_filter.mp (List.mem_filter.mp hr).1).2
    rw [Db.accountOf, List.filter_filter]
    refine List.filter_congr fun u _ => ?_
    rw [hs]
    by_cases hu : u.id = s
    · simp [hu]
    · simp [hu, Ne.symm hu]
  rw [husers, Db.registrationsOf, List.filter_filter]
  have hrows : ∀ p : RegistrationRow → Bool,
      (db.joinedRegistrations.filter fun r => p r.row) =
        (Table.innerJoin (fun r c => decide (r.1.courseId = c.id))
          (Table.innerJoin (fun r u => decide (r.studentId = u.id))
            (db.registrations.filter p) db.users) db.courses).map fun r =>
          { row := r.1.1, studentName := r.1.2.name, courseCode := r.2.courseCode,
            courseName := r.2.courseName } := by
    intro p
    rw [← Table.filter_innerJoin, ← Table.filter_innerJoin, Db.joinedRegistrations,
      List.filter_map]
    rfl
  have hboth := hrows fun r => decide (r.studentId = s ∧ r.status = status)
  rw [hboth]
  congr 3
  exact List.filter_congr fun r _ => by rw [Bool.decide_and, Bool.and_comm]

/-- The user of a session that is the student's. -/
theorem Db.Fits.sessionUser (h : db.Fits v) (now : Int) {token : String}
    (htoken : v.tokens (bindText token)) :
    (Query.sessionUser token).eval now db =
      if (db.sessionsOf v.id).any fun p => p.1 = bindText token ∧ p.2.all (now < ·)
      then some v.id else none := by
  have hown : ∀ row ∈ db.sessions, row.token = bindText token → row.userId = v.id :=
    fun row hrow heq => h.tokens row hrow (heq ▸ htoken)
  rw [Query.eval, Db.sessionsOf]
  generalize db.sessions = sessions at hown
  induction sessions with
  | nil => rfl
  | cons row sessions ih =>
    have hrest := ih fun r hr => hown r (List.mem_cons_of_mem _ hr)
    by_cases hhit : row.token = bindText token ∧ row.expiresAt.all (now < ·) = true
    · have huser := hown row List.mem_cons_self hhit.1
      simp [hhit, huser]
    · rw [List.find?_cons_of_neg (by simpa using hhit), hrest]
      by_cases huser : row.userId = v.id
      · rw [List.filter_cons_of_pos (by simpa using huser), List.map_cons, List.any_cons]
        have hmiss : decide (row.token = bindText token ∧ row.expiresAt.all (now < ·) = true) =
            false := decide_eq_false hhit
        rw [hmiss, Bool.false_or]
      · rw [List.filter_cons_of_neg (by simpa using huser)]

theorem SameView.eval (h : SameView v db db') (now : Int) {β : Type} {q : Query β}
    (hq : q.OwnOf v) : q.eval now db = q.eval now db' := by
  cases q with
  | courseById id =>
    rw [Query.eval, Query.eval, Db.findCourse, Db.findCourse, ← h.courses]
    cases hrow : db.courses.find? (·.id = id) with
    | none => rfl
    | some row => exact congrArg some (h.join (List.mem_of_find?_eq_some hrow))
  | enrolledCount c => exact congrArg Int.ofNat (h.active c)
  | courses => exact h.selectCourses (q := fun _ => true) fun _ _ => rfl
  | coursesLike pattern =>
    refine h.selectCourses (q := fun r => or3 (or3 (some (like (bindText pattern) r.1.courseCode))
      (some (like (bindText pattern) r.1.courseName)))
      (r.2.map fun p => like (bindText pattern) p.2) = some true) fun c u => ?_
    cases u <;> rfl
  | userById id =>
    obtain rfl : id = v.id := hq
    exact h.findUser
  | userByUsername username =>
    have hname : bindText username = v.username := hq
    rw [Query.eval, Query.eval, hname, h.left.userByUsername, h.right.userByUsername, h.account]
  | sessionUser token => rw [h.left.sessionUser now hq, h.right.sessionUser now hq, h.sessions]
  | registrationExists s c =>
    obtain rfl : s = v.id := hq
    have hrows : ∀ db : Db, db.registrations.countP (RegistrationRow.activePair v.id c) =
        (db.registrationsOf v.id).countP (RegistrationRow.activePair v.id c) := by
      intro db
      rw [Db.registrationsOf, List.countP_filter]
      refine List.countP_congr fun r _ => ?_
      simp only [RegistrationRow.activePair, Bool.and_eq_true, decide_eq_true_eq]
      tauto
    exact congrArg Int.ofNat (by rw [hrows, hrows, h.registrations])
  | registrationId s c =>
    obtain rfl : s = v.id := hq
    have hrows : ∀ db : Db, db.registrations.find? (RegistrationRow.ofPair v.id c) =
        (db.registrationsOf v.id).find? (RegistrationRow.ofPair v.id c) := fun db =>
      (Table.find?_filter_of_imp fun r _ hr => decide_eq_true (of_decide_eq_true hr).1).symm
    rw [Query.eval, Query.eval, hrows, hrows, h.registrations]
  | registrationsByStudent s status =>
    obtain rfl : s = v.id := hq
    rw [Query.eval, Query.eval, db.joinedRegistrations_of, db'.joinedRegistrations_of,
      h.registrations, h.account, h.courses]
  | creditsByStudent s =>
    obtain rfl : s = v.id := hq
    have hrows : ∀ db : Db, db.registrations.filter (RegistrationRow.activeOf v.id) =
        (db.registrationsOf v.id).filter fun r => r.status = "active" := by
      intro db
      rw [Db.registrationsOf, List.filter_filter]
      exact List.filter_congr fun r _ => by
        rw [RegistrationRow.activeOf, Bool.decide_and, Bool.and_comm]
    rw [Query.eval, Query.eval, Db.creditsOf, Db.creditsOf, hrows, hrows, h.registrations,
      h.courses]
  | _ => exact hq.elim

end Queries

/-! ## Writes -/

section Writes

variable {v : Viewer} {db db' : Db}

/-- The status of rows of the student is set. -/
def Db.setOwn (db : Db) (p : RegistrationRow → Bool) (status : String) : Db :=
  { db with
    registrations := Table.update p (RegistrationRow.setStatus status) db.registrations }

theorem Db.countP_own (db : Db) {s : Int} {p : RegistrationRow → Bool}
    (hp : ∀ r, p r = true → r.studentId = s) :
    db.registrations.countP p = (db.registrationsOf s).countP p := by
  rw [Db.registrationsOf, List.countP_filter]
  refine List.countP_congr fun r _ => ?_
  rw [Bool.and_eq_true, decide_eq_true_eq]
  exact ⟨fun h => ⟨h, hp r h⟩, fun h => h.1⟩

theorem SameView.setOwn (h : SameView v db db') {p : RegistrationRow → Bool}
    (hp : ∀ r, p r = true → r.studentId = v.id) (status : String) :
    SameView v (db.setOwn p status) (db'.setOwn p status) := by
  have hfits : ∀ db : Db, db.Fits v → (db.setOwn p status).Fits v := by
    refine fun db hdb => ⟨hdb.student, hdb.named, hdb.tokens, fun r hr => ?_⟩
    obtain ⟨x, hx, hxr⟩ := List.mem_map.mp hr
    have hle := hdb.numbered x hx
    rw [← hxr]
    split <;> exact hle
  have hown : ∀ db : Db, (db.setOwn p status).registrationsOf v.id =
      Table.update p (RegistrationRow.setStatus status) (db.registrationsOf v.id) :=
    fun db => Table.filter_update (p := p)
      (q := fun r : RegistrationRow => decide (r.studentId = v.id))
      (f := RegistrationRow.setStatus status) (fun _ _ => rfl) db.registrations
  have hothers : ∀ (db : Db) c, (db.setOwn p status).seatsOfOthers v.id c =
      db.seatsOfOthers v.id c := by
    refine fun db c => Table.countP_update (fun r hr => ?_) _
    simp [RegistrationRow.setStatus, hp r hr]
  refine ⟨hfits db h.left, hfits db' h.right, h.courses, h.owners, h.account, ?_, fun c => ?_,
    h.registrationSeq, h.sessions⟩
  · rw [hown, hown, h.registrations]
  · rw [hothers, hothers, h.others]

/-- A registration of the student gets the next key. -/
def Db.addOwn (db : Db) (s c : Int) : Db :=
  { db with
    registrations := db.registrations ++
      [⟨Table.nextKey db.registrationSeq (db.registrations.map (·.id)), s, c, "active"⟩]
    registrationSeq := Table.nextKey db.registrationSeq (db.registrations.map (·.id)) }

theorem Db.Fits.nextKey (h : db.Fits v) :
    Table.nextKey db.registrationSeq (db.registrations.map (·.id)) =
      max db.registrationSeq 0 + 1 := by
  rw [Table.nextKey]
  congr 1
  have hle := h.numbered
  generalize db.registrations = rows at hle
  induction rows with
  | nil => rfl
  | cons r rows ih =>
    have hr := hle r List.mem_cons_self
    rw [List.map_cons, List.foldr_cons, ih fun x hx => hle x (List.mem_cons_of_mem r hx)]
    omega

theorem SameView.nextKey (h : SameView v db db') :
    Table.nextKey db.registrationSeq (db.registrations.map (·.id)) =
      Table.nextKey db'.registrationSeq (db'.registrations.map (·.id)) := by
  rw [h.left.nextKey, h.right.nextKey, h.registrationSeq]

theorem SameView.addOwn (h : SameView v db db') (c : Int) :
    SameView v (db.addOwn v.id c) (db'.addOwn v.id c) := by
  have hfits : ∀ db : Db, db.Fits v → (db.addOwn v.id c).Fits v := by
    refine fun db hdb => ⟨hdb.student, hdb.named, hdb.tokens, fun r hr => ?_⟩
    obtain hr | hr := List.mem_append.mp hr
    · exact (Table.lt_nextKey (List.mem_map_of_mem hr)).le
    · rw [List.mem_singleton.mp hr]
      exact le_refl _
  have hown : ∀ db : Db, (db.addOwn v.id c).registrationsOf v.id = db.registrationsOf v.id ++
      [⟨Table.nextKey db.registrationSeq (db.registrations.map (·.id)), v.id, c, "active"⟩] := by
    intro db
    rw [Db.registrationsOf, Db.addOwn, List.filter_append, List.filter_singleton,
      decide_eq_true rfl]
    rfl
  have hothers : ∀ (db : Db) d, (db.addOwn v.id c).seatsOfOthers v.id d =
      db.seatsOfOthers v.id d := by
    intro db d
    rw [Db.seatsOfOthers, Db.addOwn, List.countP_append, List.countP_singleton]
    simp [Db.seatsOfOthers]
  refine ⟨hfits db h.left, hfits db' h.right, h.courses, h.owners, h.account, ?_, fun d => ?_,
    h.nextKey, h.sessions⟩
  · rw [hown, hown, h.registrations, h.nextKey]
  · rw [hothers, hothers, h.others]

/-- The student's request may insert the registration on both databases, or on none. -/
theorem SameView.insertRegistration (h : SameView v db db') (c : Int) :
    (db.insertRegistration v.id c = none ∧ db'.insertRegistration v.id c = none) ∨
      ∃ id, db.insertRegistration v.id c = some ⟨db.addOwn v.id c, 1, some id⟩ ∧
        db'.insertRegistration v.id c = some ⟨db'.addOwn v.id c, 1, some id⟩ := by
  have hpair : ∀ db : Db, (db.registrations.all fun r => !r.ofPair v.id c) =
      (db.registrationsOf v.id).all fun r => !r.ofPair v.id c := by
    intro db
    rw [Db.registrationsOf, List.all_filter]
    refine congrArg db.registrations.all (funext fun r => ?_)
    by_cases hs : r.studentId = v.id <;> simp [RegistrationRow.ofPair, hs]
  have hcourse : db.courseExists c = db'.courseExists c :=
    congrArg (List.any · fun row : CourseRow => decide (row.id = c)) h.courses
  rw [Db.insertRegistration, Db.insertRegistration, Db.userExists_eq, Db.userExists_eq, hpair,
    hpair, h.account, h.registrations, hcourse]
  split
  · exact Or.inr ⟨_, rfl, by rw [h.nextKey]; rfl⟩
  · exact Or.inl ⟨rfl, rfl⟩

/-- The rows that belong to a course are deleted with it. -/
def Db.withoutCourse (db : Db) (id : Int) : Db :=
  { db with
    courses := db.courses.filter fun c => c.id ≠ id
    registrations :=
      if db.courseExists id then db.registrations.filter fun r => r.courseId ≠ id
      else db.registrations }

theorem SameView.withoutCourse (h : SameView v db db') (id : Int) :
    SameView v (db.withoutCourse id) (db'.withoutCourse id) := by
  have hcourse : db.courseExists id = db'.courseExists id :=
    congrArg (List.any · fun row : CourseRow => decide (row.id = id)) h.courses
  have hfits : ∀ db : Db, db.Fits v → (db.withoutCourse id).Fits v := by
    refine fun db hdb => ⟨hdb.student, hdb.named, hdb.tokens, fun r hr => hdb.numbered r ?_⟩
    dsimp only [Db.withoutCourse] at hr
    split at hr
    · exact (List.mem_filter.mp hr).1
    · exact hr
  have hown : ∀ db : Db, (db.withoutCourse id).registrationsOf v.id =
      if db.courseExists id then (db.registrationsOf v.id).filter fun r => r.courseId ≠ id
      else db.registrationsOf v.id := by
    intro db
    rw [Db.registrationsOf, Db.withoutCourse]
    dsimp only
    split
    · exact List.filter_comm ..
    · rfl
  have hothers : ∀ (db : Db) c, (db.withoutCourse id).seatsOfOthers v.id c =
      if db.courseExists id ∧ c = id then 0 else db.seatsOfOthers v.id c := by
    intro db c
    rw [Db.seatsOfOthers, Db.withoutCourse]
    dsimp only
    by_cases hexists : db.courseExists id = true
    · rw [if_pos hexists, List.countP_filter]
      by_cases hc : c = id
      · rw [if_pos ⟨hexists, hc⟩, List.countP_eq_zero]
        intro r _
        simp [RegistrationRow.activeIn, hc]
        tauto
      · rw [if_neg fun hboth => hc hboth.2]
        refine List.countP_congr fun r _ => ?_
        simp only [RegistrationRow.activeIn, Bool.and_eq_true, decide_eq_true_eq]
        refine ⟨fun hr => hr.1, fun hr => ⟨hr, ?_⟩⟩
        rw [hr.2.1]
        exact hc
    · rw [if_neg hexists, if_neg fun hboth => hexists hboth.1]
      rfl
  refine ⟨hfits db h.left, hfits db' h.right, ?_, fun c hc => ?_, h.account, ?_, fun c => ?_,
    h.registrationSeq, h.sessions⟩
  · exact congrArg (List.filter _) h.courses
  · exact h.owners c (List.mem_filter.mp hc).1
  · rw [hown, hown, h.registrations, hcourse]
  · rw [hothers, hothers, h.others, hcourse]

/-- Sessions with the token end, and others may begin. -/
def Db.setSessions (db : Db) (token : String) (added : List SessionRow) : Db :=
  { db with sessions := (db.sessions.filter fun row => row.token ≠ token) ++ added }

theorem SameView.setSessions (h : SameView v db db') {added added' : List SessionRow}
    (token : String) (hadded : ∀ row ∈ added, row.userId = v.id)
    (hadded' : ∀ row ∈ added', row.userId = v.id)
    (hsame : added.map (fun row => (row.token, row.expiresAt)) =
      added'.map fun row => (row.token, row.expiresAt)) :
    SameView v (db.setSessions token added) (db'.setSessions token added') := by
  have hfits : ∀ (db : Db) (added : List SessionRow), db.Fits v →
      (∀ row ∈ added, row.userId = v.id) → (db.setSessions token added).Fits v := by
    refine fun db added hdb hadded => ⟨hdb.student, hdb.named, fun row hrow htoken => ?_,
      hdb.numbered⟩
    obtain hrow | hrow := List.mem_append.mp hrow
    · exact hdb.tokens row (List.mem_filter.mp hrow).1 htoken
    · exact hadded row hrow
  have hown : ∀ (db : Db) (added : List SessionRow), (∀ row ∈ added, row.userId = v.id) →
      (db.setSessions token added).sessionsOf v.id =
        ((db.sessionsOf v.id).filter fun p => p.1 ≠ token) ++
          added.map fun row => (row.token, row.expiresAt) := by
    intro db added hadded
    have hall : (added.filter fun row => row.userId = v.id) = added :=
      List.filter_eq_self.mpr fun row hrow => decide_eq_true (hadded row hrow)
    rw [Db.sessionsOf, Db.setSessions, List.filter_append, hall, List.map_append, Db.sessionsOf,
      List.filter_map, List.filter_comm]
    rfl
  refine ⟨hfits db added h.left hadded, hfits db' added' h.right hadded', h.courses, h.owners,
    h.account, h.registrations, h.others, h.registrationSeq, ?_⟩
  rw [hown db added hadded, hown db' added' hadded', h.sessions, hsame]

/-- The sessions that a logout of the student ends. -/
theorem SameView.countP_token (h : SameView v db db') {token : String} (htoken : v.tokens token) :
    db.sessions.countP (fun row => row.token = token) =
      db'.sessions.countP fun row => row.token = token := by
  have hown : ∀ db : Db, db.Fits v → db.sessions.countP (fun row => row.token = token) =
      (db.sessionsOf v.id).countP fun p => p.1 = token := by
    intro db hdb
    rw [Db.sessionsOf, List.countP_map, List.countP_filter]
    refine List.countP_congr fun row hrow => ?_
    simp only [Function.comp_apply, Bool.and_eq_true, decide_eq_true_eq]
    exact ⟨fun heq => ⟨heq, hdb.tokens row hrow (heq ▸ htoken)⟩, fun hboth => hboth.1⟩
  rw [hown db h.left, hown db' h.right, h.sessions]

theorem SameView.apply (h : SameView v db db') (now : Int) {w : Write} (hw : w.OwnOf v) :
    (w.apply now db = none ∧ w.apply now db' = none) ∨
      ∃ a a', w.apply now db = some a ∧ w.apply now db' = some a' ∧ SameView v a.db a'.db ∧
        a.changed = a'.changed := by
  have hcount : ∀ {p : RegistrationRow → Bool}, (∀ r, p r = true → r.studentId = v.id) →
      db.registrations.countP p = db'.registrations.countP p := by
    intro p hp
    rw [db.countP_own hp, db'.countP_own hp, h.registrations]
  cases w with
  | reactivateRegistration s c =>
    obtain rfl : s = v.id := hw
    have hp : ∀ r : RegistrationRow, r.droppedPair v.id c = true → r.studentId = v.id :=
      fun r hr => (of_decide_eq_true hr).1
    exact Or.inr ⟨_, _, rfl, rfl, h.setOwn hp "active", hcount hp⟩
  | dropRegistration s c =>
    obtain rfl : s = v.id := hw
    have hp : ∀ r : RegistrationRow, r.activePair v.id c = true → r.studentId = v.id :=
      fun r hr => (of_decide_eq_true hr).1
    exact Or.inr ⟨_, _, rfl, rfl, h.setOwn hp "dropped", hcount hp⟩
  | insertRegistration s c =>
    obtain rfl : s = v.id := hw
    obtain hnone | ⟨id, hinsert, hinsert'⟩ := h.insertRegistration c
    · exact Or.inl hnone
    · exact Or.inr ⟨_, _, hinsert, hinsert', h.addOwn c, rfl⟩
  | deleteCourse id =>
    refine Or.inr ⟨_, _, rfl, rfl, h.withoutCourse id, ?_⟩
    exact congrArg (List.countP fun c : CourseRow => decide (c.id = id)) h.courses
  | insertSession token s =>
    obtain ⟨-, rfl⟩ := hw
    rw [Write.apply, Write.apply, Db.insertSession, Db.insertSession, Db.userExists_eq,
      Db.userExists_eq, h.account]
    split
    · refine Or.inr ⟨_, _, rfl, rfl, h.setSessions (bindText token) ?_ ?_ rfl, rfl⟩
      · exact fun row hrow => List.mem_singleton.mp hrow ▸ rfl
      · exact fun row hrow => List.mem_singleton.mp hrow ▸ rfl
    · exact Or.inl ⟨rfl, rfl⟩
  | deleteSession token =>
    have hrest : SameView v (db.setSessions (bindText token) [])
        (db'.setSessions (bindText token) []) :=
      h.setSessions (bindText token) (fun _ hrow => absurd hrow List.not_mem_nil)
        (fun _ hrow => absurd hrow List.not_mem_nil) rfl
    exact Or.inr ⟨_, _, rfl, rfl, by simpa [Db.setSessions] using hrest, h.countP_token hw⟩
  | _ => exact hw.elim

end Writes

/-! ## Calls -/

/-- The connections look the same to the student, also where a transaction is undone. -/
structure SameViewOn (v : Viewer) (conn conn' : Conn) : Prop where
  db : SameView v conn.db conn'.db
  saved : Option.Rel (SameView v) conn.saved conn'.saved
  changes : conn.changes = conn'.changes

section Calls

variable {v : Viewer} {conn conn' : Conn} {now : Int}

theorem SameViewOn.write (h : SameViewOn v conn conn') {w : Write} (hw : w.OwnOf v) :
    (conn.write now w).1 = (conn'.write now w).1 ∧
      SameViewOn v (conn.write now w).2 (conn'.write now w).2 := by
  obtain ⟨hnone, hnone'⟩ | ⟨a, a', happly, happly', hdb, hchanged⟩ := h.db.apply now hw
  · rw [Conn.write, Conn.write, hnone, hnone']
    exact ⟨rfl, h.db, h.saved, rfl⟩
  · rw [Conn.write, Conn.write, happly, happly']
    exact ⟨rfl, hdb, h.saved, congrArg Int.ofNat hchanged⟩

theorem SameViewOn.exec (h : SameViewOn v conn conn') {β : Type} {e : SqlCall β}
    (he : e.OwnOf v) : (conn.exec now e).1 = (conn'.exec now e).1 ∧
      SameViewOn v (conn.exec now e).2 (conn'.exec now e).2 := by
  obtain ⟨db, saved, changes, rowid⟩ := conn
  obtain ⟨db', saved', changes', rowid'⟩ := conn'
  cases e with
  | beginImmediate =>
    cases h.saved with
    | none => exact ⟨rfl, h.db, .some h.db, h.changes⟩
    | some hsaved => exact ⟨rfl, h.db, .some hsaved, h.changes⟩
  | commit =>
    cases h.saved with
    | none => exact ⟨rfl, h.db, .none, h.changes⟩
    | some hsaved => exact ⟨rfl, h.db, .none, h.changes⟩
  | rollback =>
    cases h.saved with
    | none => exact ⟨rfl, h.db, .none, h.changes⟩
    | some hsaved => exact ⟨rfl, hsaved, .none, h.changes⟩
  | query q => exact ⟨h.db.eval now he, h⟩
  | write w => exact h.write he
  | changes => exact ⟨h.changes, h⟩
  | lastInsertRowid => exact he.elim

end Calls

end AcademiaCr.Backend
