import AcademiaCr.Backend.ApiRuns

/-!
# The registrations of one student for one course

A pair of a student and a course has no row, an active one or a dropped one. `register_student`
and `drop_student` move it between these states. A row stays once it is there, and its id with it.

## Main definitions

- `ServerCall`, `Sequential`: the calls one after another, of services and of endpoints
- `Db.rowsOf`: the rows of a pair
- `Db.CanRegister`: when a registration is possible
- `Db.Becomes`: the tables after a change of one pair
- `registration_exact`: what the two operations do
-/

namespace AcademiaCr.Backend

open Resumption Transition

/-! ## Sequential runs of all calls -/

/-- A call of a service or a repository, or one of the REST interface. -/
inductive ServerCall where
  | operation (op : Operation)
  | api (call : ApiCall)

/-- The connection after a complete call. -/
def ServerCall.run (now : Int) (conn : Conn) : ServerCall → Conn
  | operation op => op.run now conn
  | api call => call.run now conn

def ServerCall.step (conn : Conn) (call : ServerCall × Int) : Option Conn :=
  some (call.1.run call.2 conn)

/-- The sequential runs from a fresh or a seeded database, latest call first. -/
abbrev Sequential (seed : Bool) (history : List (Event Conn (ServerCall × Int)))
    (conn : Conn) : Prop := Run ServerCall.step (startup seed) history conn

theorem Sound.serverCall {conn : Conn} {now : Int} (h : Sound conn) (call : ServerCall) :
    Sound (call.run now conn) := by
  cases call with
  | operation op => exact h.step op
  | api call => exact h.call call

section Sequential

variable {seed : Bool} {history : List (Event Conn (ServerCall × Int))} {conn : Conn}

theorem Sequential.sound (hr : Sequential seed history conn) : Sound conn := by
  refine hr.invariant (I := Sound) (A := fun _ => True) (startup_sound seed)
    (fun conn call conn' hs hstep _ => ?_) fun _ _ => trivial
  cases hstep
  exact hs.serverCall call.1

end Sequential

/-! ## Properties of the tables -/

namespace Conn

/-- Both the tables in force and those a rollback would restore have the property. -/
structure Holds (P : Db → Prop) (conn : Conn) : Prop where
  db : P conn.db
  saved : ∀ d, conn.saved = some d → P d

variable {P : Db → Prop} {now : Int}

theorem Holds.of_idle {conn : Conn} (hs : conn.saved = none) (h : P conn.db) : conn.Holds P :=
  ⟨h, fun d hd => by rw [hs] at hd; cases hd⟩

/-- What every statement keeps, every call keeps. -/
theorem Holds.exec (hP : ∀ (w : Write) now db, P db → P (w.effect now db)) {β : Type}
    (e : SqlCall β) {conn : Conn} (h : conn.Holds P) : (conn.exec now e).2.Holds P := by
  cases e with
  | beginImmediate =>
    simp only [Conn.exec]
    split
    · exact h
    · exact ⟨h.db, fun d hd => by cases hd; exact h.db⟩
  | commit =>
    simp only [Conn.exec]
    split
    · exact ⟨h.db, fun d hd => by cases hd⟩
    · exact h
  | rollback =>
    simp only [Conn.exec]
    split
    · next d hd => exact ⟨h.saved d hd, fun d hd => by cases hd⟩
    · exact h
  | write w =>
    refine ⟨?_, fun d hd => h.saved d ?_⟩
    · rw [Conn.exec, Conn.write_db]
      exact hP w now conn.db h.db
    · rwa [Conn.exec, Conn.write_saved] at hd
  | query | changes | lastInsertRowid => exact h

theorem Holds.run (hP : ∀ (w : Write) now db, P db → P (w.effect now db)) {α : Type} (p : Sql α)
    {conn : Conn} (h : conn.Holds P) : (conn.run now p).2.Holds P := by
  induction p generalizing conn with
  | ret a => exact h
  | call e next ih => exact ih _ (h.exec hP e)

/-- What every statement keeps, every complete call keeps. -/
theorem Holds.serverCall (hP : ∀ (w : Write) now db, P db → P (w.effect now db)) {conn : Conn}
    (h : conn.Holds P) (call : ServerCall) : (call.run now conn).Holds P := by
  have hrun : ∀ {α : Type} (p : Sql α), (conn.run now p).2.Holds P := fun p => h.run hP p
  obtain op | call := call
  · cases op <;> exact hrun _
  · cases call <;> exact hrun _

end Conn

namespace Db

/-- The ids up to `n` have been given out to registrations, and no row has an id that has
not been. -/
def Issued (n : Int) (db : Db) : Prop :=
  n ≤ db.registrationSeq ∧ ∀ r ∈ db.registrations, r.id ≤ db.registrationSeq

theorem Issued.effect {n : Int} (w : Write) (now : Int) (db : Db) (h : db.Issued n) :
    (w.effect now db).Issued n := by
  have hupdate : ∀ p status, ∀ x ∈ Table.update p (RegistrationRow.setStatus status)
      db.registrations, x.id ≤ db.registrationSeq := by
    intro p status x hx
    obtain ⟨r, hr, rfl⟩ := Table.mem_update.mp hx
    split <;> exact h.2 r hr
  have hfilter : ∀ p : RegistrationRow → Bool, ∀ x ∈ db.registrations.filter p,
      x.id ≤ db.registrationSeq := fun p x hx => h.2 x (List.mem_filter.mp hx).1
  cases w with
  | reactivateRegistration s c => exact ⟨h.1, hupdate _ _⟩
  | dropRegistration s c => exact ⟨h.1, hupdate _ _⟩
  | insertRegistration s c =>
    simp only [Write.effect, Write.apply, insertRegistration]
    split
    · refine ⟨h.1.trans (Table.given_lt_nextKey _ _).le, fun x hx => ?_⟩
      obtain hx | hx := List.mem_append.mp hx
      · exact (Table.lt_nextKey (List.mem_map_of_mem hx)).le
      · rw [List.mem_singleton.mp hx]
        exact le_refl _
    · exact h
  | deleteCourse id =>
    refine ⟨h.1, fun x hx => ?_⟩
    simp only [Write.effect, Write.apply, deleteCourse, Option.map_some, Option.getD_some] at hx
    split at hx
    · exact hfilter _ x hx
    · exact h.2 x hx
  | deleteUser id =>
    simp only [Write.effect, Write.apply, deleteUser, Option.map_some, Option.getD_some]
    split
    · exact ⟨h.1, hfilter _⟩
    · exact h
  | insertCourse code name credits facultyId capacity schedule =>
    simp only [Write.effect, Write.apply, insertCourse]
    split <;> exact h
  | updateCourse name credits facultyId capacity schedule id =>
    simp only [Write.effect, Write.apply, updateCourse]
    split <;> exact h
  | insertUser username hash role name email active =>
    simp only [Write.effect, Write.apply, insertUser]
    split <;> exact h
  | insertSession token userId =>
    simp only [Write.effect, Write.apply, insertSession]
    split <;> exact h
  | updateUser | updatePassword | deleteSession | cleanupSessions => exact h

end Db

theorem startup_issued (seed : Bool) : (startup seed).db.Issued 0 := by
  cases seed with
  | false => exact ⟨le_refl _, fun r hr => by cases hr⟩
  | true =>
    have hseq : 0 ≤ (startup true).db.registrationSeq ∧
        ∀ r ∈ (startup true).db.registrations, r.id ≤ (startup true).db.registrationSeq := by
      decide +kernel
    exact hseq

/-- The ids of all registrations that a run has seen have been given out. -/
theorem Sequential.issued {seed : Bool} {history : List (Event Conn (ServerCall × Int))}
    {conn : Conn} (hr : Sequential seed history conn) :
    (∀ r ∈ conn.db.registrations, r.id ≤ conn.db.registrationSeq) ∧
      ∀ e ∈ history, ∀ r ∈ e.before.db.registrations, r.id ≤ conn.db.registrationSeq := by
  induction hr with
  | start => exact ⟨(startup_issued seed).2, by simp⟩
  | @snoc history conn conn' call hr hstep ih =>
    cases hstep
    have hholds : conn.Holds (Db.Issued conn.db.registrationSeq) :=
      .of_idle (Sequential.sound hr).idle ⟨le_refl _, ih.1⟩
    have hissued := (@Conn.Holds.serverCall _ call.2 Db.Issued.effect _ hholds call.1).db
    refine ⟨hissued.2, fun e he r hmem => ?_⟩
    obtain rfl | he := List.mem_cons.mp he
    · exact (ih.1 r hmem).trans hissued.1
    · exact (ih.2 e he r hmem).trans hissued.1

/-! ## The rows of a pair -/

namespace Db

/-- The rows of a student for a course. -/
def rowsOf (db : Db) (s c : Int) : List RegistrationRow :=
  db.registrations.filter (RegistrationRow.ofPair s c)

/-- Student and course exist, the student has no active row for it and it has a free seat. -/
structure CanRegister (db : Db) (s c : Int) : Prop where
  user : ∃ u ∈ db.users, u.id = s
  seat : ∃ course ∈ db.courses, course.id = c ∧ (db.active c : Int) < course.capacity
  inactive : ∀ r ∈ db.registrations, r.activePair s c = false

/-- The pair has exactly the given row, and every other row of every table is as before. -/
structure Becomes (db : Db) (s c : Int) (row : RegistrationRow) (db' : Db) : Prop where
  pair : db'.rowsOf s c = [row]
  others : (db'.registrations.filter fun r => !r.ofPair s c) =
    db.registrations.filter fun r => !r.ofPair s c
  users : db'.users = db.users
  courses : db'.courses = db.courses
  sessions : db'.sessions = db.sessions

variable {db : Db} {s c : Int}

theorem mem_rowsOf {r : RegistrationRow} :
    r ∈ db.rowsOf s c ↔ r ∈ db.registrations ∧ r.studentId = s ∧ r.courseId = c := by
  simp [rowsOf, RegistrationRow.ofPair]

/-- A pair has no row, an active one or a dropped one. -/
theorem Valid.pair_cases (hv : db.Valid) (s c : Int) :
    db.rowsOf s c = [] ∨ (∃ id, db.rowsOf s c = [⟨id, s, c, "active"⟩]) ∨
      ∃ id, db.rowsOf s c = [⟨id, s, c, "dropped"⟩] := by
  have hle : (db.rowsOf s c).length ≤ 1 := by
    rw [rowsOf, ← List.countP_eq_length_filter]
    exact hv.count_le_one s c
  rcases hrows : db.rowsOf s c with _ | ⟨⟨id, s', c', status⟩, _ | ⟨r', rest⟩⟩
  · exact Or.inl rfl
  · have hmem : ⟨id, s', c', status⟩ ∈ db.rowsOf s c := by simp [hrows]
    obtain ⟨hrow, rfl, rfl⟩ := mem_rowsOf.mp hmem
    rcases hv.status _ hrow with hstatus | hstatus <;> cases hstatus
    · exact Or.inr (Or.inl ⟨id, rfl⟩)
    · exact Or.inr (Or.inr ⟨id, rfl⟩)
  · rw [hrows] at hle
    simp at hle

/-- The number of active rows of a pair. -/
theorem countP_activePair (db : Db) (s c : Int) :
    db.registrations.countP (RegistrationRow.activePair s c) =
      (db.rowsOf s c).countP (·.status = "active") := by
  rw [rowsOf, List.countP_filter]
  refine List.countP_congr fun r _ => ?_
  simp [RegistrationRow.activePair, RegistrationRow.ofPair, and_assoc, and_comm]

theorem countP_droppedPair (db : Db) (s c : Int) :
    db.registrations.countP (RegistrationRow.droppedPair s c) =
      (db.rowsOf s c).countP (·.status = "dropped") := by
  rw [rowsOf, List.countP_filter]
  refine List.countP_congr fun r _ => ?_
  simp [RegistrationRow.droppedPair, RegistrationRow.ofPair, and_assoc, and_comm]

theorem enrolledIn_iff : db.enrolledIn s c = true ↔ ∃ r ∈ db.rowsOf s c, r.status = "active" := by
  simp [enrolledIn, countP_activePair, List.countP_pos_iff]

/-- An update of the status of rows of a pair changes nothing else. -/
theorem becomes_setStatus {p : RegistrationRow → Bool} (hp : ∀ r, p r = true → r.ofPair s c = true)
    (status : String) {row : RegistrationRow}
    (hrow : Table.update p (RegistrationRow.setStatus status) (db.rowsOf s c) = [row]) :
    db.Becomes s c row { db with
      registrations := Table.update p (RegistrationRow.setStatus status) db.registrations } where
  pair := by
    rw [← hrow]
    exact Table.filter_update (f := RegistrationRow.setStatus status) (fun _ _ => rfl) _
  others := by
    rw [Table.filter_update (f := RegistrationRow.setStatus status) fun _ _ => rfl,
      Table.update_eq_self]
    intro r hr hpr
    have hother := (List.mem_filter.mp hr).2
    rw [hp r hpr] at hother
    cases hother
  users := rfl
  courses := rfl
  sessions := rfl

/-- A dropped row is active again, under its id. -/
theorem becomes_reactivated {id : Int} (h : db.rowsOf s c = [⟨id, s, c, "dropped"⟩]) :
    db.Becomes s c ⟨id, s, c, "active"⟩ (db.reactivated s c) := by
  refine becomes_setStatus (fun r hr => ?_) "active" ?_
  · simp only [RegistrationRow.droppedPair, decide_eq_true_eq] at hr
    simp [RegistrationRow.ofPair, hr]
  · rw [h]
    simp [RegistrationRow.droppedPair, RegistrationRow.setStatus]

theorem becomes_deactivated {id : Int} (h : db.rowsOf s c = [⟨id, s, c, "active"⟩]) :
    db.Becomes s c ⟨id, s, c, "dropped"⟩ (db.deactivated s c) := by
  refine becomes_setStatus (fun r hr => ?_) "dropped" ?_
  · simp only [RegistrationRow.activePair, decide_eq_true_eq] at hr
    simp [RegistrationRow.ofPair, hr]
  · rw [h]
    simp [RegistrationRow.activePair, RegistrationRow.setStatus]

/-- A pair without a row gets one under a new id. -/
theorem becomes_inserted (h : db.rowsOf s c = []) (hu : db.userExists s = true)
    (hc : db.courseExists c = true) : ∃ applied id, db.insertRegistration s c = some applied ∧
      applied.rowid = some id ∧ db.registrationSeq < id ∧
      db.Becomes s c ⟨id, s, c, "active"⟩ applied.db := by
  have hnone : ∀ r ∈ db.registrations, ¬ r.ofPair s c = true := List.filter_eq_nil_iff.mp h
  have hall : (db.registrations.all fun r => !r.ofPair s c) = true :=
    List.all_eq_true.mpr fun r hr => by simpa using hnone r hr
  refine ⟨_, _, if_pos ⟨hu, hc, hall⟩, rfl, Table.given_lt_nextKey _ _, ?_⟩
  have hnew : ∀ id : Int, (⟨id, s, c, "active"⟩ : RegistrationRow).ofPair s c = true := by
    simp [RegistrationRow.ofPair]
  refine ⟨?_, ?_, rfl, rfl, rfl⟩
  · rw [rowsOf, List.filter_append, show db.registrations.filter _ = [] from h]
    simp [hnew]
  · rw [List.filter_append]
    simp [hnew]

/-! ## The two operations -/

/-- What a registration that succeeds does: a dropped row is active again, or a new row has an
id that was never given out. -/
structure Registers (db : Db) (s c id : Int) (db' : Db) : Prop where
  becomes : db.Becomes s c ⟨id, s, c, "active"⟩ db'
  before : db.rowsOf s c = [⟨id, s, c, "dropped"⟩] ∨
    db.rowsOf s c = [] ∧ db.registrationSeq < id

theorem CanRegister.rowsOf_cases (h : db.CanRegister s c) (hv : db.Valid) :
    db.rowsOf s c = [] ∨ ∃ id, db.rowsOf s c = [⟨id, s, c, "dropped"⟩] := by
  obtain hnone | ⟨id, hactive⟩ | hdropped := hv.pair_cases s c
  · exact Or.inl hnone
  · have hmem : (⟨id, s, c, "active"⟩ : RegistrationRow) ∈ db.rowsOf s c := by simp [hactive]
    have := h.inactive _ (mem_rowsOf.mp hmem).1
    simp [RegistrationRow.activePair] at this
  · exact Or.inr hdropped

/-- Where a registration is possible, the pair can be given its row. -/
theorem CanRegister.activate (h : db.CanRegister s c) (hv : db.Valid) :
    ∃ id db', db.activate s c = some (id, db') ∧ db.Registers s c id db' := by
  obtain hnone | ⟨id, hdropped⟩ := h.rowsOf_cases hv
  · obtain ⟨course, hcourse, hid, -⟩ := h.seat
    obtain ⟨applied, id, hins, hrowid, hnew, hbecomes⟩ :=
      becomes_inserted hnone (userExists_iff.mpr h.user)
          (courseExists_iff.mpr ⟨course, hcourse, hid⟩)
    refine ⟨id, applied.db, ?_, hbecomes, Or.inr ⟨hnone, hnew⟩⟩
    simp [Db.activate, countP_droppedPair, hnone, hins, hrowid]
  · have hbecomes := becomes_reactivated hdropped
    refine ⟨id, db.reactivated s c, ?_, hbecomes, Or.inl hdropped⟩
    have hfind : (db.reactivated s c).registrations.find? (RegistrationRow.ofPair s c) =
        some ⟨id, s, c, "active"⟩ := by
      rw [← List.head?_filter, show List.filter _ _ = [_] from hbecomes.pair]
      rfl
    simp [Db.activate, countP_droppedPair, hdropped, hfind]

/-- A registration succeeds where it is possible. -/
theorem register_of_canRegister (h : db.CanRegister s c) (hv : db.Valid) :
    (db.register s c).1.success = true ∧
      db.Registers s c (db.register s c).1.registrationId (db.register s c).2 := by
  obtain ⟨course, hcourse, rfl, hfree⟩ := h.seat
  have hfind : db.findCourse course.id = some course := Table.find?_key hv.courseIds hcourse
  have hnot : ¬ db.enrolledIn s course.id = true := by
    rw [enrolledIn, decide_eq_true_eq, Nat.not_lt, Nat.le_zero, List.countP_eq_zero]
    exact fun r hr => by simp [h.inactive r hr]
  obtain ⟨id, db', hactivate, hregisters⟩ := h.activate hv
  have hseat : ¬ course.capacity - (db.active course.id : Int) ≤ 0 := by omega
  simp only [register, hfind, if_neg hnot, if_neg hseat, hactivate]
  exact ⟨trivial, hregisters⟩

/-- Only a user gets a row. -/
theorem activate_user (hv : db.Valid) {out : Int × Db} (h : db.activate s c = some out) :
    ∃ u ∈ db.users, u.id = s := by
  simp only [Db.activate] at h
  split at h
  · next hdropped =>
    obtain ⟨r, hr, hpair⟩ := List.countP_pos_iff.mp hdropped
    simp only [RegistrationRow.droppedPair, decide_eq_true_eq] at hpair
    exact hpair.1 ▸ hv.student r hr
  · obtain ⟨applied, hins, -⟩ := Option.map_eq_some_iff.mp h
    exact userExists_iff.mp (insertRegistration_eq_some hins).1

/-- Where it is not, it changes nothing. -/
theorem register_of_not_canRegister (h : ¬ db.CanRegister s c) (hv : db.Valid) :
    (db.register s c).1.success = false ∧ (db.register s c).2 = db := by
  simp only [register]
  split
  · exact ⟨rfl, rfl⟩
  · next course hfind =>
    split
    · exact ⟨rfl, rfl⟩
    · next hnot =>
      split
      · exact ⟨rfl, rfl⟩
      · next hfull =>
        split
        · exact ⟨rfl, rfl⟩
        · next id db' hactivate =>
          refine absurd ⟨?_, ?_, ?_⟩ h
          · exact activate_user hv hactivate
          · exact ⟨course, findCourse_mem hfind, findCourse_id hfind, by omega⟩
          · intro r hr
            have := List.countP_eq_zero.mp (by simpa [enrolledIn] using hnot) r hr
            simpa using this

/-- A drop changes the status of the active row, if there is one, and nothing else. -/
theorem drop_cases (hv : db.Valid) (s c : Int) :
    (∃ id, db.rowsOf s c = [⟨id, s, c, "active"⟩] ∧ (db.drop s c).1.success = true ∧
      db.Becomes s c ⟨id, s, c, "dropped"⟩ (db.drop s c).2) ∨
    (∀ r ∈ db.registrations, r.activePair s c = false) ∧ (db.drop s c).1.success = false ∧
      (db.drop s c).2 = db := by
  by_cases h : db.enrolledIn s c = true
  · obtain ⟨r, hr, hstatus⟩ := enrolledIn_iff.mp h
    obtain hnone | ⟨id, hactive⟩ | ⟨id, hdropped⟩ := hv.pair_cases s c
    · rw [hnone] at hr
      cases hr
    · have hbecomes := becomes_deactivated hactive
      refine Or.inl ⟨id, hactive, ?_, ?_⟩
      · simp only [drop, if_pos h]
        split <;> rfl
      · simp only [drop, if_pos h]
        split <;> exact hbecomes
    · rw [hdropped, List.mem_singleton] at hr
      rw [hr] at hstatus
      simp at hstatus
  · refine Or.inr ⟨fun r hr => ?_, ?_, ?_⟩
    · have := List.countP_eq_zero.mp (by simpa [enrolledIn] using h) r hr
      simpa using this
    · rw [drop, if_neg h]
    · rw [drop, if_neg h]

end Db

/-! ## The calls -/

section Calls

variable {conn : Conn}

/-- A complete registration, by what it answers. -/
theorem Sound.register_cases (h : Sound conn) (now s c : Int) :
    let after := conn.run now (RegistrationService.registerStudent s c)
    (conn.db.CanRegister s c ∧ after.1.success = true ∧
        conn.db.Registers s c after.1.registrationId after.2.db) ∨
      (¬ conn.db.CanRegister s c ∧ after.1.success = false ∧ after.2.db = conn.db) := by
  have hrun := Conn.run_registerStudent now s c h.idle
  obtain ⟨hresult, hdb⟩ := Prod.ext_iff.mp hrun
  dsimp only at hresult hdb ⊢
  rw [hresult, hdb]
  by_cases hcan : conn.db.CanRegister s c
  · exact Or.inl ⟨hcan, Db.register_of_canRegister hcan h.valid⟩
  · exact Or.inr ⟨hcan, Db.register_of_not_canRegister hcan h.valid⟩

/-- A complete drop, by what it answers. -/
theorem Sound.drop_cases (h : Sound conn) (now s c : Int) :
    let after := conn.run now (RegistrationService.dropStudent s c)
    (∃ id, conn.db.rowsOf s c = [⟨id, s, c, "active"⟩] ∧ after.1.success = true ∧
        conn.db.Becomes s c ⟨id, s, c, "dropped"⟩ after.2.db) ∨
      (∀ r ∈ conn.db.registrations, r.activePair s c = false) ∧ after.1.success = false ∧
        after.2.db = conn.db := by
  have hrun := Conn.run_dropStudent now s c h.idle
  obtain ⟨hresult, hdb⟩ := Prod.ext_iff.mp hrun
  dsimp only at hresult hdb ⊢
  rw [hresult, hdb]
  exact Db.drop_cases h.valid s c

/-- A registration or a drop of the pair leaves it one row, under the same id. -/
theorem Sound.keeps_row (h : Sound conn) {s c now : Int} {op : Operation}
    (hop : op = .registerStudent s c ∨ op = .dropStudent s c) {row : RegistrationRow}
    (hrow : conn.db.rowsOf s c = [row]) :
    ∃ status, (op.run now conn).db.rowsOf s c = [{ row with status }] := by
  obtain rfl | rfl := hop
  · obtain ⟨-, -, hregisters⟩ | ⟨-, -, hdb⟩ := h.register_cases now s c
    · obtain hdropped | ⟨hnone, -⟩ := hregisters.before
      · rw [hrow, List.singleton_inj] at hdropped
        rw [hdropped]
        exact ⟨_, hregisters.becomes.pair⟩
      · rw [hrow] at hnone
        cases hnone
    · refine ⟨row.status, ?_⟩
      rw [Operation.run, hdb]
      exact hrow
  · obtain ⟨id, hactive, -, hbecomes⟩ | ⟨-, -, hdb⟩ := h.drop_cases now s c
    · rw [hrow, List.singleton_inj] at hactive
      rw [hactive]
      exact ⟨_, hbecomes.pair⟩
    · refine ⟨row.status, ?_⟩
      rw [Operation.run, hdb]
      exact hrow

/-- So does every sequence of them. -/
theorem Sound.keeps_row_runAll (h : Sound conn) {s c : Int} {row : RegistrationRow}
    (hrow : conn.db.rowsOf s c = [row]) {ops : List (Operation × Int)}
    (hops : ∀ op ∈ ops, op.1 = .registerStudent s c ∨ op.1 = .dropStudent s c) :
    ∃ status, (Operation.runAll conn ops).db.rowsOf s c = [{ row with status }] := by
  induction ops generalizing conn row with
  | nil => exact ⟨row.status, hrow⟩
  | cons op ops ih =>
    obtain ⟨status, hstep⟩ := @Sound.keeps_row _ h _ _ op.2 _ (hops op List.mem_cons_self) _ hrow
    obtain ⟨status', hrest⟩ := ih (h.step op.1) hstep fun op' hop' =>
      hops op' (List.mem_cons_of_mem op hop')
    exact ⟨status', hrest⟩

end Calls

/-- In every sequential run, a registration succeeds exactly where it is possible, a drop exactly
where the student has an active row; each then changes that row and nothing else, a failure
changes nothing, a throw inside a transaction undoes it, and the row keeps its id from then
on. -/
theorem registration_exact {seed : Bool} {history : List (Event Conn (ServerCall × Int))}
    {conn : Conn} (hr : Sequential seed history conn) (now s c : Int) :
    let registered := conn.run now (RegistrationService.registerStudent s c)
    let dropped := conn.run now (RegistrationService.dropStudent s c)
    (registered.1.success = true ↔ conn.db.CanRegister s c) ∧
    (registered.1.success = true →
      conn.db.Becomes s c ⟨registered.1.registrationId, s, c, "active"⟩ registered.2.db ∧
      (∀ row ∈ conn.db.rowsOf s c,
        row = ⟨registered.1.registrationId, s, c, "dropped"⟩) ∧
      (conn.db.rowsOf s c = [] → ∀ past, past = conn ∨ (∃ e ∈ history, past = e.before) →
        ∀ row ∈ past.db.registrations, row.id ≠ registered.1.registrationId)) ∧
    (dropped.1.success = true ↔ ∃ row ∈ conn.db.registrations, row.activePair s c = true) ∧
    (dropped.1.success = true → ∃ id, conn.db.rowsOf s c = [⟨id, s, c, "active"⟩] ∧
      conn.db.Becomes s c ⟨id, s, c, "dropped"⟩ dropped.2.db) ∧
    (registered.1.success = false → registered.2.db = conn.db) ∧
    (dropped.1.success = false → dropped.2.db = conn.db) ∧
    registered.2.saved = none ∧ dropped.2.saved = none ∧
    (∀ (func : SqlExcept RegistrationResult) (e : Exn), WithinExcept (fun _ => True) func →
      (conn.runExcept now (Database.transaction func)).1 = .error e →
      (conn.runExcept now (Database.transaction func)).2.db = conn.db ∧
        (conn.runExcept now (Database.transaction func)).2.saved = none) ∧
    (∀ row, conn.db.rowsOf s c = [row] → ∀ ops : List (Operation × Int),
      (∀ op ∈ ops, op.1 = .registerStudent s c ∨ op.1 = .dropStudent s c) →
      ∃ status, (Operation.runAll conn ops).db.rowsOf s c = [{ row with status }]) := by
  have h := Sequential.sound hr
  intro registered dropped
  have hregister : _ ∨ _ := h.register_cases now s c
  have hdrop : _ ∨ _ := h.drop_cases now s c
  have hactive : ∀ id, conn.db.rowsOf s c = [⟨id, s, c, "active"⟩] →
      ∃ row ∈ conn.db.registrations, row.activePair s c = true := by
    intro id hrows
    have hmem : (⟨id, s, c, "active"⟩ : RegistrationRow) ∈ conn.db.rowsOf s c := by simp [hrows]
    exact ⟨_, (Db.mem_rowsOf.mp hmem).1, by simp [RegistrationRow.activePair]⟩
  refine ⟨?_, ?_, ?_, ?_, ?_, ?_, Conn.run_registerStudent_saved now s c h.idle,
    Conn.run_dropStudent_saved now s c h.idle, ?_, fun row hrow ops => h.keeps_row_runAll hrow⟩
  · obtain ⟨hcan, hok, -⟩ | ⟨hcan, hno, -⟩ := hregister
    · exact iff_of_true hok hcan
    · exact iff_of_false (by rw [hno]; exact Bool.false_ne_true) hcan
  · intro hok
    obtain ⟨-, -, hregisters⟩ | ⟨-, hno, -⟩ := hregister
    · refine ⟨hregisters.becomes, fun row hrow => ?_, fun hnone past hpast row hrow => ?_⟩
      · obtain hdropped | ⟨hnone, -⟩ := hregisters.before
        · rwa [hdropped, List.mem_singleton] at hrow
        · rw [hnone] at hrow
          cases hrow
      · have hnew : conn.db.registrationSeq < registered.1.registrationId := by
          obtain hdropped | ⟨-, hnew⟩ := hregisters.before
          · rw [hdropped] at hnone
            cases hnone
          · exact hnew
        have hold : row.id ≤ conn.db.registrationSeq := by
          obtain rfl | ⟨e, he, rfl⟩ := hpast
          · exact (Sequential.issued hr).1 row hrow
          · exact (Sequential.issued hr).2 e he row hrow
        omega
    · rw [hno] at hok
      cases hok
  · obtain ⟨id, hrows, hok, -⟩ | ⟨hnone, hno, -⟩ := hdrop
    · exact iff_of_true hok (hactive id hrows)
    · refine iff_of_false (by rw [hno]; exact Bool.false_ne_true) ?_
      rintro ⟨row, hrow, hpair⟩
      rw [hnone row hrow] at hpair
      cases hpair
  · intro hok
    obtain ⟨id, hrows, -, hbecomes⟩ | ⟨-, hno, -⟩ := hdrop
    · exact ⟨id, hrows, hbecomes⟩
    · rw [hno] at hok
      cases hok
  · intro hno
    obtain ⟨-, hok, -⟩ | ⟨-, -, hdb⟩ := hregister
    · rw [hok] at hno
      cases hno
    · exact hdb
  · intro hno
    obtain ⟨id, -, hok, -⟩ | ⟨-, -, hdb⟩ := hdrop
    · rw [hok] at hno
      cases hno
    · exact hdb
  · intro func e hfunc herror
    rw [Conn.runExcept_transaction hfunc h.idle] at herror ⊢
    split at herror
    · cases herror
    · exact ⟨rfl, rfl⟩

/-- On the seeded database student 5 can register for course 7. -/
theorem registration_exact_seeded :
    ((startup true).run 0 (RegistrationService.registerStudent 5 7)).1.success = true := by
  have hcan : (startup true).db.CanRegister 5 7 :=
    ⟨by decide +kernel, by decide +kernel, by decide +kernel⟩
  exact (registration_exact (Run.start : Sequential true [] (startup true)) 0 5 7).1.mpr hcan

end AcademiaCr.Backend
