import AcademiaCr.Backend.RelyGuarantee
import AcademiaCr.Backend.SequentialRuns

/-!
# Changing a capacity while students register

`update_course` reads the number of active registrations and writes the new capacity in
separate statements, under no lock; `register_student` reads the capacity and writes its
row. A course stays within its capacity in every run in which neither acts on a reading
that the other has made stale.

## Main definitions

- `Db.Covered`: the capacity of a course covers its active registrations
- `Phase.pendingUpdate`, `Phase.deciding`: threads between their reading and their write
- `Unraced`: a step that makes no such reading stale
-/

namespace AcademiaCr.Backend

open Resumption Transition

/-! ## The bound on one course -/

namespace Db

/-- The capacity of the course covers its active registrations. -/
def Covered (db : Db) (c : Int) : Prop :=
  ∀ row ∈ db.courses, row.id = c → (db.active c : Int) ≤ row.capacity

instance (db : Db) (c : Int) : Decidable (db.Covered c) :=
  inferInstanceAs (Decidable (∀ row ∈ db.courses, row.id = c → _ ≤ row.capacity))

/-- The course has `n` seats, or a free one. -/
def Room (db : Db) (c n : Int) : Prop :=
  ∀ row ∈ db.courses, row.id = c → n ≤ row.capacity ∨ (db.active c : Int) < row.capacity

variable {db : Db} {c : Int}

theorem enrolledIn_congr {db' : Db} (h : db'.registrations = db.registrations) (s c : Int) :
    db'.enrolledIn s c = db.enrolledIn s c := by
  simp only [enrolledIn, h]

theorem active_congr {db' : Db} (h : db'.registrations = db.registrations) (c : Int) :
    db'.active c = db.active c := by
  simp only [active, h]

theorem room_of_findCourse (hv : db.Valid) {row : CourseRow} (h : db.findCourse c = some row) :
    db.Room c row.capacity := by
  intro row' hmem hid
  have hsame : row' = row := Table.eq_of_key_eq hv.courseIds hmem (findCourse_mem h)
    (hid.trans (findCourse_id h).symm)
  exact Or.inl (by rw [hsame])

/-- With a free seat in sight of the reading, there is one. -/
theorem Room.lt {n : Int} (h : db.Room c n) (hn : (db.active c : Int) < n) :
    ∀ row ∈ db.courses, row.id = c → (db.active c : Int) < row.capacity :=
  fun row hmem hid => (h row hmem hid).elim (fun hle => by omega) id

theorem covered_reactivated (hv : db.Valid) {s n : Int} (h : db.Room c n)
    (hn : (db.active c : Int) < n) : (db.reactivated s c).Covered c := by
  intro row hmem hid
  have hlt := h.lt hn row hmem hid
  have hone := count_dropped_le hv s c
  rw [active_reactivated]
  omega

theorem covered_insertRegistration {s n : Int} (h : db.Room c n) (hn : (db.active c : Int) < n)
    {a : Applied} (ha : db.insertRegistration s c = some a) : a.db.Covered c := by
  intro row hmem hid
  rw [insertRegistration_courses ha] at hmem
  have hlt := h.lt hn row hmem hid
  rw [active_insertRegistration ha, if_pos rfl]
  omega

theorem covered_deactivated (h : db.Covered c) (s : Int) : (db.deactivated s c).Covered c := by
  intro row hmem hid
  have hle := active_deactivated_le db s c c
  have := h row hmem hid
  omega

section Update

variable {name schedule : String} {credits facultyId n id : Int} {a : Applied}

theorem updateCourse_registrations
    (ha : db.updateCourse name credits facultyId n schedule id = some a) :
    a.db.registrations = db.registrations := by
  simp only [updateCourse] at ha
  split at ha
  · cases ha
  · cases ha
    rfl

/-- The rows of the course after an update have the new capacity. -/
theorem updateCourse_capacity
    (ha : db.updateCourse name credits facultyId n schedule c = some a) :
    ∀ row ∈ a.db.courses, row.id = c → row.capacity = n := by
  simp only [updateCourse] at ha
  split at ha
  · cases ha
  · cases ha
    intro row hmem hid
    obtain ⟨row₀, -, rfl⟩ := Table.mem_update.mp hmem
    by_cases h : row₀.id = c
    · simp [h]
    · simp [h] at hid

theorem covered_updateCourse (hn : (db.active c : Int) ≤ n)
    (ha : db.updateCourse name credits facultyId n schedule c = some a) : a.db.Covered c := by
  intro row hmem hid
  rw [updateCourse_capacity ha row hmem hid, active_congr (updateCourse_registrations ha)]
  exact hn

/-- An update that leaves a free seat, or does not lower the capacity, leaves room. -/
theorem room_updateCourse
    (h : (db.active c : Int) < n ∨ ∀ row ∈ db.courses, row.id = c → row.capacity ≤ n) {m : Int}
    (hroom : db.Room c m)
    (ha : db.updateCourse name credits facultyId n schedule c = some a) : a.db.Room c m := by
  intro row hmem hid
  rw [updateCourse_capacity ha row hmem hid, active_congr (updateCourse_registrations ha)]
  obtain hlt | hle := h
  · exact Or.inr hlt
  · -- the row existed before, with no more seats
    simp only [updateCourse] at ha
    split at ha
    · cases ha
    · cases ha
      obtain ⟨row₀, hmem₀, rfl⟩ := Table.mem_update.mp hmem
      have hid₀ : row₀.id = c := by
        by_cases h : row₀.id = c
        · exact h
        · simp [h] at hid
      have hcap := hle row₀ hmem₀ hid₀
      rcases hroom row₀ hmem₀ hid₀ with h | h <;> omega

end Update

end Db

/-! ## Threads between a reading and a write -/

/-- The calls that `register_student` makes after reading the course and up to its row. -/
def SqlCall.deciding : {β : Type} → SqlCall β → Bool
  | _, .query (.registrationExists _ _) => true
  | _, .query (.enrolledCount _) => true
  | _, .write (.reactivateRegistration _ _) => true
  | _, .changes => true
  | _, .write (.insertRegistration _ _) => true
  | _, _ => false

namespace Phase

/-- The capacity that the thread is about to write to the course. -/
def pendingUpdate (c : Int) : Phase → Option Int
  | body _ _ (.call (.write (.updateCourse _ _ _ capacity _ id)) _) =>
    if id = c then some capacity else none
  | _ => none

/-- The thread has read the course for a registration and not yet activated its row. -/
def deciding (c : Int) (db : Db) : Phase → Bool
  | body (.registerStudent s c') _ (.call e _) => c' = c && e.deciding && !db.enrolledIn s c
  | _ => false

end Phase

variable {ι : Type}

/-- A step that takes a seat leaves enough of them to every pending update of the capacity,
and an update leaves a free seat to every registration under way, unless it does not lower
the capacity. -/
def Unraced (c : Int) (e : Happening ι) : Prop :=
  (e.writes = true → e.before.conn.db.active c < e.after.conn.db.active c →
    ∀ j, ∀ n ∈ (e.before.threads j).phase.pendingUpdate c, (e.after.conn.db.active c : Int) ≤ n) ∧
  ∀ n ∈ (e.before.threads e.thread).phase.pendingUpdate c,
    ∀ j, (e.before.threads j).phase.deciding c e.before.conn.db = true →
      (e.before.conn.db.active c : Int) < n ∨
        ∀ row ∈ e.before.conn.db.courses, row.id = c → row.capacity ≤ n

instance (c : Int) (e : Happening ι) [Fintype ι] : Decidable (Unraced c e) :=
  inferInstanceAs (Decidable (_ ∧ _))

/-- The requests of the race: registrations, drops and updates of one course. -/
def OnCourse (c : Int) : Request → Prop
  | .registerStudent _ c' | .dropStudent _ c' => c' = c
  | .updateCourse course _ => course.id = c
  | .http _ => False

/-! ## Specifications -/

/-- What every call keeps: constraints, and the bound on the tables in force and those that a
rollback would restore. -/
structure Guarded (c : Int) (conn : Conn) : Prop where
  valid : conn.Valid
  covered : conn.db.Covered c
  saved : ∀ d, conn.saved = some d → d.Covered c

/-- Inside a transaction of a registration call: a rollback frees seats at most. -/
structure InTransaction (c : Int) (conn : Conn) : Prop where
  guarded : Guarded c conn
  saved : ∃ d, conn.saved = some d ∧ d.active c ≤ conn.db.active c

/-- The others leave registrations and the open transaction alone. -/
def keepsRegistrations (c : Int) (conn conn' : Conn) : Prop :=
  (Guarded c conn → Guarded c conn') ∧ conn'.db.registrations = conn.db.registrations ∧
    conn'.saved = conn.saved

/-- What a registration call on the course relies on and guarantees. -/
def registerSpec (s c : Int) : Spec where
  rely e conn conn' := keepsRegistrations c conn conn' ∧
    (e.deciding = true → conn.db.enrolledIn s c = false → ∀ n, conn.db.Room c n → conn'.db.Room c n)
  done _ _ := True
  guar e conn conn' := Guarded c conn' ∧
    (match e with
      | .write _ => True
      | _ => conn'.db.active c ≤ conn.db.active c)
  post _ _ := True

def dropSpec (c : Int) : Spec where
  rely _ := keepsRegistrations c
  done _ _ := True
  guar _ conn conn' := Guarded c conn' ∧ conn'.db.active c ≤ conn.db.active c
  post _ _ := True

def updateSpec (c : Int) : Spec where
  rely e conn conn' := (Guarded c conn → Guarded c conn') ∧
    (match e with
      | .write (.updateCourse _ _ _ n _ id) =>
        id = c → (conn.db.active c : Int) ≤ n → (conn'.db.active c : Int) ≤ n
      | _ => True)
  done _ _ := True
  guar e conn conn' := Guarded c conn' ∧ conn'.db.registrations = conn.db.registrations ∧
    conn'.saved = conn.saved ∧
    (match e with
      | .write (.updateCourse _ _ _ _ _ id) => id = c
      | .write _ => False
      | _ => conn' = conn)
  post _ _ := True

def raceSpec (c : Int) : Request → Spec
  | .registerStudent s _ => registerSpec s c
  | .dropStudent _ _ => dropSpec c
  | .updateCourse _ _ => updateSpec c
  | .http _ => ⟨fun _ _ _ => True, fun _ _ => True, fun _ _ _ => True, fun _ _ => True⟩

theorem raceSpec_lawful (c : Int) (r : Request) : (raceSpec c r).Lawful := by
  have hkeeps : ∀ c₁ c₂ c₃, keepsRegistrations c c₁ c₂ → keepsRegistrations c c₂ c₃ →
      keepsRegistrations c c₁ c₃ :=
    fun _ _ _ h₁ h₂ => ⟨h₂.1 ∘ h₁.1, h₂.2.1.trans h₁.2.1, h₂.2.2.trans h₁.2.2⟩
  cases r with
  | registerStudent s c' =>
    refine ⟨fun e conn => ⟨⟨id, rfl, rfl⟩, fun _ _ _ => id⟩, fun _ => trivial, ?_,
      fun _ _ _ _ _ => trivial⟩
    rintro β e c₁ c₂ c₃ ⟨hk₁, hr₁⟩ ⟨hk₂, hr₂⟩
    refine ⟨hkeeps c₁ c₂ c₃ hk₁ hk₂, fun hd hne n hroom => ?_⟩
    have hne₂ : c₂.db.enrolledIn s c = false := (Db.enrolledIn_congr hk₁.2.1 s c).trans hne
    exact hr₂ hd hne₂ n (hr₁ hd hne n hroom)
  | dropStudent s c' =>
    exact ⟨fun e conn => ⟨id, rfl, rfl⟩, fun _ => trivial, fun _ => hkeeps,
      fun _ _ _ _ _ => trivial⟩
  | updateCourse course requester =>
    refine ⟨fun e conn => ⟨id, ?_⟩, fun _ => trivial, ?_, fun _ _ _ _ _ => trivial⟩
    · split
      · exact fun _ => id
      · trivial
    · rintro β e c₁ c₂ c₃ ⟨hg₁, hw₁⟩ ⟨hg₂, hw₂⟩
      refine ⟨hg₂ ∘ hg₁, ?_⟩
      split
      · exact fun hid => hw₂ hid ∘ hw₁ hid
      · trivial
  | http request =>
    exact ⟨fun _ _ => trivial, fun _ => trivial, fun _ _ _ _ _ _ => trivial,
      fun _ _ _ _ _ => trivial⟩

/-! ## Registrations and drops are safe -/

section Register

variable {c s n : Int} {conn conn' : Conn}

theorem Guarded.congr (h : Guarded c conn) (hdb : conn'.db = conn.db)
    (hsaved : conn'.saved = conn.saved) : Guarded c conn' where
  valid := ⟨hdb ▸ h.valid.db, hsaved ▸ h.valid.saved⟩
  covered := hdb ▸ h.covered
  saved := hsaved ▸ h.saved

theorem Guarded.write (h : Guarded c conn) (now : Int) (w : Write)
    (hc : (w.effect now conn.db).Covered c) : Guarded c (conn.write now w).2 where
  valid := Conn.exec_valid now (.write w) h.valid
  covered := by
    rw [Conn.write_db]
    exact hc
  saved := by
    rw [Conn.write_saved]
    exact h.saved

theorem Guarded.begun (h : Guarded c conn) : Guarded c conn.begun where
  valid := ⟨h.valid.db, fun d hd => by cases hd; exact h.valid.db⟩
  covered := h.covered
  saved := fun d hd => by cases hd; exact h.covered

theorem Guarded.closed (h : Guarded c conn) : Guarded c { conn with saved := none } where
  valid := ⟨h.valid.db, fun d hd => by cases hd⟩
  covered := h.covered
  saved := fun d hd => by cases hd

theorem Guarded.restored (h : Guarded c conn) {d : Db} (hd : conn.saved = some d) :
    Guarded c { conn with db := d, saved := none } where
  valid := ⟨h.valid.saved d hd, fun d hd => by cases hd⟩
  covered := h.saved d hd
  saved := fun d hd => by cases hd

theorem InTransaction.begun (h : Guarded c conn) : InTransaction c conn.begun :=
  ⟨h.begun, conn.db, rfl, Nat.le_refl _⟩

theorem InTransaction.keeps (h : InTransaction c conn) (hr : keepsRegistrations c conn conn') :
    InTransaction c conn' := by
  obtain ⟨d, hd, hle⟩ := h.saved
  refine ⟨hr.1 h.guarded, d, hr.2.2.trans hd, ?_⟩
  rw [Db.active_congr hr.2.1]
  exact hle

theorem InTransaction.write (h : InTransaction c conn) (now : Int) (w : Write)
    (hc : (w.effect now conn.db).Covered c)
    (hle : conn.db.active c ≤ (w.effect now conn.db).active c) :
    InTransaction c (conn.write now w).2 := by
  obtain ⟨d, hd, hd'⟩ := h.saved
  refine ⟨h.guarded.write now w hc, d, ?_, ?_⟩
  · rw [Conn.write_saved, hd]
  · rw [Conn.write_db]
    exact Nat.le_trans hd' hle

/-- The registration has found room and has no active row yet. -/
structure Ready (s c n : Int) (conn : Conn) : Prop where
  inTransaction : InTransaction c conn
  notEnrolled : conn.db.enrolledIn s c = false
  room : conn.db.Room c n
  free : (conn.db.active c : Int) < n

theorem Ready.relies (h : Ready s c n conn) {β : Type} {e : SqlCall β} (he : e.deciding = true)
    (hr : (registerSpec s c).rely e conn conn') : Ready s c n conn' where
  inTransaction := h.inTransaction.keeps hr.1
  notEnrolled := (Db.enrolledIn_congr hr.1.2.1 s c).trans h.notEnrolled
  room := hr.2 he h.notEnrolled n h.room
  free := by
    rw [Db.active_congr hr.1.2.1]
    exact h.free

/-- The registration has an active row. -/
structure Placed (s c : Int) (conn : Conn) : Prop where
  inTransaction : InTransaction c conn
  enrolled : conn.db.enrolledIn s c = true

theorem Placed.relies (h : Placed s c conn) {β : Type} {e : SqlCall β}
    (hr : (registerSpec s c).rely e conn conn') : Placed s c conn' where
  inTransaction := h.inTransaction.keeps hr.1
  enrolled := (Db.enrolledIn_congr hr.1.2.1 s c).trans h.enrolled

theorem Db.enrolledIn_reactivated {db : Db}
    (h : 0 < db.registrations.countP (RegistrationRow.droppedPair s c)) :
    (db.reactivated s c).enrolledIn s c = true := by
  obtain ⟨r, hr, hp⟩ := List.countP_pos_iff.mp h
  simp only [enrolledIn, decide_eq_true_eq]
  refine List.countP_pos_iff.mpr ⟨_, Table.mem_update.mpr ⟨r, hr, rfl⟩, ?_⟩
  rw [if_pos hp]
  simp only [RegistrationRow.droppedPair, decide_eq_true_eq] at hp
  simp [RegistrationRow.activePair, RegistrationRow.setStatus, hp]

theorem Db.insertRegistration_of_enrolled {db : Db} (h : db.enrolledIn s c = true) :
    db.insertRegistration s c = none := by
  simp only [enrolledIn, decide_eq_true_eq] at h
  obtain ⟨r, hr, hp⟩ := List.countP_pos_iff.mp h
  refine if_neg fun hall => ?_
  have hno := List.all_eq_true.mp hall.2.2 r hr
  simp only [RegistrationRow.activePair, decide_eq_true_eq] at hp
  simp [RegistrationRow.ofPair, hp] at hno

theorem Ready.reactivate (h : Ready s c n conn) (now : Int) :
    Ready s c n (conn.write now (.reactivateRegistration s c)).2 ∨
      Placed s c (conn.write now (.reactivateRegistration s c)).2 := by
  have heffect : Write.effect now (.reactivateRegistration s c) conn.db =
      conn.db.reactivated s c := rfl
  have hin : InTransaction c (conn.write now (.reactivateRegistration s c)).2 := by
    refine h.inTransaction.write now _ ?_ ?_ <;> rw [heffect]
    · exact Db.covered_reactivated h.inTransaction.guarded.valid.db h.room h.free
    · rw [Db.active_reactivated]
      exact Nat.le_add_right _ _
  by_cases hdropped : 0 < conn.db.registrations.countP (RegistrationRow.droppedPair s c)
  · refine Or.inr ⟨hin, ?_⟩
    rw [Conn.write_db, heffect]
    exact Db.enrolledIn_reactivated hdropped
  · left
    have hdb : (conn.write now (.reactivateRegistration s c)).2.db = conn.db := by
      rw [Conn.write_db, heffect, Db.reactivated_eq_self (by omega)]
    exact ⟨hin, hdb ▸ h.notEnrolled, hdb ▸ h.room, hdb ▸ h.free⟩

theorem InTransaction.insert (h : Ready s c n conn ∨ Placed s c conn) (now : Int) :
    InTransaction c (conn.write now (.insertRegistration s c)).2 := by
  have hfail : InTransaction c conn → conn.db.insertRegistration s c = none →
      InTransaction c (conn.write now (.insertRegistration s c)).2 := by
    intro hin hnone
    have heffect : Write.effect now (.insertRegistration s c) conn.db = conn.db := by
      simp [Write.effect, Write.apply, hnone]
    refine hin.write now _ ?_ ?_ <;> rw [heffect]
    exact hin.guarded.covered
  obtain hready | hplaced := h
  · cases hi : conn.db.insertRegistration s c with
    | none => exact hfail hready.inTransaction hi
    | some a =>
      have heffect : Write.effect now (.insertRegistration s c) conn.db = a.db := by
        simp [Write.effect, Write.apply, hi]
      refine hready.inTransaction.write now _ ?_ ?_ <;> rw [heffect]
      · exact Db.covered_insertRegistration hready.room hready.free hi
      · rw [Db.active_insertRegistration hi]
        exact Nat.le_add_right _ _
  · exact hfail hplaced.inTransaction (Db.insertRegistration_of_enrolled hplaced.enrolled)

/-- `create` keeps the bound, whatever the other threads leave in `changes`. -/
theorem safe_create (h : Ready s c n conn) :
    SafeExcept (registerSpec s c).rely (registerSpec s c).guar (fun _ => InTransaction c)
      (RegistrationRepository.create s c) conn := by
  rw [RegistrationRepository.create, safeExcept_bind, safeExcept_lift, safeSql_stepWrite]
  intro c₁ h₁ now₁
  have hstep := (h.relies rfl h₁).reactivate now₁
  have hin : InTransaction c (c₁.write now₁ (.reactivateRegistration s c)).2 :=
    hstep.elim Ready.inTransaction Placed.inTransaction
  refine ⟨⟨hin.guarded, trivial⟩, ?_⟩
  dsimp only
  rw [safeExcept_bind, safeExcept_lift, safeSql_sql]
  intro c₂ h₂ now₂
  have hstep₂ : Ready s c n c₂ ∨ Placed s c c₂ :=
    hstep.imp (fun h => h.relies rfl h₂) fun h => h.relies h₂
  have hin₂ : InTransaction c c₂ := hstep₂.elim Ready.inTransaction Placed.inTransaction
  refine ⟨⟨hin₂.guarded, Nat.le_refl _⟩, ?_⟩
  dsimp only
  split
  · rw [safeExcept_bind, safeExcept_lift, safeSql_select]
    intro c₃ h₃ now₃
    have hin₃ := hin₂.keeps h₃.1
    exact ⟨⟨hin₃.guarded, Nat.le_refl _⟩, hin₃⟩
  · rw [safeExcept_bind, safeExcept_lift, safeSql_stepWrite]
    intro c₃ h₃ now₃
    have hin₃ := InTransaction.insert (hstep₂.imp (fun h => h.relies rfl h₃) fun h => h.relies h₃)
      now₃
    refine ⟨⟨hin₃.guarded, trivial⟩, ?_⟩
    dsimp only
    split
    · rw [safeExcept_lift, safeSql_sql]
      intro c₄ h₄ now₄
      have hin₄ := hin₃.keeps h₄.1
      exact ⟨⟨hin₄.guarded, Nat.le_refl _⟩, hin₄⟩
    · exact hin₃

theorem safe_registerTransaction (h : InTransaction c conn) :
    SafeExcept (registerSpec s c).rely (registerSpec s c).guar (fun _ => InTransaction c)
      (RegistrationService.registerTransaction s c) conn := by
  rw [RegistrationService.registerTransaction, safeExcept_bind, safeExcept_lift,
    safeSql_courseById]
  intro c₁ h₁
  have hin₁ := h.keeps h₁.1
  refine ⟨⟨hin₁.guarded, Nat.le_refl _⟩, ?_⟩
  cases hrow : c₁.db.findCourse c with
  | none => exact hin₁
  | some row =>
    simp only [Option.map_some]
    rw [safeExcept_bind, safeExcept_lift, safeSql_exists']
    intro c₂ h₂
    have hin₂ := hin₁.keeps h₂.1
    refine ⟨⟨hin₂.guarded, Nat.le_refl _⟩, ?_⟩
    dsimp only
    split
    · exact hin₂
    next hno =>
    have hne₂ : c₂.db.enrolledIn s c = false := by simpa using hno
    have hne₁ : c₁.db.enrolledIn s c = false := by
      rw [← Db.enrolledIn_congr h₂.1.2.1 s c]
      exact hne₂
    -- the capacity read was right when it was read, and stays a bound up to a free seat
    have hroom₂ := h₂.2 rfl hne₁ _ (Db.room_of_findCourse hin₁.guarded.valid.db hrow)
    rw [safeExcept_bind, safeExcept_lift, safeSql_getEnrolledCount]
    intro c₃ h₃
    have hin₃ := hin₂.keeps h₃.1
    have hroom₃ := h₃.2 rfl hne₂ _ hroom₂
    refine ⟨⟨hin₃.guarded, Nat.le_refl _⟩, ?_⟩
    dsimp only
    split
    · exact hin₃
    next hfree =>
    rw [safeExcept_bind]
    have hcap : (rowToCourse (c₁.db.join row)).capacity = row.capacity := rfl
    refine SafeExcept.mono (safe_create (n := row.capacity) ⟨hin₃, ?_, hroom₃, by omega⟩) ?_
    · rw [Db.enrolledIn_congr h₃.1.2.1]
      exact hne₂
    · rintro (e | id) c₄ h₄ <;> exact h₄

/-- Ending a transaction of a registration call keeps the bound. -/
theorem InTransaction.finish (h : InTransaction c conn)
    (hr : keepsRegistrations c conn conn') : ∃ d, conn'.saved = some d ∧
      Guarded c { conn' with saved := none } ∧ Guarded c { conn' with db := d, saved := none } ∧
      d.active c ≤ conn'.db.active c := by
  have h' := h.keeps hr
  obtain ⟨d, hd, hle⟩ := h'.saved
  exact ⟨d, hd, h'.guarded.closed, h'.guarded.restored hd, hle⟩

theorem safe_register (h : Guarded c conn) :
    (registerSpec s c).Safe (Request.registerStudent s c).body conn := by
  refine safeSql_map.mpr (safeSql_bind.mpr ?_)
  refine SafeSql.mono (?_ : SafeExcept _ _ (fun _ _ => True) _ _) fun r _ _ => by
    cases r <;> trivial
  refine safe_transaction (fun c₁ d err hr _ => ?_) fun c₁ hr _ => ?_
  · exact ⟨⟨hr.1.1 h, Nat.le_refl _⟩, trivial⟩
  · have h₁ := hr.1.1 h
    refine ⟨⟨h₁.begun, Nat.le_refl _⟩, ?_⟩
    refine SafeExcept.mono (safe_registerTransaction (InTransaction.begun h₁)) ?_
    rintro (e | a) c₂ h₂ c₃ hr₃
    · obtain ⟨d, hd, -, hback, hle⟩ := h₂.finish hr₃.1
      exact ⟨d, hd, ⟨hback, hle⟩, trivial⟩
    · obtain ⟨d, hd, hdone, -, -⟩ := h₂.finish hr₃.1
      exact ⟨d, hd, ⟨hdone, Nat.le_refl _⟩, trivial⟩

theorem safe_dropTransaction (h : InTransaction c conn) :
    SafeExcept (dropSpec c).rely (dropSpec c).guar (fun r conn => (∃ a, r = .ok a) ∧
      Guarded c conn ∧ ∃ d, conn.saved = some d)
      (RegistrationService.dropTransaction s c) conn := by
  rw [RegistrationService.dropTransaction, safeExcept_bind, safeExcept_lift, safeSql_exists']
  intro c₁ h₁
  have hin₁ := h.keeps h₁
  refine ⟨⟨hin₁.guarded, Nat.le_refl _⟩, ?_⟩
  dsimp only
  have hopen : ∀ {conn conn' : Conn}, (∃ d, conn.saved = some d) →
      keepsRegistrations c conn conn' → ∃ d, conn'.saved = some d := by
    rintro conn conn' ⟨d, hd⟩ hr
    exact ⟨d, hr.2.2.trans hd⟩
  have hin₁' : Guarded c c₁ ∧ ∃ d, c₁.saved = some d :=
    ⟨hin₁.guarded, hin₁.saved.imp fun _ hd => hd.1⟩
  split
  · rw [safeExcept_bind, safeExcept_lift, RegistrationRepository.dropRegistration,
      safeSql_stepWrite]
    intro c₂ h₂ now₂
    have hg₂ := h₂.1 hin₁.guarded
    have heffect : Write.effect now₂ (.dropRegistration s c) c₂.db = c₂.db.deactivated s c := rfl
    have hg₂' := hg₂.write now₂ (.dropRegistration s c) (by
      rw [heffect]
      exact Db.covered_deactivated hg₂.covered s)
    have hopen₂ : ∃ d, (c₂.write now₂ (.dropRegistration s c)).2.saved = some d := by
      rw [Conn.write_saved]
      exact hopen hin₁'.2 h₂
    refine ⟨⟨hg₂', ?_⟩, ?_⟩
    · rw [Conn.write_db, heffect]
      exact Db.active_deactivated_le _ _ _ _
    · dsimp only
      rw [safeExcept_bind, safeExcept_lift, safeSql_courseById]
      intro c₃ h₃
      refine ⟨⟨h₃.1 hg₂', Nat.le_refl _⟩, ?_⟩
      dsimp only
      split <;> exact ⟨⟨_, rfl⟩, h₃.1 hg₂', hopen hopen₂ h₃⟩
  · exact ⟨⟨_, rfl⟩, hin₁'⟩

theorem safe_drop (h : Guarded c conn) :
    (dropSpec c).Safe (Request.dropStudent s c).body conn := by
  refine safeSql_map.mpr (safeSql_bind.mpr ?_)
  refine SafeSql.mono (?_ : SafeExcept _ _ (fun _ _ => True) _ _) fun r _ _ => by
    cases r <;> trivial
  refine safe_transaction (fun c₁ d err hr _ => ?_) fun c₁ hr _ => ?_
  · exact ⟨⟨hr.1 h, Nat.le_refl _⟩, trivial⟩
  · have h₁ := hr.1 h
    refine ⟨⟨h₁.begun, Nat.le_refl _⟩, ?_⟩
    refine SafeExcept.mono (safe_dropTransaction (InTransaction.begun h₁)) ?_
    rintro (e | a) c₂ ⟨⟨a', ha⟩, hg₂, d, hd⟩ c₃ hr₃
    · cases ha
    · exact ⟨d, hr₃.2.2.trans hd, ⟨(hr₃.1 hg₂).closed, Nat.le_refl _⟩, trivial⟩

/-- An update writes a capacity that covered the registrations when it counted them and, by
what it relies on, still does. -/
theorem safe_update (h : Guarded c conn) {course : Course} (hid : course.id = c)
    (requester : User) :
    (updateSpec c).Safe (Request.updateCourse course requester).body conn := by
  refine safeSql_map.mpr ?_
  rw [CourseService.updateCourse, safeSql_bind, safeSql_courseById]
  intro c₁ h₁
  have hg₁ := h₁.1 h
  refine ⟨⟨hg₁, rfl, rfl, rfl⟩, ?_⟩
  cases (c₁.db.findCourse course.id) with
  | none => trivial
  | some row =>
    simp only [Option.map_some]
    iterate 3
      split
      · trivial
    rw [safeSql_bind, safeSql_getEnrolledCount]
    intro c₂ h₂
    have hg₂ := h₂.1 hg₁
    refine ⟨⟨hg₂, rfl, rfl, rfl⟩, ?_⟩
    split
    · trivial
    next hcap =>
    rw [safeSql_bind, CourseRepository.update, safeSql_stepWrite]
    intro c₃ h₃ now₃
    have hg₃ := h₃.1 hg₂
    rw [hid] at hcap h₃ ⊢
    have hstill : (c₃.db.active c : Int) ≤ course.capacity := h₃.2 rfl (by omega)
    refine ⟨⟨hg₃.write now₃ _ ?_, ?_, Conn.write_saved .., rfl⟩, trivial⟩
    · simp only [Write.effect, Write.apply]
      cases ha : c₃.db.updateCourse course.courseName course.credits course.facultyId
          course.capacity course.schedule c with
      | none => exact hg₃.covered
      | some a => exact Db.covered_updateCourse hstill ha
    · simp only [Conn.write_db, Write.effect, Write.apply]
      cases ha : c₃.db.updateCourse course.courseName course.credits course.facultyId
          course.capacity course.schedule c with
      | none => rfl
      | some a => exact Db.updateCourse_registrations ha

theorem safe_onCourse (h : Guarded c conn) {r : Request} (hr : OnCourse c r) :
    (raceSpec c r).Safe r.body conn := by
  cases r with
  | registerStudent s c' =>
    cases hr
    exact safe_register h
  | dropStudent s c' =>
    cases hr
    exact safe_drop h
  | updateCourse course requester => exact safe_update h hr requester
  | http request => exact hr.elim

end Register

/-! ## Runs -/

section Runs

variable {c : Int} {ι : Type}

/-- The invariant of the race. -/
structure RaceInv (c : Int) (s : Server ι) : Prop where
  locked : s.Locked
  only : s.Only (OnCourse c)
  safe : s.AllSafe (raceSpec c)
  guarded : Guarded c s.conn

theorem RaceInv.start {conn : Conn} {todo : ι → List Request} (hs : conn.saved = none)
    (hv : conn.db.Valid) (hc : conn.db.Covered c) (htodo : ∀ i, ∀ r ∈ todo i, OnCourse c r) :
    RaceInv c (Server.start conn todo) where
  locked := .start conn todo
  only := .start htodo
  safe _ := trivial
  guarded := ⟨⟨hv, fun d hd => by rw [Server.start, hs] at hd; cases hd⟩, hc,
    fun d hd => by rw [Server.start, hs] at hd; cases hd⟩

/-- A pending update tolerates a step that leaves enough seats to it. -/
theorem updateSpec_rely {conn conn' : Conn} {r : Request} {held : Option Nat} {β : Type}
    {e : SqlCall β} {next : β → Sql Reply} (waiting : Phase)
    (hw : waiting = .body r held (.call e next)) (hg : Guarded c conn')
    (hkey : ∀ n, waiting.pendingUpdate c = some n →
      (conn.db.active c : Int) ≤ n → (conn'.db.active c : Int) ≤ n) :
    (updateSpec c).rely e conn conn' := by
  subst hw
  refine ⟨fun _ => hg, ?_⟩
  split
  · rintro rfl
    exact hkey _ (if_pos rfl)
  · trivial

/-- A registration or drop tolerates an update of the capacity that leaves it its seat. -/
theorem tolerates_update {conn : Conn} {β : Type} {e : SqlCall β} {next : β → Sql Reply}
    {r : Request} {held : Option Nat} {now : Int} {phase mover : Phase}
    (hp : mover = .body r held (.call e next)) (hg : (updateSpec c).guar e conn (conn.exec now e).2)
    (hok : ∀ n, mover.pendingUpdate c = some n →
      phase.deciding c conn.db = true → (conn.db.active c : Int) < n ∨
        ∀ row ∈ conn.db.courses, row.id = c → row.capacity ≤ n)
    (honly : ∀ q, phase.request = some q → OnCourse c q) :
    phase.Tolerates (raceSpec c) conn (conn.exec now e).2 := by
  subst hp
  obtain ⟨hguarded, hregs, hsaved, hcall⟩ := hg
  have hkeeps : keepsRegistrations c conn (conn.exec now e).2 := ⟨fun _ => hguarded, hregs, hsaved⟩
  cases phase with
  | idle | find | emplace | lock => trivial
  | unlock q m reply => cases q <;> trivial
  | body q held' rest =>
    have hq := honly q rfl
    cases rest with
    | ret reply => cases q <;> trivial
    | call e' next' =>
      cases q with
      | registerStudent s c' =>
        cases hq
        refine ⟨hkeeps, fun hd hne m hroom => ?_⟩
        have hdec : (Phase.body (.registerStudent s c) held' (.call e' next')).deciding c
            conn.db = true := by
          simp [Phase.deciding, hd, hne]
        split at hcall
        · next name credits facultyId n schedule id =>
          -- the update itself
          subst hcall
          have hleft := hok _ (if_pos rfl) hdec
          simp only [Conn.exec, Conn.write_db, Write.effect, Write.apply]
          cases ha : conn.db.updateCourse name credits facultyId n schedule id with
          | none => exact hroom
          | some a => exact Db.room_updateCourse hleft hroom ha
        · exact hcall.elim
        · rw [hcall]
          exact hroom
      | dropStudent s c' => exact hkeeps
      | updateCourse course requester =>
        refine updateSpec_rely (.body (.updateCourse course requester) held' (.call e' next')) rfl
          hguarded fun n _ hle => ?_
        rw [Db.active_congr hregs]
        exact hle
      | http request => trivial

/-- While a registration or drop runs, the only other threads on the connection are updates. -/
theorem RaceInv.tolerates_locked {s : Server ι} (h : RaceInv c s) {i : ι} {r : Request}
    (hi : (s.threads i).phase.critical = some r) (hr : r.course = some c) {conn' : Conn}
    (hg : Guarded c conn')
    (hle : ∀ j n, (s.threads j).phase.pendingUpdate c = some n →
      (s.conn.db.active c : Int) ≤ n → (conn'.db.active c : Int) ≤ n) :
    ∀ j, j ≠ i → (s.threads j).phase.Tolerates (raceSpec c) s.conn conn' := by
  intro j hj
  have honly := h.only.phase j
  have hlej := hle j
  -- the mutex keeps other registrations and drops out
  have hout : ∀ q, (s.threads j).phase.critical = some q → q.course ≠ some c :=
    fun q hq hqc => hj (h.locked.exclusive hi hr hq hqc).symm
  cases hphase : (s.threads j).phase with
  | idle | find | emplace | lock => trivial
  | unlock q m reply => cases q <;> trivial
  | body q held rest =>
    rw [hphase] at honly hlej hout
    cases rest with
    | ret reply => cases q <;> trivial
    | call e next =>
      cases q with
      | registerStudent s' c' =>
        cases honly _ rfl
        exact absurd rfl (hout _ rfl)
      | dropStudent s' c' =>
        cases honly _ rfl
        exact absurd rfl (hout _ rfl)
      | updateCourse course requester => exact updateSpec_rely _ rfl hg hlej
      | http request => trivial

variable [DecidableEq ι]

/-- Every step that makes no reading stale keeps the invariant. -/
theorem RaceInv.step {s s' : Server ι} {i : ι} {now : Int} (h : RaceInv c s)
    (hs : s.step (i, now) = some s') (hok : Unraced c ⟨s, (i, now), s'⟩) : RaceInv c s' := by
  have hm := Server.step_moves hs
  have hconn := Server.step_conn hs
  have hsafe := h.safe i
  have honly := h.only.phase i
  suffices hcall : Guarded c s'.conn ∧
      ∀ j, j ≠ i → (s.threads j).phase.Tolerates (raceSpec c) s.conn s'.conn from
    ⟨h.locked.moves hm, h.only.moves hm, h.safe.moves (raceSpec_lawful c) h.only
      (fun r hr => safe_onCourse h.guarded hr) hm hcall.2, hcall.1⟩
  cases hnext : s.nextCall i with
  | none =>
    rw [hnext] at hconn
    rw [hconn]
    exact ⟨h.guarded, fun j _ => .refl (raceSpec_lawful c) _ _⟩
  | some e =>
    obtain ⟨β, e⟩ := e
    rw [hnext] at hconn
    dsimp only at hconn
    obtain ⟨r, held, next, hp⟩ := Phase.exists_of_nextCall hnext
    rw [hp] at hsafe honly
    have hguar := (hsafe.guar (raceSpec_lawful c r) now).1
    rw [← hconn] at hguar
    cases r with
    | registerStudent s₁ c' =>
      cases honly _ rfl
      refine ⟨hguar.1, h.tolerates_locked (by rw [hp]; rfl) rfl hguar.1 fun j n hpend hle => ?_⟩
      by_cases hrise : s.conn.db.active c < s'.conn.db.active c
      · refine hok.1 ?_ hrise j n hpend
        have hkind := hguar.2
        split at hkind
        · simp only [Happening.writes, Happening.call, Happening.thread, hnext]
        · omega
      · omega
    | dropStudent s₁ c' =>
      cases honly _ rfl
      refine ⟨hguar.1, h.tolerates_locked (by rw [hp]; rfl) rfl hguar.1 fun j n _ hle => ?_⟩
      have hdown : s'.conn.db.active c ≤ s.conn.db.active c := hguar.2
      omega
    | updateCourse course requester =>
      refine ⟨hguar.1, fun j hj => ?_⟩
      rw [hconn] at hguar ⊢
      exact tolerates_update hp hguar (fun n hpend hdec => hok.2 n hpend j hdec) (h.only.phase j)
    | http request => exact (honly _ rfl).elim

/-- The invariant holds in every run whose steps make no reading stale. -/
theorem RaceInv.of_run {s₀ s : Server ι} {history : List (Happening ι)} (h : RaceInv c s₀)
    (hr : s₀.Runs history s) (hok : ∀ e ∈ history, Unraced c e) : RaceInv c s :=
  hr.invariant h (fun _ ⟨_, _⟩ _ hs hstep hu => hs.step hstep hu) hok

end Runs

/-! ## An update between a count and a registration -/

/-- A registration for the course 7, which has 60 seats and one registration, and an update
of its capacity to 1. -/
def lastSeat : Fin 2 → List Request
  | 0 => [.registerStudent 5 7]
  | 1 => [.updateCourse { id := 7, courseName := "Intro to Programming", facultyId := 2,
                          capacity := 1 }
          { id := 1, role := .admin }]

/-- The two requests on the seeded database under a schedule. -/
def lastSeatRun (schedule : List (Fin 2 × Int)) :
    Option (List (Happening (Fin 2)) × Server (Fin 2)) :=
  replay Server.step [] (Server.start (startup true) lastSeat) schedule

theorem lastSeat_onCourse : ∀ i, ∀ r ∈ lastSeat i, OnCourse 7 r := by
  intro i r hr
  match i with
  | 0 | 1 =>
    rw [List.mem_singleton.mp hr]
    rfl

/-- From tables within the capacity, with no transaction open, every run of registrations,
drops and updates of a course whose steps make no reading stale stays within it. -/
theorem covered_of_run {c : Int} {ι : Type} [DecidableEq ι] {conn : Conn}
    {todo : ι → List Request} (hs : conn.saved = none) (hv : conn.db.Valid)
    (hc : conn.db.Covered c) (htodo : ∀ i, ∀ r ∈ todo i, OnCourse c r) {s : Server ι}
    {history : List (Happening ι)} (hr : (Server.start conn todo).Runs history s)
    (hok : ∀ e ∈ history, Unraced c e) : s.conn.db.Covered c :=
  ((RaceInv.start hs hv hc htodo).of_run hr hok).guarded.covered

/-- With the registration first, the update is refused and the course stays covered. -/
theorem covered_of_registrationFirst : ∃ history s,
    lastSeatRun (List.replicate 15 (0, 0) ++ List.replicate 4 (1, 0)) = some (history, s) ∧
      s.conn.db.Covered 7 := by
  have hrun : ((lastSeatRun (List.replicate 15 (0, 0) ++ List.replicate 4 (1, 0))).map
      fun out => decide (∀ e ∈ out.1, Unraced 7 e)) = some true := by decide +kernel
  obtain ⟨⟨history, s⟩, hout, hcheck⟩ := Option.map_eq_some_iff.mp hrun
  have hsound := startup_sound true
  exact ⟨history, s, hout, covered_of_run hsound.idle hsound.valid (by decide +kernel)
    lastSeat_onCourse (replay_run .start hout) (of_decide_eq_true hcheck)⟩

/-- The update counts one registration, the registration takes a second seat, and the update
writes the capacity 1. -/
theorem update_overbooks :
    ¬ ∀ (conn : Conn) (todo : Fin 2 → List Request) history s, conn.saved = none →
      conn.db.Valid → conn.db.Covered 7 → (∀ i, ∀ r ∈ todo i, OnCourse 7 r) →
        (Server.start conn todo).Runs history s → s.conn.db.Covered 7 := by
  intro h
  have hrun : ((lastSeatRun (List.replicate 3 (1, 0) ++ List.replicate 15 (0, 0) ++ [(1, 0)])).map
      fun out => decide (out.2.conn.db.Covered 7)) = some false := by decide +kernel
  obtain ⟨⟨history, s⟩, hout, hcheck⟩ := Option.map_eq_some_iff.mp hrun
  have hsound := startup_sound true
  exact of_decide_eq_false hcheck (h _ _ history s hsound.idle hsound.valid (by decide +kernel)
    lastSeat_onCourse (replay_run .start hout))

end AcademiaCr.Backend
