import AcademiaCr.Backend.Controllers

/-!
# Which statements a request can execute

Apart from the two registration operations no request begins or ends a transaction, and
each writes with a few statements only. `Within W p` says both of a program: it makes no
transaction control call, and every statement it can write with satisfies `W`.

## Main definitions

- `Within`, `WithinExcept`: the footprint of a program
- `Conn.run_within`: what all statements of the footprint keep is kept by the program
- `within_*`: the footprint of every handler
-/

namespace AcademiaCr.Backend

open Resumption

/-- A query, or a write satisfying `W`. -/
def SqlCall.within (W : Write → Prop) : {β : Type} → SqlCall β → Prop
  | _, .beginImmediate => False
  | _, .commit => False
  | _, .rollback => False
  | _, .write w => W w
  | _, _ => True

/-- The program leaves transactions alone and writes with statements satisfying `W`. -/
def Within (W : Write → Prop) {α : Type} (p : Sql α) : Prop := p.Calls fun _ e => e.within W

def WithinExcept (W : Write → Prop) {α : Type} (p : SqlExcept α) : Prop := Within W p.run

section Rules

variable {α β : Type} {W : Write → Prop}

@[simp] theorem within_ret (a : α) : Within W (.ret a : Sql α) := trivial

@[simp] theorem within_pure (a : α) : Within W (pure a : Sql α) := trivial

@[simp] theorem within_select (q : Query β) : Within W (select q) := ⟨trivial, fun _ => trivial⟩

@[simp] theorem within_changes : Within W (sql .changes) := ⟨trivial, fun _ => trivial⟩

@[simp] theorem within_lastInsertRowid : Within W (sql .lastInsertRowid) :=
  ⟨trivial, fun _ => trivial⟩

@[simp] theorem within_stepWrite {w : Write} : Within W (stepWrite w) ↔ W w :=
  ⟨fun h => h.1, fun h => ⟨h, fun _ => trivial⟩⟩

theorem within_bind {p : Sql α} {f : α → Sql β} (hp : Within W p) (hf : ∀ a, Within W (f a)) :
    Within W (p >>= f) := Prog.calls_bind hp hf

@[simp] theorem withinExcept_pure (a : α) : WithinExcept W (pure a) := trivial

@[simp] theorem withinExcept_throw (e : Exn) : WithinExcept W (throw e : SqlExcept α) := trivial

@[simp] theorem withinExcept_mk (x : Except Exn α) : WithinExcept W (ExceptT.mk (pure x)) := trivial

theorem withinExcept_lift {p : Sql α} (hp : Within W p) :
    WithinExcept W (liftM p : SqlExcept α) := Prog.calls_bind hp fun _ => trivial

theorem withinExcept_bind {p : SqlExcept α} {f : α → SqlExcept β} (hp : WithinExcept W p)
    (hf : ∀ a, WithinExcept W (f a)) : WithinExcept W (p >>= f) := by
  rw [WithinExcept, ExceptT.run_bind]
  refine within_bind hp ?_
  rintro (e | a)
  · trivial
  · exact hf a

theorem withinExcept_tryCatch {p : SqlExcept α} {h : Exn → SqlExcept α} (hp : WithinExcept W p)
    (hh : ∀ e, WithinExcept W (h e)) : WithinExcept W (tryCatch p h) := by
  rw [WithinExcept, ExceptT.run_tryCatch]
  refine within_bind hp ?_
  rintro (e | a)
  · exact hh e
  · trivial

end Rules

/-! ## What the footprint keeps -/

namespace Conn

variable {α : Type} {W : Write → Prop} {now : Int}

/-- A property of the connection that the statements of the footprint keep is kept by the
whole program. -/
theorem run_within {I : Conn → Prop} {p : Sql α} (hp : Within W p)
    (hI : ∀ w conn, W w → I conn → I (conn.write now w).2) {conn : Conn} (hc : I conn) :
    I (conn.run now p).2 := by
  refine Prog.run_preserves (Conn.exec now) hp ?_ hc
  intro β e s he hs
  cases e with
  | write w => exact hI w s he hs
  | beginImmediate | commit | rollback => exact he.elim
  | query | changes | lastInsertRowid => exact hs

/-- A program that writes nothing leaves the connection as it is. -/
theorem run_readOnly {p : Sql α} (hp : Within (fun _ => False) p) (conn : Conn) :
    (conn.run now p).2 = conn :=
  run_within (I := fun c => c = conn) hp (fun _ _ h => h.elim) rfl

/-- A program without transaction control keeps the saved tables. -/
theorem run_saved {p : Sql α} (hp : Within W p) (conn : Conn) :
    (conn.run now p).2.saved = conn.saved := by
  refine run_within (I := fun c => c.saved = conn.saved) hp (fun w c _ hc => ?_) rfl
  rw [← hc, write]
  split <;> rfl

end Conn

/-! ## Repositories -/

section Footprints

variable {W : Write → Prop}

@[simp] theorem within_ofRow (row : Option UserRow) :
    WithinExcept W (UserRepository.ofRow row) := by
  cases row with
  | none => trivial
  | some row => exact withinExcept_bind (withinExcept_mk _) fun _ => trivial

@[simp] theorem within_userById (id : Int) : WithinExcept W (UserRepository.findById id) :=
  withinExcept_bind (withinExcept_lift (within_select _)) within_ofRow

@[simp] theorem within_userByUsername (username : String) :
    WithinExcept W (UserRepository.findByUsername username) :=
  withinExcept_bind (withinExcept_lift (within_select _)) within_ofRow

@[simp] theorem within_courseById (id : Int) : Within W (CourseRepository.findById id) :=
  within_bind (within_select _) fun _ => trivial

@[simp] theorem within_courseByCode (code : String) :
    Within W (CourseRepository.findByCode code) := within_bind (within_select _) fun _ => trivial

/-- An insertion that reports the generated key or throws. -/
theorem within_create {w : Write} (h : W w) (message : String) :
    WithinExcept W (do
      if ← stepWrite w then return ← (sql .lastInsertRowid : Sql Int)
      else throw (.std message) : SqlExcept Int) := by
  refine withinExcept_bind (withinExcept_lift (within_stepWrite.mpr h)) fun done => ?_
  split
  · exact withinExcept_bind (withinExcept_lift within_lastInsertRowid) fun _ => trivial
  · trivial

/-! ## Services -/

theorem within_registrationCreate {s c : Int} (h₁ : W (.reactivateRegistration s c))
    (h₂ : W (.insertRegistration s c)) : WithinExcept W (RegistrationRepository.create s c) := by
  refine withinExcept_bind (withinExcept_lift (within_stepWrite.mpr h₁)) fun _ => ?_
  refine withinExcept_bind (withinExcept_lift within_changes) fun _ => ?_
  split
  · exact withinExcept_bind (withinExcept_lift (within_select _)) fun _ => trivial
  · exact within_create h₂ _

theorem within_registerTransaction {s c : Int} (h₁ : W (.reactivateRegistration s c))
    (h₂ : W (.insertRegistration s c)) :
    WithinExcept W (RegistrationService.registerTransaction s c) := by
  refine withinExcept_bind (withinExcept_lift (within_courseById _)) fun course => ?_
  split
  · trivial
  · refine withinExcept_bind (withinExcept_lift ?_) fun _ => ?_
    · exact within_bind (within_select _) fun _ => trivial
    split
    · trivial
    · refine withinExcept_bind (withinExcept_lift (within_select _)) fun _ => ?_
      dsimp only
      split
      · trivial
      · exact withinExcept_bind (within_registrationCreate h₁ h₂) fun _ => trivial

theorem within_dropTransaction {s c : Int} (h : W (.dropRegistration s c)) :
    WithinExcept W (RegistrationService.dropTransaction s c) := by
  refine withinExcept_bind (withinExcept_lift ?_) fun _ => ?_
  · exact within_bind (within_select _) fun _ => trivial
  split
  · refine withinExcept_bind (withinExcept_lift (within_stepWrite.mpr h)) fun _ => ?_
    refine withinExcept_bind (withinExcept_lift (within_courseById _)) fun _ => ?_
    split <;> trivial
  · trivial

theorem within_createCourse {course : Course} {requester : User}
    (h : W (.insertCourse course.courseCode course.courseName course.credits course.facultyId
      course.capacity course.schedule)) :
    Within W (CourseService.createCourse course requester) := by
  unfold CourseService.createCourse
  iterate 5
    split
    · trivial
  refine within_bind (within_courseByCode _) fun _ => ?_
  split
  · trivial
  · refine within_bind (within_create h _) fun _ => ?_
    split <;> trivial

theorem within_updateCourse {course : Course} {requester : User}
    (h : W (.updateCourse course.courseName course.credits course.facultyId course.capacity
      course.schedule course.id)) :
    Within W (CourseService.updateCourse course requester) := by
  refine within_bind (within_courseById _) fun existing => ?_
  split
  · trivial
  iterate 3
    split
    · trivial
  refine within_bind (within_select _) fun _ => ?_
  split
  · trivial
  · exact within_bind (within_stepWrite.mpr h) fun _ => trivial

theorem within_deleteCourse {id : Int} {requester : User} (h : W (.deleteCourse id)) :
    Within W (CourseService.deleteCourse id requester) := by
  have hremove : Within W (CourseService.deleteCourse.remove id) :=
    within_bind (within_stepWrite.mpr h) fun _ => trivial
  unfold CourseService.deleteCourse
  split
  · refine within_bind (within_courseById _) fun existing => ?_
    split
    · trivial
    · split
      · trivial
      · exact hremove
  · exact hremove

theorem within_login {username password generated : String}
    (h : ∀ userId, W (.insertSession generated userId)) :
    WithinExcept W (AuthService.login username password generated) := by
  refine withinExcept_bind (within_userByUsername _) fun user => ?_
  split
  · trivial
  · split
    · trivial
    · split
      · trivial
      · refine withinExcept_bind (withinExcept_lift ?_) fun _ => trivial
        exact within_bind (within_stepWrite.mpr (h _)) fun _ => trivial

@[simp] theorem within_validateToken (token : String) :
    WithinExcept W (AuthService.validateToken token) := by
  refine withinExcept_bind (withinExcept_lift (within_select _)) fun userId => ?_
  split
  · trivial
  · exact within_userById _

/-! ## Handlers -/

@[simp] theorem within_authenticateRequest (authHeader : String) :
    WithinExcept W (authenticateRequest authHeader) := by
  unfold authenticateRequest
  iterate 3
    split
    · trivial
  exact within_validateToken _

@[simp] theorem within_parseBody (body : Option Json) : WithinExcept W (parseBody body) := by
  cases body <;> trivial

@[simp] theorem within_fromJson {α : Type} (read : Json → Except Exn α) (body : Json) :
    WithinExcept W (fromJson read body) := withinExcept_mk _

theorem within_catchJson {handler : Handler} (h : WithinExcept W handler) :
    WithinExcept W (catchJson handler) := by
  refine withinExcept_tryCatch h fun e => ?_
  split <;> trivial

theorem within_postCourses {authHeader : String} {body : Option Json}
    (h : ∀ code name credits facultyId capacity schedule,
      W (.insertCourse code name credits facultyId capacity schedule)) :
    WithinExcept W (CourseController.postCourses authHeader body) := by
  refine withinExcept_bind (within_authenticateRequest _) fun user => ?_
  split
  · trivial
  · split
    · trivial
    · refine within_catchJson (withinExcept_bind (within_parseBody _) fun _ => ?_)
      refine withinExcept_bind (within_fromJson _ _) fun course => ?_
      dsimp only
      refine withinExcept_bind (withinExcept_lift (within_createCourse (h ..))) fun _ => ?_
      split
      · trivial
      · exact withinExcept_bind (withinExcept_lift (within_courseById _)) fun _ => trivial

theorem within_putCourse {authHeader : String} {id : Int} {body : Option Json}
    (h : ∀ name credits facultyId capacity schedule,
      W (.updateCourse name credits facultyId capacity schedule id)) :
    WithinExcept W (CourseController.putCourse authHeader id body) := by
  refine withinExcept_bind (within_authenticateRequest _) fun user => ?_
  split
  · trivial
  · split
    · trivial
    · refine within_catchJson (withinExcept_bind (within_parseBody _) fun _ => ?_)
      refine withinExcept_bind (within_fromJson _ _) fun course => ?_
      refine withinExcept_bind (withinExcept_lift (within_updateCourse (h ..))) fun _ => ?_
      split
      · trivial
      · exact withinExcept_bind (withinExcept_lift (within_courseById _)) fun _ => trivial

theorem within_deleteCourseHandler {authHeader : String} {id : Int} (h : W (.deleteCourse id)) :
    WithinExcept W (CourseController.deleteCourse authHeader id) := by
  refine withinExcept_bind (within_authenticateRequest _) fun user => ?_
  split
  · trivial
  · refine withinExcept_bind (withinExcept_lift (within_deleteCourse h)) fun _ => ?_
    split <;> trivial

theorem within_postUsers {authHeader : String} {body : Option Json}
    (h : ∀ username hash role name email active,
      W (.insertUser username hash role name email active)) :
    WithinExcept W (AdminController.postUsers authHeader body) := by
  refine withinExcept_bind (within_authenticateRequest _) fun user => ?_
  split
  · trivial
  · split
    · trivial
    · refine within_catchJson (withinExcept_bind (within_parseBody _) fun _ => ?_)
      refine withinExcept_bind (within_fromJson _ _) fun newUser => ?_
      iterate 2
        split
        · trivial
      refine withinExcept_bind (within_fromJson _ _) fun password => ?_
      split
      · trivial
      · refine withinExcept_bind (within_userByUsername _) fun _ => ?_
        split
        · trivial
        · refine withinExcept_bind (within_create (h ..) _) fun _ => ?_
          exact withinExcept_bind (within_userById _) fun _ => trivial

theorem within_changePassword {id : Int} {body : Json} (h : ∀ hash, W (.updatePassword hash id)) :
    WithinExcept W (AdminController.changePassword id body) := by
  refine withinExcept_bind (within_fromJson _ _) fun password => ?_
  split
  · trivial
  · exact withinExcept_bind (withinExcept_lift (within_stepWrite.mpr (h _))) fun _ => trivial

theorem within_putUser {authHeader : String} {id : Int} {body : Option Json}
    (h₁ : ∀ name email active id, W (.updateUser name email active id))
    (h₂ : ∀ hash, W (.updatePassword hash id)) :
    WithinExcept W (AdminController.putUser authHeader id body) := by
  refine withinExcept_bind (within_authenticateRequest _) fun user => ?_
  split
  · trivial
  · split
    · trivial
    · refine within_catchJson (withinExcept_bind (within_parseBody _) fun _ => ?_)
      refine withinExcept_bind (within_userById _) fun existing => ?_
      split
      · trivial
      · refine withinExcept_bind (within_fromJson _ _) fun _ => ?_
        refine withinExcept_bind (within_fromJson _ _) fun _ => ?_
        refine withinExcept_bind (within_fromJson _ _) fun _ => ?_
        refine withinExcept_bind (withinExcept_lift (within_stepWrite.mpr (h₁ ..))) fun _ => ?_
        refine withinExcept_bind (within_changePassword h₂) fun _ => ?_
        exact withinExcept_bind (within_userById _) fun _ => trivial

theorem within_deleteUser {authHeader : String} {id : Int} (h : W (.deleteUser id)) :
    WithinExcept W (AdminController.deleteUser authHeader id) := by
  refine withinExcept_bind (within_authenticateRequest _) fun user => ?_
  split
  · trivial
  iterate 2
    split
    · trivial
  exact withinExcept_bind (withinExcept_lift (within_stepWrite.mpr h)) fun _ => trivial

theorem within_postLogin {body : Option Json} {generated : String}
    (h : ∀ userId, W (.insertSession generated userId)) :
    WithinExcept W (AuthController.postLogin body generated) := by
  refine within_catchJson (withinExcept_bind (within_parseBody _) fun _ => ?_)
  refine withinExcept_bind (within_fromJson _ _) fun _ => ?_
  refine withinExcept_bind (within_fromJson _ _) fun _ => ?_
  split
  · trivial
  · refine withinExcept_bind (within_login h) fun _ => ?_
    split <;> trivial

theorem within_postLogout {authHeader : String} (h : ∀ token, W (.deleteSession token)) :
    WithinExcept W (AuthController.postLogout authHeader) := by
  unfold AuthController.postLogout
  split
  · refine withinExcept_bind (withinExcept_lift ?_) fun _ => trivial
    exact within_bind (within_bind (within_stepWrite.mpr (h _)) fun _ => trivial) fun _ => trivial
  · trivial

end Footprints

end AcademiaCr.Backend
