import AcademiaCr.Backend.HiddenHashes

/-!
# No answer tells a password hash

The answers to any requests, one after another, are the same on two databases that differ in
nothing but the stored password hashes, as long as the same logins succeed on both. So whoever
uses the interface learns of the stored hashes only which passwords they accept.

## Main definitions

- `Hides`: programs that read no row of `users`
- `AlikeOn`: two programs that answer alike on databases that differ in hashes
- `loginResults`: which logins of a run succeed
- `answers_hide_hashes`: the answers depend on the hashes through these results alone
-/

namespace AcademiaCr.Backend

open Resumption Prog

/-! ## Programs that read no row of users -/

section Hides

variable {α β : Type}

abbrev Hides (p : Sql α) : Prop := p.Calls fun _ e => e.HidesHash

theorem hides_bind {p : Sql α} {f : α → Sql β} (hp : Hides p) (hf : ∀ a, Hides (f a)) :
    Hides (p >>= f) := calls_bind hp hf

theorem hides_select {q : Query β} (hq : (SqlCall.query q).HidesHash) : Hides (select q) :=
  ⟨hq, fun _ => trivial⟩

theorem hides_sql {e : SqlCall β} (he : e.HidesHash) : Hides (sql e) := ⟨he, fun _ => trivial⟩

theorem hides_stepWrite (w : Write) : Hides (stepWrite w) := hides_sql trivial

theorem hides_courseById (id : Int) : Hides (CourseRepository.findById id) :=
  hides_bind (hides_select trivial) fun _ => trivial

/-- An insertion that reports the generated key or throws. -/
theorem hides_create (w : Write) (message : String) : Hides (do
    if ← stepWrite w then return ← (sql .lastInsertRowid : Sql Int)
    else throw (.std message) : SqlExcept Int).run := by
  refine calls_except_bind (calls_liftM (hides_stepWrite w)) fun done => ?_
  split
  · exact calls_except_bind (calls_liftM (hides_sql (e := .lastInsertRowid) trivial))
      fun _ => trivial
  · trivial

theorem hides_execute {outcome : Sql (Option String)} (h : Hides outcome) (statement : String) :
    Hides (Database.execute outcome statement).run := by
  refine calls_except_bind (calls_liftM h) fun err => ?_
  cases err <;> trivial

theorem hides_transaction {func : SqlExcept α} (h : Hides func.run) :
    Hides (Database.transaction func).run := by
  have hbegin := hides_execute (hides_sql (e := .beginImmediate) trivial)
  have hcommit := hides_execute (hides_sql (e := .commit) trivial)
  have hrollback := hides_execute (hides_sql (e := .rollback) trivial)
  refine calls_except_bind (hbegin _) fun _ => calls_tryCatch ?_ fun e => ?_
  · exact calls_except_bind h fun _ => calls_except_bind (hcommit _) fun _ => trivial
  · exact calls_except_bind (calls_tryCatch (hrollback _) fun _ => trivial) fun _ => trivial

/-! ## Services -/

theorem hides_registrationCreate (s c : Int) : Hides (RegistrationRepository.create s c).run := by
  refine calls_except_bind (calls_liftM (hides_stepWrite _)) fun _ => ?_
  refine calls_except_bind (calls_liftM (hides_sql (e := .changes) trivial)) fun _ => ?_
  split
  · exact calls_except_bind (calls_liftM (hides_select trivial)) fun _ => trivial
  · exact hides_create _ _

theorem hides_exists (s c : Int) : Hides (RegistrationRepository.exists' s c) :=
  hides_bind (hides_select trivial) fun _ => trivial

theorem hides_registerStudent (s c : Int) : Hides (RegistrationService.registerStudent s c) := by
  have hinner : Hides (RegistrationService.registerTransaction s c).run := by
    refine calls_except_bind (calls_liftM (hides_courseById c)) fun course => ?_
    split
    · trivial
    refine calls_except_bind (calls_liftM (hides_exists s c)) fun _ => ?_
    split
    · trivial
    refine calls_except_bind (calls_liftM (hides_select trivial)) fun _ => ?_
    dsimp only
    split
    · trivial
    · exact calls_except_bind (hides_registrationCreate s c) fun _ => trivial
  refine hides_bind (hides_transaction hinner) fun outcome => ?_
  cases outcome <;> trivial

theorem hides_dropStudent (s c : Int) : Hides (RegistrationService.dropStudent s c) := by
  have hinner : Hides (RegistrationService.dropTransaction s c).run := by
    refine calls_except_bind (calls_liftM (hides_exists s c)) fun _ => ?_
    split
    · refine calls_except_bind (calls_liftM (hides_stepWrite _)) fun _ => ?_
      refine calls_except_bind (calls_liftM (hides_courseById c)) fun _ => ?_
      split <;> trivial
    · trivial
  refine hides_bind (hides_transaction hinner) fun outcome => ?_
  cases outcome <;> trivial

theorem hides_createCourse (course : Course) (requester : User) :
    Hides (CourseService.createCourse course requester) := by
  unfold CourseService.createCourse
  iterate 5
    split
    · trivial
  refine hides_bind (hides_bind (hides_select trivial) fun _ => trivial) fun _ => ?_
  split
  · trivial
  · refine hides_bind (hides_create _ _) fun _ => ?_
    split <;> trivial

theorem hides_updateCourse (course : Course) (requester : User) :
    Hides (CourseService.updateCourse course requester) := by
  refine hides_bind (hides_courseById _) fun existing => ?_
  split
  · trivial
  iterate 3
    split
    · trivial
  refine hides_bind (hides_select trivial) fun _ => ?_
  split
  · trivial
  · exact hides_bind (hides_stepWrite _) fun _ => trivial

theorem hides_deleteCourse (id : Int) (requester : User) :
    Hides (CourseService.deleteCourse id requester) := by
  have hremove : Hides (CourseService.deleteCourse.remove id) :=
    hides_bind (hides_stepWrite _) fun _ => trivial
  unfold CourseService.deleteCourse
  split
  · refine hides_bind (hides_courseById _) fun existing => ?_
    split
    · trivial
    · split
      · trivial
      · exact hremove
  · exact hremove

end Hides

/-! ## Programs on both databases -/

/-- On connections that differ in nothing but hashes, the programs throw the same or return
related values, and they leave connections that differ in nothing but hashes. -/
abbrev AlikeOn (now : Int) {α : Type} (Q : α → α → Prop) (p p' : SqlExcept α) : Prop :=
  AlikeFrom (Conn.exec now) (Conn.exec now) SameButHashes Q p p'

section AlikeOn

variable {α β : Type} {now : Int} {Q : α → α → Prop}

/-- What reads no row of `users` answers the same. -/
theorem alikeOn_of_hides {p : SqlExcept α} (hp : Hides p.run) : AlikeOn now Eq p p :=
  alikeFrom_of_calls hp fun _ _ _ he hR => ⟨hR.answer now he, hR.exec now _⟩

theorem alikeOn_liftM {p : Sql α} (hp : Hides p) :
    AlikeOn now Eq (liftM p : SqlExcept α) (liftM p) := alikeOn_of_hides (calls_liftM hp)

theorem alikeOn_mk (x : Except Exn α) :
    AlikeOn now Eq (ExceptT.mk (pure x) : SqlExcept α) (ExceptT.mk (pure x)) :=
  alikeFrom_mk (sameOutcome_eq.mpr rfl)

/-! ## Users -/

/-- The same user, but for the hash. -/
def SameUser (user user' : User) : Prop := ∃ hash, user' = { user with passwordHash := hash }

/-- Both found nobody, or both the same user. -/
def SameFound : Option User → Option User → Prop
  | none, none => True
  | some user, some user' => SameUser user user'
  | _, _ => False

theorem SameFound.map_toJson {found found' : Option User} (h : SameFound found found') :
    found.map User.toJson = found'.map User.toJson := by
  cases found <;> cases found' <;> first | rfl | exact h.elim | skip
  obtain ⟨hash, rfl⟩ := h
  rfl

/-- Rows that differ in the hash are read alike. -/
theorem sameOutcome_rowToUser {row row' : UserRow} (h : row.withoutHash = row'.withoutHash) :
    SameOutcome SameUser (rowToUser row) (rowToUser row') := by
  obtain ⟨id, username, hash, role, name, email, active⟩ := row
  obtain ⟨id', username', hash', role', name', email', active'⟩ := row'
  simp only [UserRow.withoutHash, UserRow.mk.injEq] at h
  obtain ⟨rfl, rfl, -, rfl, rfl, rfl, rfl⟩ := h
  simp only [rowToUser]
  cases stringToRole role with
  | error e => exact .error e
  | ok r => exact .ok ⟨hash', rfl⟩

theorem alikeOn_ofRow {found found' : Option UserRow}
    (h : found.map UserRow.withoutHash = found'.map UserRow.withoutHash) :
    AlikeOn now SameFound (UserRepository.ofRow found) (UserRepository.ofRow found') := by
  cases found with
  | none =>
    cases found' with
    | none => exact alikeFrom_pure trivial
    | some row' => cases h
  | some row =>
    cases found' with
    | none => cases h
    | some row' =>
      refine alikeFrom_bind (Q := SameUser) (fun conn conn' hsame => ?_)
        fun user user' huser => alikeFrom_pure huser
      exact ⟨sameOutcome_rowToUser (Option.some.inj h), hsame⟩

theorem alikeOn_userById (id : Int) :
    AlikeOn now SameFound (UserRepository.findById id) (UserRepository.findById id) := by
  intro conn conn' hsame
  refine alike_except_bind (Q := fun found found' : Option UserRow =>
    found.map UserRow.withoutHash = found'.map UserRow.withoutHash)
    (alike_liftM ⟨hsame.userById id, hsame⟩) fun found found' t t' h ht =>
      alikeOn_ofRow h t t' ht

theorem alikeOn_userByUsername (username : String) :
    AlikeOn now SameFound (UserRepository.findByUsername username)
      (UserRepository.findByUsername username) := by
  intro conn conn' hsame
  refine alike_except_bind (Q := fun found found' : Option UserRow =>
    found.map UserRow.withoutHash = found'.map UserRow.withoutHash)
    (alike_liftM ⟨hsame.userByUsername now username, hsame⟩) fun found found' t t' h ht =>
      alikeOn_ofRow h t t' ht

theorem alikeOn_authenticateRequest (authHeader : String) :
    AlikeOn now SameFound (authenticateRequest authHeader) (authenticateRequest authHeader) := by
  unfold authenticateRequest
  iterate 3
    split
    · exact alikeFrom_pure trivial
  refine alikeFrom_bind (alikeOn_liftM (hides_select trivial)) ?_
  rintro (_ | userId) _ rfl
  · exact alikeFrom_pure trivial
  · exact alikeOn_userById userId

/-- A handler that authenticates first and then treats the two users alike. -/
theorem alikeOn_authenticated {Q : α → α → Prop} {authHeader : String} {refused : SqlExcept α}
    {handler : User → SqlExcept α} (hrefused : AlikeOn now Q refused refused)
    (h : ∀ user hash, AlikeOn now Q (handler user)
      (handler { user with passwordHash := hash })) :
    AlikeOn now Q
      (authenticateRequest authHeader >>= fun found =>
        match found with
        | none => refused
        | some user => handler user)
      (authenticateRequest authHeader >>= fun found =>
        match found with
        | none => refused
        | some user => handler user) := by
  refine alikeFrom_bind (alikeOn_authenticateRequest authHeader) fun found found' hfound => ?_
  cases found <;> cases found' <;> first | exact hrefused | exact hfound.elim | skip
  obtain ⟨hash, rfl⟩ := hfound
  exact h _ hash

/-! ## Handlers -/

theorem alikeOn_answer (response : HttpResponse) :
    AlikeOn now Eq (return response : Handler) (return response) := alikeFrom_pure rfl

theorem alikeOn_postCourses (authHeader : String) (body : Option Json) :
    AlikeOn now Eq (CourseController.postCourses authHeader body)
      (CourseController.postCourses authHeader body) := by
  refine alikeOn_authenticated (alikeOn_answer _) fun user hash => ?_
  dsimp only
  split
  · exact alikeOn_answer _
  refine alikeFrom_catchJson (alikeOn_of_hides ?_)
  refine calls_except_bind (by cases body <;> trivial) fun json => ?_
  refine calls_except_bind (p := fromJson Course.fromJson json) trivial fun course => ?_
  refine calls_except_bind (calls_liftM (hides_createCourse _ _)) fun result => ?_
  split
  · trivial
  · exact calls_except_bind (calls_liftM (hides_courseById _)) fun _ => trivial

theorem alikeOn_putCourse (authHeader : String) (id : Int) (body : Option Json) :
    AlikeOn now Eq (CourseController.putCourse authHeader id body)
      (CourseController.putCourse authHeader id body) := by
  refine alikeOn_authenticated (alikeOn_answer _) fun user hash => ?_
  dsimp only
  split
  · exact alikeOn_answer _
  refine alikeFrom_catchJson (alikeOn_of_hides ?_)
  refine calls_except_bind (by cases body <;> trivial) fun json => ?_
  refine calls_except_bind (p := fromJson Course.fromJson json) trivial fun course => ?_
  refine calls_except_bind (calls_liftM (hides_updateCourse _ _)) fun result => ?_
  split
  · trivial
  · exact calls_except_bind (calls_liftM (hides_courseById _)) fun _ => trivial

theorem alikeOn_deleteCourse (authHeader : String) (id : Int) :
    AlikeOn now Eq (CourseController.deleteCourse authHeader id)
      (CourseController.deleteCourse authHeader id) := by
  refine alikeOn_authenticated (alikeOn_answer _) fun user hash => alikeOn_of_hides ?_
  refine calls_except_bind (calls_liftM (hides_deleteCourse _ _)) fun result => ?_
  split <;> trivial

theorem alikeOn_postRegister (authHeader : String) (courseId : Int) :
    AlikeOn now Eq (RegistrationController.postRegister authHeader courseId)
      (RegistrationController.postRegister authHeader courseId) := by
  refine alikeOn_authenticated (alikeOn_answer _) fun user hash => alikeOn_of_hides ?_
  split
  · trivial
  refine calls_except_bind (calls_liftM (hides_registerStudent _ _)) fun result => ?_
  split <;> trivial

theorem alikeOn_deleteRegister (authHeader : String) (courseId : Int) :
    AlikeOn now Eq (RegistrationController.deleteRegister authHeader courseId)
      (RegistrationController.deleteRegister authHeader courseId) := by
  refine alikeOn_authenticated (alikeOn_answer _) fun user hash => alikeOn_of_hides ?_
  split
  · trivial
  refine calls_except_bind (calls_liftM (hides_dropStudent _ _)) fun result => ?_
  split <;> trivial

/-- The answer that shows a stored user. -/
theorem alikeOn_shown (id status : Int) (message : String) :
    AlikeOn now Eq
      (do
        let found ← UserRepository.findById id
        return successResponse status (found.map User.toJson) message : Handler)
      (do
        let found ← UserRepository.findById id
        return successResponse status (found.map User.toJson) message) := by
  refine alikeFrom_bind (alikeOn_userById id) fun found found' h => alikeFrom_pure ?_
  rw [h.map_toJson]

theorem alikeOn_postUsers (authHeader : String) (body : Option Json) :
    AlikeOn now Eq (AdminController.postUsers authHeader body)
      (AdminController.postUsers authHeader body) := by
  refine alikeOn_authenticated (alikeOn_answer _) fun user hash => ?_
  dsimp only
  split
  · exact alikeOn_answer _
  refine alikeFrom_catchJson ?_
  refine alikeFrom_bind (alikeOn_of_hides (by cases body <;> trivial)) ?_
  rintro json _ rfl
  refine alikeFrom_bind (alikeOn_mk _) ?_
  rintro newUser _ rfl
  split
  · exact alikeOn_answer _
  split
  · exact alikeOn_answer _
  refine alikeFrom_bind (alikeOn_mk _) ?_
  rintro password _ rfl
  split
  · exact alikeOn_answer _
  refine alikeFrom_bind (alikeOn_userByUsername _) fun found found' hfound => ?_
  have hsome : found'.isSome = found.isSome := by
    cases found <;> cases found' <;> first | rfl | exact hfound.elim
  rw [hsome]
  split
  · exact alikeOn_answer _
  refine alikeFrom_bind (alikeOn_of_hides (hides_create _ _)) ?_
  rintro id _ rfl
  exact alikeOn_shown id 201 _

theorem alikeOn_changePassword (id : Int) (body : Json) :
    AlikeOn now Eq (AdminController.changePassword id body)
      (AdminController.changePassword id body) := by
  refine alikeOn_of_hides (calls_except_bind trivial fun password => ?_)
  split
  · trivial
  · exact calls_except_bind (calls_liftM (hides_stepWrite _)) fun _ => trivial

theorem alikeOn_putUser (authHeader : String) (id : Int) (body : Option Json) :
    AlikeOn now Eq (AdminController.putUser authHeader id body)
      (AdminController.putUser authHeader id body) := by
  refine alikeOn_authenticated (alikeOn_answer _) fun user hash => ?_
  dsimp only
  split
  · exact alikeOn_answer _
  refine alikeFrom_catchJson ?_
  refine alikeFrom_bind (alikeOn_of_hides (by cases body <;> trivial)) ?_
  rintro json _ rfl
  refine alikeFrom_bind (alikeOn_userById id) fun found found' hfound => ?_
  cases found <;> cases found' <;> first | exact alikeOn_answer _ | exact hfound.elim | skip
  next existing _ =>
    obtain ⟨hash', rfl⟩ := hfound
    dsimp only
    refine alikeFrom_bind (alikeOn_mk _) ?_
    rintro name _ rfl
    refine alikeFrom_bind (alikeOn_mk _) ?_
    rintro email _ rfl
    refine alikeFrom_bind (alikeOn_mk _) ?_
    rintro active _ rfl
    refine alikeFrom_bind (alikeOn_liftM (hides_stepWrite _)) fun _ _ _ => ?_
    refine alikeFrom_bind (alikeOn_changePassword id json) fun _ _ _ => ?_
    exact alikeOn_shown id 200 _

theorem alikeOn_deleteUser (authHeader : String) (id : Int) :
    AlikeOn now Eq (AdminController.deleteUser authHeader id)
      (AdminController.deleteUser authHeader id) := by
  refine alikeOn_authenticated (alikeOn_answer _) fun user hash => alikeOn_of_hides ?_
  split
  · trivial
  split
  · trivial
  · exact calls_except_bind (calls_liftM (hides_stepWrite _)) fun _ => trivial

theorem alikeOn_endpoint (authHeader : String) (endpoint : Endpoint) :
    AlikeOn now Eq (endpoint.handler authHeader) (endpoint.handler authHeader) := by
  cases endpoint with
  | postUsers body => exact alikeOn_postUsers authHeader body
  | putUser id body => exact alikeOn_putUser authHeader id body
  | deleteUser id => exact alikeOn_deleteUser authHeader id
  | postCourses body => exact alikeOn_postCourses authHeader body
  | putCourse id body => exact alikeOn_putCourse authHeader id body
  | deleteCourse id => exact alikeOn_deleteCourse authHeader id
  | postRegister courseId => exact alikeOn_postRegister authHeader courseId
  | deleteRegister courseId => exact alikeOn_deleteRegister authHeader courseId

/-! ## Reading routes -/

/-- A handler that answers a user of a role with what it reads outside `users`. -/
theorem alikeOn_reading {authHeader : String} {refused : HttpResponse}
    {handler : User → Handler} (h : ∀ user, Hides (handler user).run)
    (hsame : ∀ user hash, handler { user with passwordHash := hash } = handler user) :
    AlikeOn now Eq
      (authenticateRequest authHeader >>= fun found =>
        match found with
        | none => return refused
        | some user => handler user)
      (authenticateRequest authHeader >>= fun found =>
        match found with
        | none => return refused
        | some user => handler user) := by
  refine alikeOn_authenticated (alikeOn_answer refused) fun user hash => ?_
  rw [hsame user hash]
  exact alikeOn_of_hides (h user)

theorem alikeOn_getCourses (authHeader : String) (searchParam : Option String) :
    AlikeOn now Eq (CourseController.getCourses authHeader searchParam)
      (CourseController.getCourses authHeader searchParam) := by
  refine alikeOn_reading (fun user => ?_) fun _ _ => rfl
  dsimp only
  split
  · refine calls_except_bind (calls_liftM ?_) fun _ => trivial
    exact hides_bind (hides_select trivial) fun _ => trivial
  · refine calls_except_bind (calls_liftM ?_) fun _ => trivial
    exact hides_bind (hides_select trivial) fun _ => trivial

theorem alikeOn_getCourse (authHeader : String) (id : Int) :
    AlikeOn now Eq (CourseController.getCourse authHeader id)
      (CourseController.getCourse authHeader id) := by
  refine alikeOn_reading (fun user => ?_) fun _ _ => rfl
  refine calls_except_bind (calls_liftM (hides_courseById id)) fun found => ?_
  cases found <;> trivial

theorem alikeOn_getStudentCourses (authHeader : String) (studentId : Int) :
    AlikeOn now Eq (RegistrationController.getStudentCourses authHeader studentId)
      (RegistrationController.getStudentCourses authHeader studentId) := by
  refine alikeOn_reading (fun user => ?_) fun _ _ => rfl
  split
  · trivial
  · refine calls_except_bind (calls_liftM ?_) fun _ => calls_except_bind (calls_liftM ?_)
      fun _ => trivial
    · exact hides_bind (hides_select trivial) fun _ => trivial
    · exact hides_bind (hides_select trivial) fun _ => trivial

theorem alikeOn_getFacultyCourses (authHeader : String) (facultyId : Int) :
    AlikeOn now Eq (RegistrationController.getFacultyCourses authHeader facultyId)
      (RegistrationController.getFacultyCourses authHeader facultyId) := by
  refine alikeOn_reading (fun user => ?_) fun _ _ => rfl
  split
  · trivial
  · refine calls_except_bind (calls_liftM ?_) fun _ => trivial
    exact hides_bind (hides_select trivial) fun _ => trivial

theorem alikeOn_getCourseStudents (authHeader : String) (courseId : Int) :
    AlikeOn now Eq (RegistrationController.getCourseStudents authHeader courseId)
      (RegistrationController.getCourseStudents authHeader courseId) := by
  refine alikeOn_reading (fun user => ?_) fun _ _ => rfl
  split
  · trivial
  · refine calls_except_bind (calls_liftM ?_) fun _ => trivial
    exact hides_bind (hides_select trivial) fun _ => trivial

theorem alikeOn_getStatistics (authHeader : String) :
    AlikeOn now Eq (AdminController.getStatistics authHeader)
      (AdminController.getStatistics authHeader) := by
  refine alikeOn_authenticated (alikeFrom_pure rfl) fun user hash => alikeOn_of_hides ?_
  split
  · trivial
  have hcount : ∀ {q : Query Int}, (SqlCall.query q).HidesHash →
      Hides (do return columnInt (← select q)) :=
    fun hq => hides_bind (hides_select hq) fun _ => trivial
  refine calls_except_bind (calls_liftM (hcount trivial)) fun _ => ?_
  iterate 3 refine calls_except_bind (calls_liftM (hcount trivial)) fun _ => ?_
  refine calls_except_bind (calls_liftM (hcount trivial)) fun _ => ?_
  refine calls_except_bind (calls_liftM (hcount trivial)) fun _ => ?_
  refine calls_except_bind (calls_liftM ?_) fun _ => trivial
  exact hides_bind (hides_select trivial) fun _ => trivial

theorem alikeOn_getMe (authHeader : String) :
    AlikeOn now Eq (AuthController.getMe authHeader) (AuthController.getMe authHeader) :=
  alikeOn_authenticated (alikeOn_answer _) fun _ _ => alikeOn_answer _

theorem alikeOn_postLogout (authHeader : String) :
    AlikeOn now Eq (AuthController.postLogout authHeader)
      (AuthController.postLogout authHeader) := by
  refine alikeOn_of_hides ?_
  unfold AuthController.postLogout
  split
  · refine calls_except_bind (calls_liftM ?_) fun _ => trivial
    exact hides_bind (hides_bind (hides_stepWrite _) fun _ => trivial) fun _ => trivial
  · trivial

end AlikeOn

/-! ## The list of all users -/

/-- `AlikeOn` for the handlers of all routes. -/
abbrev AlikeRest (now : Int) {α : Type} (Q : α → α → Prop)
    (p p' : ExceptT Exn (Prog RestCall) α) : Prop :=
  AlikeFrom (Conn.execRest now) (Conn.execRest now) SameButHashes Q p p'

section AlikeRest

variable {now : Int}

/-- Rows that differ in hashes are read alike. -/
theorem sameOutcome_mapM {rows rows' : List UserRow}
    (h : rows.map UserRow.withoutHash = rows'.map UserRow.withoutHash) :
    SameOutcome (List.Forall₂ SameUser) (rows.mapM rowToUser) (rows'.mapM rowToUser) := by
  induction rows generalizing rows' with
  | nil =>
    rw [List.map_nil, eq_comm, List.map_eq_nil_iff] at h
    rw [h]
    exact .ok .nil
  | cons row rows ih =>
    cases rows' with
    | nil => cases h
    | cons row' rows' =>
      obtain ⟨hrow, hrows⟩ := List.cons.inj h
      have hfirst := sameOutcome_rowToUser hrow
      have hrest := ih hrows
      rw [List.mapM_cons, List.mapM_cons]
      generalize rowToUser row = x at hfirst ⊢
      generalize rowToUser row' = x' at hfirst ⊢
      generalize rows.mapM rowToUser = y at hrest ⊢
      generalize rows'.mapM rowToUser = y' at hrest ⊢
      obtain e | huser := hfirst
      · exact .error e
      · obtain e | husers := hrest
        · exact .error e
        · exact .ok (.cons huser husers)

theorem map_toJson_of_sameUsers {users users' : List User}
    (h : List.Forall₂ SameUser users users') :
    users.map User.toJson = users'.map User.toJson := by
  induction h with
  | nil => rfl
  | cons huser _ ih =>
    obtain ⟨hash, rfl⟩ := huser
    rw [List.map_cons, List.map_cons, ih]
    rfl

theorem SameButHashes.usersById {conn conn' : Conn} (h : SameButHashes conn conn') :
    (Table.orderBy (·.id) conn.db.users).map UserRow.withoutHash =
      (Table.orderBy (·.id) conn'.db.users).map UserRow.withoutHash := by
  have hsort : ∀ users : List UserRow, (Table.orderBy (·.id) users).map UserRow.withoutHash =
      Table.orderBy (·.id) (users.map UserRow.withoutHash) := fun users =>
    List.map_insertionSort _ _ _ users fun _ _ _ _ => Iff.rfl
  rw [hsort, hsort]
  exact congrArg (fun c : Conn => Table.orderBy (·.id) c.db.users) h

theorem alikeRest_findAll : AlikeRest now (List.Forall₂ SameUser) UserRepository.findAll
    UserRepository.findAll := by
  intro conn conn' hsame
  refine alike_except_bind (Q := fun rows rows' : List UserRow =>
    rows.map UserRow.withoutHash = rows'.map UserRow.withoutHash)
    (alike_liftM ⟨hsame.usersById, hsame⟩) fun rows rows' t t' h ht => ?_
  exact ⟨sameOutcome_mapM h, ht⟩

theorem alikeRest_getUsers (authHeader : String) :
    AlikeRest now Eq (AdminController.getUsers authHeader)
      (AdminController.getUsers authHeader) := by
  intro conn conn' hsame
  refine alike_except_bind (alikeFrom_viaSql (alikeOn_authenticateRequest authHeader) conn conn'
    hsame) fun found found' t t' hfound ht => ?_
  cases found <;> cases found' <;>
    first | exact alike_ret (.ok rfl) ht | exact hfound.elim | skip
  obtain ⟨hash, rfl⟩ := hfound
  dsimp only
  split
  · exact alike_ret (.ok rfl) ht
  · refine alike_except_bind (alikeRest_findAll t t' ht) fun users users' u u' husers hu => ?_
    rw [map_toJson_of_sameUsers husers]
    exact alike_ret (.ok rfl) hu

end AlikeRest

/-! ## Logins -/

/-- A login that succeeds. -/
def loggedIn : Except Exn LoginResult → Bool
  | .ok result => result.success
  | .error _ => false

/-- An answer of status 200. -/
def isOk : Except Exn HttpResponse → Bool
  | .ok response => response.status = 200
  | .error _ => false

/-- The same result, but for the hash of the user. -/
def SameLogin (result result' : LoginResult) : Prop :=
  result.success = result'.success ∧ result.token = result'.token ∧
    result.error = result'.error ∧ SameUser result.user result'.user

section Login

variable {now : Int} {conn conn' : Conn}

theorem alike_runExcept {α : Type} {Q : α → α → Prop} {p p' : SqlExcept α} :
    Alike (Conn.exec now) (Conn.exec now) SameButHashes (SameOutcome Q) p.run p'.run conn conn' ↔
      SameOutcome Q (conn.runExcept now p).1 (conn'.runExcept now p').1 ∧
        SameButHashes (conn.runExcept now p).2 (conn'.runExcept now p').2 := Iff.rfl

theorem SameUser.refl (user : User) : SameUser user user := ⟨user.passwordHash, rfl⟩

theorem SameLogin.refl (result : LoginResult) : SameLogin result result :=
  ⟨rfl, rfl, rfl, .refl _⟩

/-- A login whose credentials are right. -/
def openSession (user : User) (generated : String) : SqlExcept LoginResult := do
  UserRepository.createSession generated user.id
  return { success := true, token := generated, user }

/-- A login of a user who has been found. -/
def loginAs (user : User) (password generated : String) : SqlExcept LoginResult :=
  if !user.active then return { error := "Account is deactivated" }
  else if hashPassword password ≠ user.passwordHash then
    return { error := "Invalid username or password" }
  else openSession user generated

theorem login_eq (username password generated : String) :
    AuthService.login username password generated =
      UserRepository.findByUsername username >>= fun found =>
        match found with
        | none => return { error := "Invalid username or password" }
        | some user => loginAs user password generated := rfl

theorem alike_openSession (hsame : SameButHashes conn conn') (user : User)
    (hash generated : String) :
    Alike (Conn.exec now) (Conn.exec now) SameButHashes (SameOutcome SameLogin)
      (openSession user generated).run
      (openSession { user with passwordHash := hash } generated).run conn conn' := by
  have hcreate : Hides (UserRepository.createSession generated user.id) :=
    hides_bind (hides_stepWrite _) fun _ => trivial
  refine alike_except_bind (alikeOn_liftM hcreate conn conn' hsame) fun _ _ t t' _ ht => ?_
  exact alike_ret (.ok ⟨rfl, rfl, rfl, hash, rfl⟩) ht

theorem loggedIn_openSession (user : User) (generated : String) :
    loggedIn (conn.runExcept now (openSession user generated)).1 = true := by
  simp [openSession, loggedIn]

theorem loginAs_inactive {user : User} (h : user.active = false) (password generated : String) :
    loginAs user password generated = return { error := "Account is deactivated" } := by
  rw [loginAs, h]
  rfl

theorem loginAs_right {user : User} {password : String} (hactive : user.active = true)
    (h : hashPassword password = user.passwordHash) (generated : String) :
    loginAs user password generated = openSession user generated := by
  rw [loginAs, hactive, if_neg (by decide), if_neg (not_not_intro h)]

theorem loginAs_wrong {user : User} {password : String} (hactive : user.active = true)
    (h : hashPassword password ≠ user.passwordHash) (generated : String) :
    loginAs user password generated = return { error := "Invalid username or password" } := by
  rw [loginAs, hactive, if_neg (by decide), if_pos h]

/-- Alike, unless the password matches one of the two hashes. -/
theorem loginAs_cases (hsame : SameButHashes conn conn') {user user' : User}
    (huser : SameUser user user') (password generated : String) :
    Alike (Conn.exec now) (Conn.exec now) SameButHashes (SameOutcome SameLogin)
        (loginAs user password generated).run (loginAs user' password generated).run conn conn' ∨
      loggedIn (conn.runExcept now (loginAs user password generated)).1 ≠
        loggedIn (conn'.runExcept now (loginAs user' password generated)).1 := by
  obtain ⟨hash, huser⟩ := huser
  have hactive' : user'.active = user.active := by rw [huser]
  cases hactive : user.active with
  | false =>
    rw [loginAs_inactive hactive, loginAs_inactive (hactive'.trans hactive)]
    exact Or.inl (alike_ret (.ok (.refl _)) hsame)
  | true =>
    rw [hactive] at hactive'
    by_cases hleft : hashPassword password = user.passwordHash
    · rw [loginAs_right hactive hleft]
      by_cases hright : hashPassword password = user'.passwordHash
      · rw [loginAs_right hactive' hright, huser]
        exact Or.inl (alike_openSession hsame user hash generated)
      · rw [loginAs_wrong hactive' hright, loggedIn_openSession]
        exact Or.inr Bool.false_ne_true.symm
    · rw [loginAs_wrong hactive hleft]
      by_cases hright : hashPassword password = user'.passwordHash
      · rw [loginAs_right hactive' hright, loggedIn_openSession]
        exact Or.inr Bool.false_ne_true
      · rw [loginAs_wrong hactive' hright]
        exact Or.inl (alike_ret (.ok (.refl _)) hsame)

/-- A login is alike on both databases, or it succeeds on one of them only. -/
theorem login_cases (hsame : SameButHashes conn conn') (username password generated : String) :
    Alike (Conn.exec now) (Conn.exec now) SameButHashes (SameOutcome SameLogin)
        (AuthService.login username password generated).run
        (AuthService.login username password generated).run conn conn' ∨
      loggedIn (conn.runExcept now (AuthService.login username password generated)).1 ≠
        loggedIn (conn'.runExcept now (AuthService.login username password generated)).1 := by
  obtain ⟨hfound, hstates⟩ :=
    alike_runExcept.mp (@alikeOn_userByUsername now username conn conn' hsame)
  rw [login_eq, alike_runExcept, Conn.runExcept_bind, Conn.runExcept_bind]
  generalize conn.runExcept now (UserRepository.findByUsername username) = out at hfound hstates ⊢
  generalize conn'.runExcept now (UserRepository.findByUsername username) = out'
    at hfound hstates ⊢
  obtain ⟨outcome, t⟩ := out
  obtain ⟨outcome', t'⟩ := out'
  dsimp only at hfound hstates ⊢
  obtain e | @⟨found, found', hfound⟩ := hfound
  · exact Or.inl ⟨.error e, hstates⟩
  · cases found with
    | none =>
      cases found' with
      | none => exact Or.inl ⟨.ok (.refl _), hstates⟩
      | some user' => exact hfound.elim
    | some user =>
      cases found' with
      | none => exact hfound.elim
      | some user' => exact loginAs_cases hstates hfound password generated

/-- The answer to a login. -/
def loginAnswer (result : LoginResult) : HttpResponse :=
  if !result.success then errorResponse result.error 401
  else successResponse 200
    (some (.obj [("token", .str result.token), ("user", result.user.toJson)])) "Login successful"

theorem loginAnswer_congr {result result' : LoginResult} (h : SameLogin result result') :
    loginAnswer result = loginAnswer result' := by
  obtain ⟨hsuccess, htoken, herror, hash, huser⟩ := h
  rw [loginAnswer, loginAnswer, hsuccess, htoken, herror, huser]
  rfl

theorem loginAnswer_status (result : LoginResult) :
    decide ((loginAnswer result).status = 200) = result.success := by
  rw [loginAnswer]
  cases result.success <;> rfl

/-- What the route makes of the outcome of a login. -/
def afterLogin : Except Exn LoginResult → Except Exn HttpResponse
  | .ok result => .ok (loginAnswer result)
  | .error .json => .ok (errorResponse "Invalid JSON body" 400)
  | .error (.std what) => .error (.std what)

theorem isOk_afterLogin (outcome : Except Exn LoginResult) :
    isOk (afterLogin outcome) = loggedIn outcome := by
  cases outcome with
  | ok result => exact loginAnswer_status result
  | error e => cases e <;> rfl

/-- The route answers without looking at the database, or it logs in. -/
theorem runExcept_postLogin (now : Int) (body : Option Json) (generated : String) :
    (∃ outcome, ∀ conn : Conn, conn.runExcept now (AuthController.postLogin body generated) =
      (outcome, conn)) ∨
    ∃ username password, ∀ conn : Conn,
      conn.runExcept now (AuthController.postLogin body generated) =
        (afterLogin (conn.runExcept now (AuthService.login username password generated)).1,
          (conn.runExcept now (AuthService.login username password generated)).2) := by
  cases body with
  | none => exact Or.inl ⟨_, fun conn => rfl⟩
  | some json =>
  cases hname : json.value "username" "" with
  | error e =>
    refine Or.inl ?_
    simp only [AuthController.postLogin, catchJson, Conn.runExcept_tryCatch, Conn.runExcept_bind,
      parseBody, Conn.runExcept_pure, fromJson, Conn.runExcept_mk, hname]
    cases e <;> exact ⟨_, fun conn => rfl⟩
  | ok username =>
  cases hword : json.value "password" "" with
  | error e =>
    refine Or.inl ?_
    simp only [AuthController.postLogin, catchJson, Conn.runExcept_tryCatch, Conn.runExcept_bind,
      parseBody, Conn.runExcept_pure, fromJson, Conn.runExcept_mk, hname, hword]
    cases e <;> exact ⟨_, fun conn => rfl⟩
  | ok password =>
  simp only [AuthController.postLogin, catchJson, Conn.runExcept_tryCatch, Conn.runExcept_bind,
    parseBody, Conn.runExcept_pure, fromJson, Conn.runExcept_mk, hname, hword]
  split
  · exact Or.inl ⟨_, fun conn => rfl⟩
  · refine Or.inr ⟨username, password, fun conn => ?_⟩
    rw [Conn.runExcept_bind]
    obtain ⟨outcome, conn'⟩ := conn.runExcept now (AuthService.login username password generated)
    cases outcome with
    | error e => cases e <;> rfl
    | ok result =>
      dsimp only [afterLogin, loginAnswer]
      cases result.success <;> rfl

/-- The login route is alike on both databases, or it succeeds on one of them only. -/
theorem postLogin_cases (hsame : SameButHashes conn conn') (body : Option Json)
    (generated : String) :
    Alike (Conn.exec now) (Conn.exec now) SameButHashes (SameOutcome Eq)
        (AuthController.postLogin body generated).run
        (AuthController.postLogin body generated).run conn conn' ∨
      isOk (conn.runExcept now (AuthController.postLogin body generated)).1 ≠
        isOk (conn'.runExcept now (AuthController.postLogin body generated)).1 := by
  rw [alike_runExcept]
  obtain ⟨outcome, hrun⟩ | ⟨username, password, hrun⟩ := runExcept_postLogin now body generated
  · rw [hrun, hrun]
    exact Or.inl ⟨sameOutcome_eq.mpr rfl, hsame⟩
  · rw [hrun, hrun]
    dsimp only
    rw [isOk_afterLogin, isOk_afterLogin]
    refine (login_cases hsame username password generated).imp_left fun h => ?_
    obtain ⟨houtcome, hstates⟩ := alike_runExcept.mp h
    refine ⟨sameOutcome_eq.mpr ?_, hstates⟩
    generalize (conn.runExcept now (AuthService.login username password generated)).1 = x
      at houtcome ⊢
    generalize (conn'.runExcept now (AuthService.login username password generated)).1 = x'
      at houtcome ⊢
    obtain e | hresult := houtcome
    · rfl
    · exact congrArg Except.ok (loginAnswer_congr hresult)

end Login

/-! ## Runs -/

/-- Whether a login succeeds; no value for a request that is no login. -/
def RestRequest.loginResult (now : Int) (conn : Conn) : RestRequest → Option Bool
  | postLogin body generated =>
    some (isOk (conn.runExcept now (AuthController.postLogin body generated)).1)
  | _ => none

/-- Which logins of a run succeed, in their order. -/
def loginResults : List (RestRequest × Int) → Conn → List Bool
  | [], _ => []
  | (request, now) :: requests, conn =>
    (request.loginResult now conn).toList ++ loginResults requests (request.answer now conn).2

/-- A request that is no login is alike on both databases, and so is a login with the same
result on both. -/
theorem RestRequest.alike {now : Int} {conn conn' : Conn} (hsame : SameButHashes conn conn')
    (request : RestRequest)
    (hlogin : request.loginResult now conn = request.loginResult now conn') :
    (request.answer now conn).1 = (request.answer now conn').1 ∧
      SameButHashes (request.answer now conn).2 (request.answer now conn').2 := by
  suffices h : Alike (Conn.execRest now) (Conn.execRest now) SameButHashes (SameOutcome Eq)
      request.handler.run request.handler.run conn conn' from ⟨sameOutcome_eq.mp h.1, h.2⟩
  cases request with
  | postLogin body generated =>
    rw [handler, Alike, run_rest, run_rest]
    obtain h | h := postLogin_cases hsame body generated
    · obtain ⟨houtcome, hstates⟩ := alike_runExcept.mp h
      exact ⟨sameOutcome_eq.mpr (congrArg (Except.map some) (sameOutcome_eq.mp houtcome)), hstates⟩
    · exact absurd (Option.some.inj hlogin) h
  | postLogout authHeader => exact alikeFrom_rest (alikeOn_postLogout authHeader) _ _ hsame
  | getMe authHeader => exact alikeFrom_rest (alikeOn_getMe authHeader) _ _ hsame
  | getCourses authHeader searchParam =>
    exact alikeFrom_rest (alikeOn_getCourses authHeader searchParam) _ _ hsame
  | getCourse authHeader id => exact alikeFrom_rest (alikeOn_getCourse authHeader id) _ _ hsame
  | getStudentCourses authHeader studentId =>
    exact alikeFrom_rest (alikeOn_getStudentCourses authHeader studentId) _ _ hsame
  | getFacultyCourses authHeader facultyId =>
    exact alikeFrom_rest (alikeOn_getFacultyCourses authHeader facultyId) _ _ hsame
  | getCourseStudents authHeader courseId =>
    exact alikeFrom_rest (alikeOn_getCourseStudents authHeader courseId) _ _ hsame
  | getUsers authHeader => exact alikeRest_getUsers authHeader _ _ hsame
  | getStatistics authHeader =>
    exact alikeFrom_viaSql (alikeOn_getStatistics authHeader) _ _ hsame
  | write authHeader endpoint =>
    exact alikeFrom_rest (alikeOn_endpoint authHeader endpoint) _ _ hsame

theorem RestRequest.loginResult_isSome (request : RestRequest) (now : Int) (conn conn' : Conn) :
    (request.loginResult now conn).isSome = (request.loginResult now conn').isSome := by
  cases request <;> rfl

/-- The answers to any requests, to any routes and at any times, are the same on two databases
that differ in nothing but stored password hashes, if the same logins among them succeed. -/
theorem answers_hide_hashes (requests : List (RestRequest × Int)) {conn conn' : Conn}
    (hsame : SameButHashes conn conn')
    (hlogins : loginResults requests conn = loginResults requests conn') :
    answers requests conn = answers requests conn' := by
  induction requests generalizing conn conn' with
  | nil => rfl
  | cons first requests ih =>
    obtain ⟨request, now⟩ := first
    rw [loginResults, loginResults] at hlogins
    have hlen : (request.loginResult now conn).toList.length =
        (request.loginResult now conn').toList.length := by
      have hsome := request.loginResult_isSome now conn conn'
      cases h : request.loginResult now conn <;> cases h' : request.loginResult now conn' <;>
        simp_all
    obtain ⟨hfirst, hrest⟩ := List.append_inj hlogins hlen
    have hresult : request.loginResult now conn = request.loginResult now conn' := by
      simpa only [Option.head?_toList] using congrArg List.head? hfirst
    obtain ⟨hanswer, hstates⟩ := request.alike hsame hresult
    rw [answers, answers, hanswer, ih hstates hrest]

/-- An administrator with a session and a stored hash. -/
def Conn.withAdmin (hash : String) : Conn :=
  { db := {
      users := [⟨1, "admin", hash, "admin", "System Administrator", "", 1⟩]
      sessions := [⟨1, "a11ce", 1, some 86400⟩] } }

def someRequests : List (RestRequest × Int) :=
  [(.postLogin (some (.obj [("username", .str "admn"), ("password", .str "admin123")])) "b0b", 0),
    (.getUsers "Bearer a11ce", 1), (.write "Bearer a11ce" (.deleteCourse 1), 2),
    (.getMe "Bearer a11ce", 3)]

theorem someRequests_hide_hashes :
    answers someRequests (.withAdmin "5f4d") = answers someRequests (.withAdmin "e99a") :=
  answers_hide_hashes someRequests rfl (by decide +kernel)

end AcademiaCr.Backend
