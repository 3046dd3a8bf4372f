import AcademiaCr.Backend.Atomicity

/-!
# Active administrators

`DELETE /api/admin/users/<int>` refuses the account of the requester. The update of a user makes
no such check, and the requester of a deletion may himself be deactivated while his session is
still valid. So requests can take away the last administrator who is active.

## Main definitions

- `Db.HasAdmin`: some administrator is active
- `Endpoint.TakesLastAdmin`: the request is one against the only active administrator
- `LocksOut`: a step of a run is such a request, and an administrator makes it
- `hasAdmin_iff`: the runs in which some administrator is active in every state
-/

namespace AcademiaCr.Backend

open Resumption Transition

/-- The row of an administrator who can log in. -/
def UserRow.IsActiveAdmin (u : UserRow) : Prop := u.role = "admin" ∧ u.active ≠ 0

instance (u : UserRow) : Decidable u.IsActiveAdmin := inferInstanceAs (Decidable (_ ∧ _))

/-- Some administrator is active. -/
def Db.HasAdmin (db : Db) : Prop := ∃ u ∈ db.users, u.IsActiveAdmin

instance (db : Db) : Decidable db.HasAdmin := inferInstanceAs (Decidable (∃ u ∈ db.users, _))

/-- No other administrator is active. -/
def Db.OnlyAdmin (db : Db) (id : Int) : Prop := ∀ u ∈ db.users, u.IsActiveAdmin → u.id = id

/-- The request is an update that switches the flag of the only active administrator off, or
the deletion of that administrator by somebody else. -/
def Endpoint.TakesLastAdmin (user : User) (db : Db) : Endpoint → Prop
  | putUser id body => db.OnlyAdmin id ∧ ∃ json row name email,
      body = some json ∧ db.findUser id = some row ∧ UserFields row json name email false
  | deleteUser id => db.OnlyAdmin id ∧ user.id ≠ id
  | _ => False

/-- The requests on users. -/
def ApiCall.OnUsers : ApiCall → Prop
  | request _ (.postUsers _) | request _ (.putUser _ _) | request _ (.deleteUser _) => True
  | _ => False

/-- The step is such a request, and an administrator makes it. -/
def LocksOut (e : Event Api (ApiCall × Int)) : Prop :=
  ∃ authHeader endpoint user, e.label.1 = .request authHeader endpoint ∧
    Authenticates e.label.2 e.before.conn authHeader user ∧ user.role = .admin ∧
    endpoint.TakesLastAdmin user e.before.conn.db

namespace Db

variable {db : Db} {now : Int} {id : Int}

/-! ## The statements -/

theorem hasAdmin_rewriteUser (h : db.HasAdmin) (name email : String) (active : Bool) :
    (db.rewriteUser name email active id).HasAdmin ↔ ¬ (db.OnlyAdmin id ∧ active = false) := by
  constructor
  · rintro ⟨u, hu, hadmin⟩ ⟨honly, rfl⟩
    obtain ⟨u₀, hu₀, rfl⟩ := Table.mem_update.mp hu
    split at hadmin
    · exact hadmin.2 rfl
    · next hid => exact hid (by simpa using honly u₀ hu₀ hadmin)
  · intro hno
    cases active with
    | true =>
      obtain ⟨u, hu, hrole, hactive⟩ := h
      refine ⟨_, Table.mem_update.mpr ⟨u, hu, rfl⟩, ?_⟩
      split
      · exact ⟨hrole, Int.one_ne_zero⟩
      · exact ⟨hrole, hactive⟩
    | false =>
      -- another administrator is active
      have hother : ∃ u ∈ db.users, u.IsActiveAdmin ∧ u.id ≠ id := by
        by_contra hall
        exact hno ⟨fun u hu hadmin => by_contra fun hid => hall ⟨u, hu, hadmin, hid⟩, rfl⟩
      obtain ⟨u, hu, hadmin, hid⟩ := hother
      exact ⟨u, Table.mem_update.mpr ⟨u, hu, if_neg (by simpa using hid)⟩, hadmin⟩

theorem hasAdmin_withPassword (password : String) :
    (db.withPassword now password id).HasAdmin ↔ db.HasAdmin := by
  -- the hash stays a variable here, since comparing rows must not compute it
  have hsame : ∀ (u : UserRow) (hash : String),
      ({ u with passwordHash := hash } : UserRow).IsActiveAdmin ↔ u.IsActiveAdmin :=
    fun _ _ => Iff.rfl
  rw [withPassword]
  split
  · exact Iff.rfl
  · constructor
    · rintro ⟨u, hu, hadmin⟩
      obtain ⟨u₀, hu₀, rfl⟩ := Table.mem_update.mp hu
      refine ⟨u₀, hu₀, ?_⟩
      split at hadmin
      · exact (hsame u₀ _).mp hadmin
      · exact hadmin
    · rintro ⟨u, hu, hadmin⟩
      refine ⟨_, Table.mem_update.mpr ⟨u, hu, rfl⟩, ?_⟩
      split
      · exact (hsame u _).mpr hadmin
      · exact hadmin

theorem hasAdmin_deleteUser (h : db.HasAdmin) :
    ((Write.deleteUser id).effect now db).HasAdmin ↔ ¬ db.OnlyAdmin id := by
  simp only [Write.effect, Write.apply, deleteUser, Option.map_some, Option.getD_some]
  split
  · constructor
    · rintro ⟨u, hu, hadmin⟩ honly
      obtain ⟨hmem, hid⟩ := List.mem_filter.mp hu
      exact absurd (honly u hmem hadmin) (by simpa using hid)
    · intro hno
      by_contra hnone
      refine hno fun u hu hadmin => by_contra fun hid => hnone ⟨u, ?_, hadmin⟩
      exact List.mem_filter.mpr ⟨hu, by simpa using hid⟩
  · next hmissing =>
    refine ⟨fun _ honly => hmissing ?_, fun _ => h⟩
    obtain ⟨u, hu, hadmin⟩ := h
    exact List.any_eq_true.mpr ⟨u, hu, by simpa using honly u hu hadmin⟩

theorem hasAdmin_insertUser (h : db.HasAdmin) {u : User} {applied : Applied}
    (ha : db.insertGivenUser u = some applied) : applied.db.HasAdmin := by
  simp only [insertGivenUser, insertUser] at ha
  split at ha
  · cases ha
    obtain ⟨row, hrow, hadmin⟩ := h
    exact ⟨row, List.mem_append_left _ hrow, hadmin⟩
  · cases ha

end Db

/-! ## The requests -/

section Requests

variable {now : Int} {conn : Conn} {authHeader : String} {user : User}

/-- An administrator's update of a user rewrites the row, whatever becomes of the password. -/
theorem putUser_db (hv : conn.db.Valid) (hauth : Authenticates now conn authHeader user)
    (hrole : user.role = .admin) {id : Int} {json : Json} {row : UserRow} {name email : String}
    {active : Bool} (hrow : conn.db.findUser id = some row)
    (hf : UserFields row json name email active) :
    (((Endpoint.putUser id (some json)).run now authHeader conn).2.db.HasAdmin ↔
      (conn.db.rewriteUser name email active id).HasAdmin) := by
  have hput := Conn.runExcept_putUser hauth hrole id (some json)
  have hrun := Conn.runExcept_updateStored now hv hrow hf
  have hwritten : (conn.write now (.updateUser name email (flag active) id)).2.db =
      conn.db.rewriteUser name email active id := Conn.write_db now _ conn
  generalize (conn.write now (.updateUser name email (flag active) id)).2 = written
    at hrun hwritten
  rw [Endpoint.run, Endpoint.handler, hput]
  rcases @Conn.runExcept_changePassword now id json written with
    ⟨e, -, hpass⟩ | ⟨password, conn', -, hpass, hdb⟩
  · -- the password field is ill-typed
    rw [Conn.runExcept_bind, hpass] at hrun
    rw [(Conn.putUserRoute_of_throw hrun).2, hwritten]
  · have hv' : conn'.db.Valid := by
      rw [hdb, hwritten]
      have hvalid := @Write.effect_valid now _ hv (.updateUser name email (flag active) id)
      exact Db.Valid.withPassword hvalid
    obtain ⟨found, hanswer⟩ := @Conn.runExcept_userAnswer now _ hv' id
      fun updated => successResponse 200 (updated.map User.toJson) "User updated"
    rw [Conn.runExcept_bind, hpass] at hrun
    have hroute : conn.runExcept now (Conn.putUserRoute id (some json)) = (.ok _, conn') :=
      Conn.runExcept_catchJson_ok (hrun.trans hanswer)
    rw [hroute, hdb, hwritten]
    exact Db.hasAdmin_withPassword password

/-- An administrator's deletion of another user. -/
theorem deleteUser_db (hauth : Authenticates now conn authHeader user) (hrole : user.role = .admin)
    {id : Int} (hne : user.id ≠ id) :
    ((Endpoint.deleteUser id).run now authHeader conn).2.db =
      (Write.deleteUser id).effect now conn.db := by
  simp [Endpoint.run, Endpoint.handler, AdminController.deleteUser, Conn.runExcept_bind, hauth.run,
    hrole, hne, UserRepository.remove, Conn.write_db]

/-- After a request on users some administrator is active, unless it was an administrator's
request against the only one. -/
theorem hasAdmin_request (hv : conn.db.Valid) (hadmin : conn.db.HasAdmin) {endpoint : Endpoint}
    (husers : (ApiCall.request authHeader endpoint).OnUsers) :
    (endpoint.run now authHeader conn).2.db.HasAdmin ↔
      ¬ ∃ user, Authenticates now conn authHeader user ∧ user.role = .admin ∧
        endpoint.TakesLastAdmin user conn.db := by
  have hrefused : ∀ {request : Endpoint}, request.Refused now authHeader conn →
      (request.run now authHeader conn).2.db.HasAdmin := fun h => by
    have hsame : (_ : Db) = conn.db := h.2
    rw [Endpoint.run, hsame]
    exact hadmin
  cases endpoint with
  | postUsers body =>
    refine ⟨?_, fun _ => ?_⟩
    · rintro _ ⟨_, _, _, h⟩
      exact h
    rcases @Endpoint.postUsers_cases now _ authHeader hv body with
      h | ⟨user, -, -, -, u, applied, ha, hdb⟩
    · exact hrefused h
    · rw [hdb]
      exact Db.hasAdmin_insertUser hadmin ha
  | putUser id body =>
    constructor
    · rintro hafter ⟨user, hauth, hrole, honly, json, row, name, email, rfl, hrow, hf⟩
      have hrewritten := (putUser_db hv hauth hrole hrow hf).mp hafter
      exact (Db.hasAdmin_rewriteUser hadmin name email false).mp hrewritten ⟨honly, rfl⟩
    · intro hno
      have hkept : ∀ {user json row name email active}, Authenticates now conn authHeader user →
          user.role = .admin → body = some json → conn.db.findUser id = some row →
          UserFields row json name email active →
          (conn.db.rewriteUser name email active id).HasAdmin := by
        intro user json row name email active hauth hrole hbody hrow hf
        refine (Db.hasAdmin_rewriteUser hadmin name email active).mpr ?_
        rintro ⟨honly, rfl⟩
        exact hno ⟨user, hauth, hrole, honly, json, row, name, email, hbody, hrow, hf⟩
      rcases @Endpoint.putUser_cases now _ authHeader hv id body with
        h |
        ⟨user, hauth, -, hrole, json, row, name, email, active, password, hbody, hrow, hf, -, hdb⟩ |
          ⟨⟨user, hauth, hrole⟩, -, id', json, row, name, email, active, e, hput, hrow, hf, -, hdb⟩
      · exact hrefused h
      · rw [hdb, Db.hasAdmin_withPassword]
        exact hkept hauth hrole hbody hrow hf
      · cases hput
        rw [hdb]
        exact hkept hauth hrole rfl hrow hf
  | deleteUser id =>
    constructor
    · rintro hafter ⟨user, hauth, hrole, honly, hne⟩
      rw [deleteUser_db hauth hrole hne, Db.hasAdmin_deleteUser hadmin] at hafter
      exact hafter honly
    · intro hno
      rcases @Endpoint.deleteUser_cases now conn authHeader id with
        h | ⟨user, hauth, -, hrole, hne, hdb⟩
      · exact hrefused h
      · rw [hdb, Db.hasAdmin_deleteUser hadmin]
        exact fun honly => hno ⟨user, hauth, hrole, honly, hne⟩
  | postCourses | putCourse | deleteCourse | postRegister | deleteRegister => exact husers.elim

end Requests

/-! ## Runs -/

/-- A database whose schema constraints hold, without an open transaction. -/
structure Api.Consistent (s : Api) : Prop where
  idle : s.conn.saved = none
  valid : s.conn.db.Valid

section Runs

variable {s₀ s s' : Api} {call : ApiCall × Int} {history : List (Event Api (ApiCall × Int))}

theorem Api.Consistent.step (hs : s.Consistent) (husers : call.1.OnUsers)
    (hstep : s.step call = some s') : s'.Consistent := by
  obtain ⟨-, hconn, -⟩ := Api.step_cases hstep
  obtain ⟨call, now⟩ := call
  cases call with
  | request authHeader endpoint =>
    have hvalid : s.conn.Valid := ⟨hs.valid, fun d hd => by rw [hs.idle] at hd; cases hd⟩
    refine ⟨?_, ?_⟩
    · rw [hconn]
      exact endpoint.run_saved hs.idle authHeader
    · rw [hconn]
      exact (Conn.run_valid _ hvalid).db
  | _ => exact husers.elim

/-- One request in a run. -/
theorem hasAdmin_step (hs : s.Consistent) (hadmin : s.conn.db.HasAdmin) (husers : call.1.OnUsers)
    (hstep : s.step call = some s') : s'.conn.db.HasAdmin ↔ ¬ LocksOut ⟨s, call, s'⟩ := by
  obtain ⟨-, hconn, -⟩ := Api.step_cases hstep
  obtain ⟨call, now⟩ := call
  cases call with
  | request authHeader endpoint =>
    rw [hconn]
    refine (hasAdmin_request hs.valid hadmin husers).trans (not_congr ⟨?_, ?_⟩)
    · rintro ⟨user, hauth, hrole, htakes⟩
      exact ⟨authHeader, endpoint, user, rfl, hauth, hrole, htakes⟩
    · rintro ⟨authHeader, endpoint, user, heq, hauth, hrole, htakes⟩
      cases heq
      exact ⟨user, hauth, hrole, htakes⟩
  | _ => exact husers.elim

theorem consistent_of_run (hs₀ : s₀.Consistent) (hr : Run Api.step s₀ history s)
    (husers : ∀ e ∈ history, e.label.1.OnUsers) : s.Consistent := by
  induction hr with
  | start => exact hs₀
  | snoc _ hstep ih =>
    have hold := ih fun e he => husers e (List.mem_cons_of_mem _ he)
    exact hold.step (husers _ List.mem_cons_self) hstep

/-- From every database with an active administrator, for every requests on users: in each state
some administrator is active if and only if no administrator's request updates or deletes the
only one. -/
theorem hasAdmin_iff (hs₀ : s₀.Consistent) (hadmin : s₀.conn.db.HasAdmin)
    (hr : Run Api.step s₀ history s) (husers : ∀ e ∈ history, e.label.1.OnUsers) :
    (∀ past t, past <:+ history → Run Api.step s₀ past t → t.conn.db.HasAdmin) ↔
      ∀ e ∈ history, ¬ LocksOut e := by
  constructor
  · intro hall e he
    obtain ⟨past, hpast, hsuffix⟩ := hr.exists_prefix e he
    have hstep := hr.step_of_mem e he
    have hbefore := hall past e.before ((List.suffix_cons e past).trans hsuffix) hpast
    have hconsistent := consistent_of_run hs₀ hpast fun e' he' =>
      husers e' (hsuffix.subset (List.mem_cons_of_mem e he'))
    exact (hasAdmin_step hconsistent hbefore (husers e he) hstep).mp
      (hall (e :: past) e.after hsuffix (hpast.snoc hstep))
  · intro hno past t hsuffix ht
    induction ht with
    | start => exact hadmin
    | @snoc past s s' call hpast hstep ih =>
      have hrest : past <:+ history := (List.suffix_cons _ past).trans hsuffix
      have hlast := hsuffix.subset List.mem_cons_self
      have hconsistent := consistent_of_run hs₀ hpast fun e he => husers e (hrest.subset he)
      exact (hasAdmin_step hconsistent (ih hrest) (husers _ hlast) hstep).mpr (hno _ hlast)

end Runs

/-! ## The only administrator -/

theorem adminLoggedIn_consistent : adminLoggedIn.Consistent :=
  ⟨adminLoggedIn_reachable.sound.idle, adminLoggedIn_reachable.sound.valid⟩

theorem adminLoggedIn_otherAdmin :
    ∃ u ∈ adminLoggedIn.conn.db.users, u.IsActiveAdmin ∧ u.id ≠ 5 := by decide +kernel

theorem adminLoggedIn_hasAdmin : adminLoggedIn.conn.db.HasAdmin := by
  obtain ⟨u, hu, hadmin, _⟩ := adminLoggedIn_otherAdmin
  exact ⟨u, hu, hadmin⟩

/-- The administrator deletes a student. -/
theorem hasAdmin_iff_deleteStudent : ∃ s history, Run Api.step adminLoggedIn history s ∧
    history ≠ [] ∧
    ∀ past t, past <:+ history → Run Api.step adminLoggedIn past t → t.conn.db.HasAdmin := by
  let call : ApiCall × Int := (.request "Bearer a11ce" (.deleteUser 5), 0)
  have hr : Run Api.step adminLoggedIn [⟨adminLoggedIn, call, ⟨call.1.run 0 adminLoggedIn.conn, 0⟩⟩]
      ⟨call.1.run 0 adminLoggedIn.conn, 0⟩ := Run.start.snoc rfl
  have hother : ¬ adminLoggedIn.conn.db.OnlyAdmin 5 := by
    obtain ⟨u, hu, hadmin, hid⟩ := adminLoggedIn_otherAdmin
    exact fun honly => hid (honly u hu hadmin)
  refine ⟨_, _, hr, by simp, (hasAdmin_iff adminLoggedIn_consistent adminLoggedIn_hasAdmin hr
    fun e he => ?_).mpr fun e he => ?_⟩
  · rw [List.mem_singleton.mp he]
    trivial
  · rw [List.mem_singleton.mp he]
    rintro ⟨authHeader, endpoint, user, heq, -, -, htakes⟩
    cases heq
    exact hother htakes.1

/-- The administrator deactivates himself. -/
def deactivateSelf : ApiCall :=
  .request "Bearer a11ce" (.putUser 1 (some (.obj [("active", .bool false)])))

/-- After that nobody can log in as an administrator. -/
theorem deactivateSelf_locksOut : ¬ ∀ (s₀ s : Api) (history : List (Event Api (ApiCall × Int))),
    s₀.Consistent → s₀.conn.db.HasAdmin → Run Api.step s₀ history s →
    (∀ e ∈ history, e.label.1.OnUsers ∧ ∃ authHeader endpoint user,
      e.label.1 = .request authHeader endpoint ∧
        Authenticates e.label.2 e.before.conn authHeader user ∧ user.role = .admin) →
    s.conn.db.HasAdmin := by
  intro hall
  have hr : Run Api.step adminLoggedIn
      [⟨adminLoggedIn, (deactivateSelf, 0), ⟨deactivateSelf.run 0 adminLoggedIn.conn, 0⟩⟩]
      ⟨deactivateSelf.run 0 adminLoggedIn.conn, 0⟩ := Run.start.snoc rfl
  have hnone : ¬ (deactivateSelf.run 0 adminLoggedIn.conn).db.HasAdmin := by decide +kernel
  refine hnone (hall _ _ _ adminLoggedIn_consistent adminLoggedIn_hasAdmin hr fun e he => ?_)
  rw [List.mem_singleton.mp he]
  exact ⟨trivial, _, _, systemAdministrator, rfl, adminLoggedIn_authenticates, rfl⟩

end AcademiaCr.Backend
