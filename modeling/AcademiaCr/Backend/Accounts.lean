import Mathlib.Data.List.TakeWhile
import AcademiaCr.Backend.ApiRuns

/-!
# Users and sessions

What the calls of a run do to the tables of users and sessions: each executes at most two
statements on them. A token is known to the database up to its first NUL character.

## Main definitions

- `SessionRow.liveAt`: the sessions that `validate_session` accepts
- `Db.accepts`: the user whom `login` accepts
- `ApiCall.Executes`: the statements on users and sessions that a call executes
- `Accounts`: the invariant of both tables along a run
-/

namespace AcademiaCr.Backend

open Resumption Transition

/-! ## Validating a token -/

/-- `expires_at > datetime('now')`. -/
def SessionRow.liveAt (now : Int) (row : SessionRow) : Bool := row.expiresAt.all (now < ·)

/-- Time only ends sessions. -/
theorem SessionRow.liveAt_of_le {row : SessionRow} {now later : Int} (hle : now ≤ later)
    (h : row.liveAt later = true) : row.liveAt now = true := by
  simp only [liveAt, Option.all_eq_true, decide_eq_true_eq] at h ⊢
  intro t ht
  have := h t ht
  omega

namespace Conn

variable {now : Int} {conn : Conn}

/-- The answer to a token is that of the first live session with it. -/
theorem runExcept_validateToken (token : String) :
    conn.runExcept now (AuthService.validateToken token) =
      match conn.db.sessions.find? fun s => s.token = bindText token ∧ s.liveAt now with
      | none => (.ok none, conn)
      | some row => conn.runExcept now (UserRepository.findById row.userId) := by
  simp only [AuthService.validateToken, UserRepository.validateSession, runExcept_bind,
    runExcept_liftM, run_select, Query.eval]
  rw [show (fun s : SessionRow => decide (s.token = bindText token ∧
    s.expiresAt.all (now < ·) = true)) = fun s => decide (s.token = bindText token ∧
    s.liveAt now = true) from rfl]
  cases conn.db.sessions.find? fun s => s.token = bindText token ∧ s.liveAt now <;> rfl

/-- A token that is valid belongs to a live session of a user. -/
theorem session_of_validateToken (hv : conn.db.Valid) {token : String} {user : User}
    (h : (conn.runExcept now (AuthService.validateToken token)).1 = .ok (some user)) :
    ∃ row ∈ conn.db.sessions, row.token = bindText token ∧ row.liveAt now = true ∧
      row.userId = user.id ∧ ∃ u ∈ conn.db.users, u.id = user.id := by
  rw [runExcept_validateToken] at h
  cases hfind : conn.db.sessions.find? fun s => s.token = bindText token ∧ s.liveAt now with
  | none => rw [hfind] at h; cases h
  | some row =>
    rw [hfind] at h
    dsimp only at h
    have hrow := List.find?_some hfind
    simp only [decide_eq_true_eq] at hrow
    rcases @runExcept_findUser now _ hv row.userId with
      ⟨-, hnone⟩ | ⟨u, found, hu, hfound, hsome⟩
    · simp [hnone] at h
    · rw [hsome] at h
      cases h
      have hid : u.id = row.userId := by simpa using List.find?_some hu
      have huser : user.id = u.id := rowToUser_id hfound
      exact ⟨row, List.mem_of_find?_eq_some hfind, hrow.1, hrow.2, (huser.trans hid).symm, u,
        List.mem_of_find?_eq_some hu, huser.symm⟩

/-- A live session of a user makes its token valid. -/
theorem validateToken_of_session (hv : conn.db.Valid) {row : SessionRow}
    (hrow : row ∈ conn.db.sessions) (htoken : bindText row.token = row.token)
    (hlive : row.liveAt now = true) : ∃ user : User, user.id = row.userId ∧
      (conn.runExcept now (AuthService.validateToken row.token)).1 = .ok (some user) := by
  have hfind : (conn.db.sessions.find? fun s => s.token = bindText row.token ∧ s.liveAt now) =
      some row := by
    obtain ⟨found, hfound⟩ := Option.isSome_iff_exists.mp
      (List.find?_isSome.mpr ⟨row, hrow, by simp [htoken, hlive]⟩ :
        (conn.db.sessions.find? fun s => s.token = bindText row.token ∧ s.liveAt now).isSome = true)
    have hprop := List.find?_some hfound
    simp only [htoken, decide_eq_true_eq] at hprop
    rw [hfound, Table.eq_of_key_eq hv.sessionTokens (List.mem_of_find?_eq_some hfound) hrow hprop.1]
  obtain ⟨u, hu, hid⟩ := hv.sessionUser row hrow
  rw [runExcept_validateToken, hfind]
  rcases @runExcept_findUser now _ hv row.userId with
    ⟨hnone, -⟩ | ⟨u', found, hu', hfound, hsome⟩
  · have := List.find?_eq_none.mp hnone u hu
    simp [hid] at this
  · have hid' : u'.id = row.userId := by simpa using List.find?_some hu'
    exact ⟨found, (rowToUser_id hfound).trans hid', by dsimp only; rw [hsome]⟩

end Conn

/-! ## Logging in -/

theorem rowToUser_passwordHash {row : UserRow} {user : User} (h : rowToUser row = .ok user) :
    user.passwordHash = row.passwordHash := by
  simp only [rowToUser] at h
  cases hrole : stringToRole row.role with
  | error e => rw [hrole] at h; cases h
  | ok role => rw [hrole] at h; cases h; rfl

/-- The active user with the name and the password, whom `login` accepts. -/
def Db.accepts (db : Db) (username password : String) : Option UserRow :=
  (db.users.find? (·.username = bindText username)).filter fun row =>
    row.active ≠ 0 ∧ hashPassword password = row.passwordHash

namespace Conn

variable {now : Int} {conn : Conn}

/-- A login opens a session for the user it accepts, and otherwise does nothing. -/
theorem run_login (hv : conn.db.Valid) (username password generated : String) :
    (conn.db.accepts username password = none ∧ (∃ result : LoginResult, result.success = false ∧
      conn.runExcept now (AuthService.login username password generated) = (.ok result, conn))) ∨
    ∃ row user, conn.db.accepts username password = some row ∧ user.id = row.id ∧
      conn.runExcept now (AuthService.login username password generated) =
        (.ok { success := true, token := generated, user },
          (conn.write now (.insertSession generated row.id)).2) := by
  simp only [AuthService.login, UserRepository.findByUsername, runExcept_bind, runExcept_liftM,
    run_select, Query.eval, Db.accepts]
  cases hrow : conn.db.users.find? (·.username = bindText username) with
  | none => exact Or.inl ⟨rfl, _, rfl, rfl⟩
  | some row =>
    obtain ⟨user, huser, hid, -, -, hactive⟩ :=
      rowToUser_of_valid hv (List.mem_of_find?_eq_some hrow)
    have hhash : user.passwordHash = row.passwordHash := rowToUser_passwordHash huser
    simp only [UserRepository.ofRow, UserRepository.ofRow.liftExcept, huser, runExcept_bind,
      runExcept_mk, runExcept_pure]
    by_cases hoff : row.active = 0
    · exact Or.inl (by simp [hactive, hoff, Option.filter])
    by_cases hpass : hashPassword password = row.passwordHash
    · refine Or.inr ⟨row, user, by simp [hoff, hpass, Option.filter], hid, ?_⟩
      simp [hactive, hoff, hhash, hpass, hid, UserRepository.createSession]
    · exact Or.inl (by simp [hactive, hoff, hhash, hpass, Option.filter])

end Conn

/-! ## Statements on users and sessions -/

/-- Two states of the database with the same users and sessions. -/
structure SameAccounts (db db' : Db) : Prop where
  users : db'.users = db.users
  sessions : db'.sessions = db.sessions
  userSeq : db'.userSeq = db.userSeq

theorem SameAccounts.refl (db : Db) : SameAccounts db db := ⟨rfl, rfl, rfl⟩

theorem SameAccounts.of_onlyRegistrations {db db' : Db} (h : Db.OnlyRegistrations db db') :
    SameAccounts db db' := by
  obtain ⟨rows, seq, rfl⟩ := h
  exact ⟨rfl, rfl, rfl⟩

/-- A statement on courses keeps users and sessions. -/
theorem SameAccounts.of_insertGiven {db : Db} {course : Course} {applied : Applied}
    (h : db.insertGiven course = some applied) : SameAccounts db applied.db := by
  obtain ⟨id, -, -, hdb⟩ := Db.insertGiven_eq_some h
  rw [hdb]
  exact ⟨rfl, rfl, rfl⟩

theorem SameAccounts.of_updateGiven (now : Int) (db : Db) (course : Course) :
    SameAccounts db ((updateGiven course).effect now db) := by
  simp only [updateGiven, Write.effect, Write.apply, Db.updateCourse]
  split <;> exact ⟨rfl, rfl, rfl⟩

/-- The tables after statements one after another. -/
def Db.after (now : Int) (db : Db) (statements : List Write) : Db :=
  statements.foldl (fun db w => w.effect now db) db

@[simp] theorem Db.after_nil (now : Int) (db : Db) : db.after now [] = db := rfl

@[simp] theorem Db.after_cons (now : Int) (db : Db) (w : Write) (ws : List Write) :
    db.after now (w :: ws) = (w.effect now db).after now ws := rfl

/-- The statements on users and sessions that a call can execute. -/
inductive ApiCall.Executes (db : Db) : ApiCall → List Write → Prop
  | refused {username password generated : String} (h : db.accepts username password = none) :
    Executes db (.login username password generated) []
  | login {username password generated : String} {row : UserRow}
    (h : db.accepts username password = some row) :
    Executes db (.login username password generated) [.insertSession generated row.id]
  | logout {token : String} : Executes db (.logout token) [.deleteSession token]
  | validateToken {token : String} : Executes db (.validateToken token) []
  | cleanup : Executes db .cleanupExpiredSessions [.cleanupSessions]
  | updateUser {user : User} : Executes db (.updateUser user)
    [.updateUser user.name user.email (flag user.active) user.id]
  | updatePassword {id : Int} {hash : String} :
    Executes db (.updatePassword id hash) [.updatePassword hash id]
  | removeUser {id : Int} : Executes db (.removeUser id) [.deleteUser id]
  | request {authHeader : String} {endpoint : Endpoint} :
      Executes db (.request authHeader endpoint) []
  | postUsers {authHeader : String} {body : Option Json} {user : User} :
    Executes db (.request authHeader (.postUsers body))
      [.insertUser user.username user.passwordHash (roleToString user.role) user.name user.email
        (flag user.active)]
  | putUser {authHeader : String} {id : Int} {body : Option Json} {name email : String}
    {active : Bool} : Executes db (.request authHeader (.putUser id body))
      [.updateUser name email (flag active) id]
  | putPassword {authHeader : String} {id : Int} {body : Option Json} {name email hash : String}
    {active : Bool} : Executes db (.request authHeader (.putUser id body))
      [.updateUser name email (flag active) id, .updatePassword hash id]
  | deleteUser {authHeader : String} {id : Int} :
    Executes db (.request authHeader (.deleteUser id)) [.deleteUser id]

/-- Every request executes such statements. -/
theorem Endpoint.executes {now : Int} {conn : Conn} (hs : Sound conn) (authHeader : String)
    (endpoint : Endpoint) : ∃ ws, ApiCall.Executes conn.db (.request authHeader endpoint) ws ∧
      SameAccounts (conn.db.after now ws) (endpoint.run now authHeader conn).2.db := by
  rcases @Endpoint.outcome now _ authHeader hs.idle hs.valid endpoint with
    ⟨-, hdb⟩ | ⟨user, -, -, heffect⟩ |
      ⟨-, -, id, json, row, name, email, active, e, rfl, -, -, -, hdb⟩
  · have hdb' : (endpoint.run now authHeader conn).2.db = conn.db := hdb
    rw [hdb']
    exact ⟨[], .request, .refl _⟩
  · generalize (endpoint.run now authHeader conn).2.db = db at heffect
    cases endpoint with
    | postUsers body =>
      obtain ⟨-, u, applied, ha, rfl⟩ := heffect
      refine ⟨_, @ApiCall.Executes.postUsers _ authHeader body u, ?_⟩
      rw [Db.insertGivenUser] at ha
      simp only [Db.after_cons, Db.after_nil, Write.effect, Write.apply, ha]
      exact .refl _
    | putUser id body =>
      obtain ⟨-, json, row, name, email, active, password, -, -, -, -, rfl⟩ := heffect
      rw [Db.withPassword]
      split
      · exact ⟨_, @ApiCall.Executes.putUser _ _ _ _ name email active, .refl _⟩
      · exact ⟨_, @ApiCall.Executes.putPassword _ _ _ _ name email _ active, .refl _⟩
    | deleteUser id =>
      obtain ⟨-, -, rfl⟩ := heffect
      exact ⟨_, .deleteUser, .refl _⟩
    | postCourses body =>
      obtain ⟨-, json, course, -, -, -, applied, ha, rfl⟩ := heffect
      exact ⟨[], .request, .of_insertGiven ha⟩
    | putCourse id body =>
      obtain ⟨-, json, course, -, -, -, rfl⟩ := heffect
      exact ⟨[], .request, .of_updateGiven now _ _⟩
    | deleteCourse id =>
      cases heffect
      exact ⟨[], .request, rfl, rfl, rfl⟩
    | postRegister c =>
      obtain ⟨-, rfl⟩ := heffect
      exact ⟨[], .request, .of_onlyRegistrations (Db.register_onlyRegistrations _ _ _)⟩
    | deleteRegister c =>
      obtain ⟨-, rfl⟩ := heffect
      exact ⟨[], .request, .of_onlyRegistrations (Db.drop_onlyRegistrations _ _ _)⟩
  · rw [hdb]
    exact ⟨_, @ApiCall.Executes.putUser _ _ _ _ name email active, .refl _⟩

/-- Every call executes such statements. -/
theorem ApiCall.executes {now : Int} {conn : Conn} (hs : Sound conn) (call : ApiCall) :
    ∃ ws, call.Executes conn.db ws ∧
      SameAccounts (conn.db.after now ws) (call.run now conn).db := by
  have hwrite : ∀ w, SameAccounts (conn.db.after now [w]) (conn.write now w).2.db := by
    intro w
    rw [Conn.write_db]
    exact .refl _
  cases call with
  | login username password generated =>
    rcases @Conn.run_login now _ hs.valid username password generated with
      ⟨hnone, result, -, hrun⟩ | ⟨row, user, hrow, -, hrun⟩
    · refine ⟨[], .refused hnone, ?_⟩
      rw [ApiCall.run, hrun]
      exact .refl _
    · refine ⟨_, .login hrow, ?_⟩
      rw [ApiCall.run, hrun]
      exact hwrite _
  | logout token => exact ⟨_, .logout, hwrite (.deleteSession token)⟩
  | validateToken token =>
    refine ⟨[], .validateToken, ?_⟩
    rw [ApiCall.run, Conn.runExcept, Conn.run_readOnly (within_validateToken token)]
    exact .refl _
  | cleanupExpiredSessions => exact ⟨_, .cleanup, hwrite .cleanupSessions⟩
  | updateUser user => exact ⟨_, .updateUser, hwrite (.updateUser ..)⟩
  | updatePassword id hash => exact ⟨_, .updatePassword, hwrite (.updatePassword hash id)⟩
  | removeUser id => exact ⟨_, .removeUser, hwrite (.deleteUser id)⟩
  | request authHeader endpoint => exact endpoint.executes hs authHeader

/-! ## What a statement does to users and sessions -/

section

variable {now : Int} {db : Db}

/-- The other statements leave both tables alone. -/
theorem Write.sameAccounts {w : Write} (hw : ¬ w.onAccounts) :
    SameAccounts db (w.effect now db) := by
  cases w with
  | insertRegistration s c =>
    simp only [effect, apply, Db.insertRegistration]
    split <;> exact ⟨rfl, rfl, rfl⟩
  | insertCourse code name credits facultyId capacity schedule =>
    simp only [effect, apply, Db.insertCourse]
    split <;> exact ⟨rfl, rfl, rfl⟩
  | updateCourse name credits facultyId capacity schedule id =>
    simp only [effect, apply, Db.updateCourse]
    split <;> exact ⟨rfl, rfl, rfl⟩
  | reactivateRegistration | dropRegistration | deleteCourse => exact ⟨rfl, rfl, rfl⟩
  | insertUser | updateUser | updatePassword | deleteUser | insertSession | deleteSession
  | cleanupSessions => exact absurd trivial hw

/-- A session after a statement was there before, and the statement neither replaced nor
deleted it, or the statement opened it. -/
theorem Write.sessions_effect (w : Write) {row : SessionRow}
    (h : row ∈ (w.effect now db).sessions) :
    (row ∈ db.sessions ∧
      (∀ token userId, w = .insertSession token userId → db.userExists userId = true →
        row.token ≠ bindText token) ∧
      ∀ token, w = .deleteSession token → row.token ≠ bindText token) ∨
    ∃ token userId, w = .insertSession token userId ∧ row.token = bindText token ∧
      row.userId = userId ∧ row.expiresAt = some (now + 24 * 3600) := by
  by_cases hw : w.onAccounts
  swap
  · rw [(sameAccounts hw).sessions] at h
    refine Or.inl ⟨h, ?_, ?_⟩
    · rintro token userId rfl
      exact absurd trivial hw
    · rintro token rfl
      exact absurd trivial hw
  cases w with
  | insertSession token userId =>
    -- `INSERT OR REPLACE` takes the row of the same token away
    simp only [effect, apply, Db.insertSession] at h
    cases huser : db.userExists userId with
    | false =>
      rw [huser] at h
      exact Or.inl ⟨h, by simp +contextual [huser], by simp⟩
    | true =>
      rw [huser] at h
      obtain hkept | hnew := List.mem_append.mp h
      · obtain ⟨hrow, hne⟩ := List.mem_filter.mp hkept
        refine Or.inl ⟨hrow, fun token' userId' hw _ => ?_, by simp⟩
        cases hw
        simpa using hne
      · rw [List.mem_singleton.mp hnew]
        exact Or.inr ⟨token, userId, rfl, rfl, rfl, rfl⟩
  | deleteSession token =>
    obtain ⟨hrow, hne⟩ := List.mem_filter.mp h
    refine Or.inl ⟨hrow, by simp, fun token' hw => ?_⟩
    cases hw
    simpa using hne
  | cleanupSessions => exact Or.inl ⟨(List.mem_filter.mp h).1, by simp, by simp⟩
  | deleteUser id =>
    refine Or.inl ⟨?_, by simp, by simp⟩
    simp only [effect, apply, Db.deleteUser, Option.map_some, Option.getD_some] at h
    split at h
    · exact (List.mem_filter.mp h).1
    · exact h
  | insertUser username hash role name email active =>
    refine Or.inl ⟨?_, by simp, by simp⟩
    simp only [effect, apply, Db.insertUser] at h
    split at h <;> exact h
  | updateUser | updatePassword => exact Or.inl ⟨h, by simp, by simp⟩
  | insertRegistration | insertCourse | updateCourse | reactivateRegistration | dropRegistration
  | deleteCourse => exact hw.elim

/-- A user after a statement has a new id, or was there before with the same flag unless the
statement set it. -/
theorem Write.users_effect (w : Write) {u : UserRow} (h : u ∈ (w.effect now db).users) :
    (∃ u₀ ∈ db.users, u₀.id = u.id ∧
      (u.active = u₀.active ∨ ∃ name email, w = .updateUser name email u.active u.id)) ∨
    (db.userSeq < u.id ∧ u.id ≤ (w.effect now db).userSeq) := by
  have hold : u ∈ db.users → (∃ u₀ ∈ db.users, u₀.id = u.id ∧
      (u.active = u₀.active ∨ ∃ name email, w = .updateUser name email u.active u.id)) ∨
      (db.userSeq < u.id ∧ u.id ≤ (w.effect now db).userSeq) :=
    fun hu => Or.inl ⟨u, hu, rfl, Or.inl rfl⟩
  by_cases hw : w.onAccounts
  swap
  · rw [(sameAccounts hw).users] at h
    exact hold h
  cases w with
  | insertUser username hash role name email active =>
    cases ha : db.insertUser username hash role name email active with
    | none =>
      simp only [effect, apply, ha] at h
      exact hold h
    | some applied =>
      have heffect :
        (insertUser username hash role name email active).effect now db = applied.db := by
        simp only [effect, apply, ha, Option.map_some, Option.getD_some]
      rw [heffect] at h ⊢
      simp only [Db.insertUser] at ha
      split at ha
      · cases ha
        obtain hu | hnew := List.mem_append.mp h
        · exact Or.inl ⟨u, hu, rfl, Or.inl rfl⟩
        · rw [List.mem_singleton.mp hnew]
          exact Or.inr ⟨Table.given_lt_nextKey _ _, le_refl _⟩
      · cases ha
  | updateUser name email active id =>
    obtain ⟨u₀, hu₀, rfl⟩ := Table.mem_update.mp h
    split
    · next hid =>
      have hid : u₀.id = id := by simpa using hid
      exact Or.inl ⟨u₀, hu₀, rfl, Or.inr ⟨name, email, by rw [← hid]⟩⟩
    · exact Or.inl ⟨u₀, hu₀, rfl, Or.inl rfl⟩
  | updatePassword hash id =>
    -- another hash, the same flag
    obtain ⟨u₀, hu₀, rfl⟩ := Table.mem_update.mp h
    refine Or.inl ⟨u₀, hu₀, ?_⟩
    split <;> exact ⟨rfl, Or.inl rfl⟩
  | deleteUser id =>
    simp only [effect, apply, Db.deleteUser, Option.map_some, Option.getD_some] at h
    split at h
    · exact hold (List.mem_filter.mp h).1
    · exact hold h
  | insertSession token userId =>
    simp only [effect, apply, Db.insertSession] at h
    split at h <;> exact hold h
  | deleteSession | cleanupSessions => exact hold h
  | insertRegistration | insertCourse | updateCourse | reactivateRegistration | dropRegistration
  | deleteCourse => exact hw.elim

/-- Ids of users are never given out twice. -/
theorem Write.userSeq_effect (w : Write) : db.userSeq ≤ (w.effect now db).userSeq := by
  by_cases hw : w.onAccounts
  swap
  · exact (sameAccounts hw).userSeq.ge
  cases w with
  | insertUser username hash role name email active =>
    simp only [effect, apply, Db.insertUser]
    split
    · exact (Table.given_lt_nextKey _ _).le
    · exact le_refl _
  | deleteUser id =>
    simp only [effect, apply, Db.deleteUser, Option.map_some, Option.getD_some]
    split <;> exact le_refl _
  | insertSession token userId =>
    simp only [effect, apply, Db.insertSession]
    split <;> exact le_refl _
  | updateUser | updatePassword | deleteSession | cleanupSessions => exact le_refl _
  | insertRegistration | insertCourse | updateCourse | reactivateRegistration | dropRegistration
  | deleteCourse => exact hw.elim

end

/-! ## The invariant -/

/-- What a run keeps of users and sessions besides the constraints: ids come from the
sequence, tokens are as the database stores them, sessions expire. -/
structure Accounts (db : Db) : Prop where
  issued : ∀ u ∈ db.users, u.id ≤ db.userSeq
  stored : ∀ row ∈ db.sessions, bindText row.token = row.token
  expires : ∀ row ∈ db.sessions, ∃ t, row.expiresAt = some t

/-- Storing a stored text changes nothing. -/
theorem bindText_bindText (text : String) : bindText (bindText text) = bindText text := by
  rw [bindText, bindText, String.toList_ofList, List.takeWhile_idem]

namespace Accounts

variable {now : Int} {db db' : Db}

theorem effect (h : Accounts db) (w : Write) : Accounts (w.effect now db) where
  issued := by
    intro u hu
    obtain ⟨u₀, hu₀, hid, -⟩ | ⟨-, hle⟩ := w.users_effect hu
    · rw [← hid]
      exact (h.issued u₀ hu₀).trans w.userSeq_effect
    · exact hle
  stored := by
    intro row hrow
    obtain ⟨hold, -⟩ | ⟨token, userId, -, htoken, -⟩ := w.sessions_effect hrow
    · exact h.stored row hold
    · rw [htoken, bindText_bindText]
  expires := by
    intro row hrow
    obtain ⟨hold, -⟩ | ⟨token, userId, -, -, -, hexp⟩ := w.sessions_effect hrow
    · exact h.expires row hold
    · exact ⟨_, hexp⟩

theorem after (h : Accounts db) (ws : List Write) : Accounts (db.after now ws) := by
  induction ws generalizing db with
  | nil => exact h
  | cons w ws ih => exact ih (h.effect w)

theorem same (h : Accounts db) (hsame : SameAccounts db db') : Accounts db' where
  issued := by
    rw [hsame.users, hsame.userSeq]
    exact h.issued
  stored := by
    rw [hsame.sessions]
    exact h.stored
  expires := by
    rw [hsame.sessions]
    exact h.expires

theorem call {conn : Conn} (h : Accounts conn.db) (hs : Sound conn) (call : ApiCall) :
    Accounts (call.run now conn).db := by
  obtain ⟨ws, -, hsame⟩ := @ApiCall.executes now _ hs call
  exact (h.after ws).same hsame

end Accounts

theorem startup_sessions (seed : Bool) : (startup seed).db.sessions = [] := by
  cases seed with
  | false => rfl
  | true => decide +kernel

theorem startup_accounts (seed : Bool) : Accounts (startup seed).db where
  issued := by
    cases seed with
    | false => exact fun u hu => by cases hu
    | true => decide +kernel
  stored := by simp [startup_sessions]
  expires := by simp [startup_sessions]

/-- Every reachable state satisfies the invariant. -/
theorem Reachable.accounts {s : Api} (h : Reachable s) : Accounts s.conn.db := by
  obtain ⟨seed, clock, history, hr⟩ := h
  refine (hr.invariant (I := fun s => Sound s.conn ∧ Accounts s.conn.db) (A := fun _ => True)
    ⟨startup_sound seed, startup_accounts seed⟩ ?_ fun _ _ => trivial).2
  rintro s call s' ⟨hs, ha⟩ hstep -
  rw [(Api.step_cases hstep).2.1]
  exact ⟨hs.call call.1, ha.call hs call.1⟩

end AcademiaCr.Backend
