import AcademiaCr.Backend.Accounts
import AcademiaCr.Backend.Atomicity

/-!
# Sessions and the history of a run

A token is valid for a user only by the latest login that issued it, for a day, until it is
logged out or the user is deleted. Whether expired sessions are cleaned up meanwhile makes
no difference to any validation.

## Main definitions

- `LoginOf`, `Issues`, `LogsOut`: what a step does to a token
- `LoggedIn`: the history justifies that a token is valid for a user
- `WithCleanups`: a schedule with calls of `cleanup_expired_sessions` inserted
- `Api.answers`: the results of the validations of a schedule
- `session_soundness`
-/

namespace AcademiaCr.Backend

open Resumption Transition

/-! ## The history of a token -/

/-- A login that succeeds for the user, who is active and has the given password, with a
token that the database cannot tell from the given one. -/
structure LoginOf (token : String) (userId : Int) (e : Event Api (ApiCall × Int)) : Prop where
  succeeds : ∃ username password generated, ∃ result : LoginResult, ∃ u ∈ e.before.conn.db.users,
    e.label.1 = .login username password generated ∧ bindText generated = bindText token ∧
    (e.before.conn.runExcept e.label.2 (AuthService.login username password generated)).1 =
      .ok result ∧ result.success = true ∧ result.token = generated ∧ result.user.id = userId ∧
    u.id = userId ∧ u.username = bindText username ∧ u.active ≠ 0 ∧
    u.passwordHash = hashPassword password

/-- A login that succeeds with such a token, for whomever. -/
def Issues (token : String) (e : Event Api (ApiCall × Int)) : Prop :=
  ∃ userId, LoginOf token userId e

/-- A logout with such a token. -/
def LogsOut (token : String) (e : Event Api (ApiCall × Int)) : Prop :=
  ∃ token', e.label.1 = .logout token' ∧ bindText token' = bindText token

/-- The latest login that issued the token was one of the user less than a day ago; since
then the token was not logged out and the user was there all the time. -/
def LoggedIn (history : List (Event Api (ApiCall × Int))) (now : Int) (token : String)
    (userId : Int) : Prop :=
  ∃ later e past, history = later ++ e :: past ∧ LoginOf token userId e ∧
    now < e.label.2 + 24 * 3600 ∧ ∀ e' ∈ later, ¬ Issues token e' ∧ ¬ LogsOut token e' ∧
      ∃ u ∈ e'.after.conn.db.users, u.id = userId

/-! ## Where a session comes from -/

theorem Db.accepts_eq_some {db : Db} {username password : String} {row : UserRow}
    (h : db.accepts username password = some row) :
    row ∈ db.users ∧ row.username = bindText username ∧ row.active ≠ 0 ∧
      row.passwordHash = hashPassword password := by
  obtain ⟨hfind, hrow⟩ := Option.filter_eq_some_iff.mp h
  simp only [decide_eq_true_eq] at hrow
  exact ⟨List.mem_of_find?_eq_some hfind, by simpa using List.find?_some hfind, hrow.1, hrow.2.symm⟩

/-- A session after a call was there before, and the call neither issued nor logged out its
token, or the call is the login that opened it. -/
theorem session_of_executes {now : Int} {db : Db} {call : ApiCall} {ws : List Write}
    (hws : call.Executes db ws) {row : SessionRow} (hrow : row ∈ (db.after now ws).sessions) :
    (row ∈ db.sessions ∧
      (∀ username password generated u, call = .login username password generated →
        db.accepts username password = some u → row.token ≠ bindText generated) ∧
      ∀ token, call = .logout token → row.token ≠ bindText token) ∨
    ∃ username password generated u, call = .login username password generated ∧
      db.accepts username password = some u ∧ row.token = bindText generated ∧
      row.userId = u.id ∧ row.expiresAt = some (now + 24 * 3600) := by
  cases hws with
  | refused hno =>
    refine Or.inl ⟨hrow, ?_, by simp⟩
    rintro _ _ _ u ⟨⟩ hu
    rw [hno] at hu
    cases hu
  | @login username password generated u hu =>
    rw [Db.after_cons, Db.after_nil] at hrow
    rcases Write.sessions_effect _ hrow with
    ⟨hold, hne, -⟩ | ⟨token, userId, hw, htoken, huser, hexp⟩
    · refine Or.inl ⟨hold, ?_, by simp⟩
      rintro _ _ _ _ ⟨⟩ -
      exact hne _ _ rfl (Db.userExists_iff.mpr ⟨u, (Db.accepts_eq_some hu).1, rfl⟩)
    · cases hw
      exact Or.inr ⟨_, _, _, u, rfl, hu, htoken, huser, hexp⟩
  | @logout token =>
    rw [Db.after_cons, Db.after_nil] at hrow
    obtain ⟨hold, -, hne⟩ | ⟨_, _, hw, -⟩ := Write.sessions_effect _ hrow
    · refine Or.inl ⟨hold, by simp, ?_⟩
      rintro _ ⟨⟩
      exact hne _ rfl
    · cases hw
  | validateToken | request => exact Or.inl ⟨hrow, by simp, by simp⟩
  | cleanup | updateUser | updatePassword | removeUser | postUsers | putUser | deleteUser =>
    rw [Db.after_cons, Db.after_nil] at hrow
    obtain ⟨hold, -, -⟩ | ⟨_, _, hw, -⟩ := Write.sessions_effect _ hrow
    · exact Or.inl ⟨hold, by simp, by simp⟩
    · cases hw
  | putPassword =>
    rw [Db.after_cons, Db.after_cons, Db.after_nil] at hrow
    obtain ⟨hmid, -, -⟩ | ⟨_, _, hw, -⟩ := Write.sessions_effect _ hrow
    · obtain ⟨hold, -, -⟩ | ⟨_, _, hw, -⟩ := Write.sessions_effect _ hmid
      · exact Or.inl ⟨hold, by simp, by simp⟩
      · cases hw
    · cases hw

/-- Tokens that the database cannot tell apart have the same history. -/
theorem LoginOf.congr {token token' : String} (h : bindText token = bindText token') {userId : Int}
    {e : Event Api (ApiCall × Int)} : LoginOf token userId e ↔ LoginOf token' userId e := by
  constructor <;> rintro ⟨h'⟩ <;> refine ⟨?_⟩
  · rwa [← h]
  · rwa [h]

theorem Issues.congr {token token' : String} (h : bindText token = bindText token')
    {e : Event Api (ApiCall × Int)} : Issues token e ↔ Issues token' e :=
  exists_congr fun _ => LoginOf.congr h

theorem LogsOut.congr {token token' : String} (h : bindText token = bindText token')
    {e : Event Api (ApiCall × Int)} : LogsOut token e ↔ LogsOut token' e := by
  rw [LogsOut, LogsOut, h]

/-- Every session has a history that justifies it until it expires. -/
def Traced (history : List (Event Api (ApiCall × Int))) (db : Db) : Prop :=
  ∀ row ∈ db.sessions, ∃ later e past, history = later ++ e :: past ∧
    LoginOf row.token row.userId e ∧ row.expiresAt = some (e.label.2 + 24 * 3600) ∧
    ∀ e' ∈ later, ¬ Issues row.token e' ∧ ¬ LogsOut row.token e' ∧
      ∃ u ∈ e'.after.conn.db.users, u.id = row.userId

/-- A login that the tables accept succeeds. -/
theorem loginOf_of_accepts {e : Event Api (ApiCall × Int)} (hv : e.before.conn.db.Valid)
    {username password generated : String} (hcall : e.label.1 = .login username password generated)
    {u : UserRow} (hu : e.before.conn.db.accepts username password = some u) :
    LoginOf generated u.id e := by
  obtain ⟨hmem, hname, hactive, hpass⟩ := Db.accepts_eq_some hu
  rcases @Conn.run_login e.label.2 _ hv username password generated with
    ⟨hno, -⟩ | ⟨row, user, hrow, hid, hrun⟩
  · rw [hu] at hno; cases hno
  · rw [hu] at hrow
    cases hrow
    exact ⟨username, password, generated, _, u, hmem, hcall, rfl, congrArg Prod.fst hrun, rfl, rfl,
      hid, rfl, hname, hactive, hpass⟩

/-- A login that succeeds is one that the tables accept. -/
theorem accepts_of_issues {e : Event Api (ApiCall × Int)} (hv : e.before.conn.db.Valid)
    {token : String} (h : Issues token e) : ∃ username password generated u,
      e.label.1 = .login username password generated ∧ bindText generated = bindText token ∧
      e.before.conn.db.accepts username password = some u := by
  obtain
    ⟨userId, username, password, generated, result, -, -, hcall, htoken, hresult, hsucc, -⟩ := h
  refine ⟨username, password, generated, ?_⟩
  rcases @Conn.run_login e.label.2 _ hv username password generated with
    ⟨-, result', hfail, hrun⟩ | ⟨u, user, hu, -, -⟩
  · rw [hrun] at hresult
    cases hresult
    rw [hfail] at hsucc
    cases hsucc
  · exact ⟨u, hcall, htoken, hu⟩

section

variable {seed : Bool} {clock : Int} {history : List (Event Api (ApiCall × Int))} {s : Api}

theorem traced_of_run (hr : ApiRun seed clock history s) : Traced history s.conn.db := by
  induction hr with
  | start =>
    intro row hrow
    rw [show (Api.start seed clock).conn.db.sessions = [] from startup_sessions seed] at hrow
    cases hrow
  | @snoc history s s' label hr hstep ih =>
    obtain ⟨call, now⟩ := label
    have hreach : Reachable s := ⟨seed, clock, history, hr⟩
    have hreach' : Reachable s' := ⟨seed, clock, _, hr.snoc hstep⟩
    obtain ⟨-, hconn, -⟩ := Api.step_cases hstep
    obtain ⟨ws, hws, hsame⟩ := @ApiCall.executes now _ hreach.sound call
    rw [← hconn] at hsame
    intro row hrow
    have hstored := hreach'.accounts.stored row hrow
    have huser := hreach'.sound.valid.sessionUser row hrow
    rw [hsame.sessions] at hrow
    rcases session_of_executes hws hrow with
      ⟨hold, hlogin, hlogout⟩ | ⟨username, password, generated, u, hcall, hu, htoken, hid, hexp⟩
    · -- the step leaves the session alone
      obtain ⟨later, e, past, hhistory, hlog, hexp, hlater⟩ := ih row hold
      refine ⟨⟨s, (call, now), s'⟩ :: later, e, past, by rw [hhistory]; rfl, hlog, hexp, ?_⟩
      intro e' he
      obtain rfl | he := List.mem_cons.mp he
      · refine ⟨fun hissues => ?_, ?_, huser⟩
        · obtain ⟨username, password, generated, u, hcall, htoken, hu⟩ :=
            accepts_of_issues hreach.sound.valid hissues
          exact hlogin username password generated u hcall hu
            (hstored.symm.trans htoken.symm)
        · rintro ⟨token, hcall, htoken⟩
          exact hlogout token hcall (hstored.symm.trans htoken.symm)
      · exact hlater e' he
    · -- the step is the login that opened it
      refine ⟨[], ⟨s, (call, now), s'⟩, history, rfl, ?_, hexp, by simp⟩
      rw [hid]
      exact (LoginOf.congr (hstored.trans htoken)).mpr
        (loginOf_of_accepts hreach.sound.valid hcall hu)

/-- A token that is valid for a user is justified by the history. -/
theorem loggedIn_of_validateToken (hr : ApiRun seed clock history s) {now : Int} {token : String}
    {user : User}
    (h : (s.conn.runExcept now (AuthService.validateToken token)).1 = .ok (some user)) :
    LoggedIn history now token user.id := by
  have hreach : Reachable s := ⟨seed, clock, history, hr⟩
  obtain ⟨row, hrow, htoken, hlive, huser, -⟩ :=
    Conn.session_of_validateToken hreach.sound.valid h
  have heq : bindText row.token = bindText token := by rw [htoken, bindText_bindText]
  obtain ⟨later, e, past, hhistory, hlog, hexp, hlater⟩ := traced_of_run hr row hrow
  refine ⟨later, e, past, hhistory, ?_, ?_, fun e' he => ?_⟩
  · rw [← LoginOf.congr heq, ← huser]
    exact hlog
  · simpa [SessionRow.liveAt, hexp] using hlive
  · rw [← Issues.congr heq, ← LogsOut.congr heq, ← huser]
    exact hlater e' he

end

/-! ## Cleaning up -/

/-- The second schedule is the first with calls of `cleanup_expired_sessions` inserted. -/
inductive WithCleanups : List (ApiCall × Int) → List (ApiCall × Int) → Prop
  | nil : WithCleanups [] []
  | keep {call : ApiCall × Int} {calls calls' : List (ApiCall × Int)} :
    WithCleanups calls calls' → WithCleanups (call :: calls) (call :: calls')
  | insert {now : Int} {calls calls' : List (ApiCall × Int)} :
    WithCleanups calls calls' → WithCleanups calls ((.cleanupExpiredSessions, now) :: calls')

/-- The calls of the session functions and of the user repository. -/
def ApiCall.OnSessions : ApiCall → Prop
  | request _ _ => False
  | _ => True

namespace Api

/-- The result of a validation. -/
def answer (s : Api) : ApiCall × Int → Option (Except Exn (Option User))
  | (.validateToken token, now) => some (s.conn.runExcept now (AuthService.validateToken token)).1
  | _ => none

/-- The results of the validations of a schedule, if its times never go back. -/
def answers : Api → List (ApiCall × Int) → Option (List (Except Exn (Option User)))
  | _, [] => some []
  | s, call :: calls =>
    match s.step call with
    | none => none
    | some s' => (s'.answers calls).map ((s.answer call).toList ++ ·)

end Api

/-- What a validation reads of a session. -/
def SessionRow.data (row : SessionRow) : String × Int × Option Int :=
  (row.token, row.userId, row.expiresAt)

/-- The live sessions in their order. -/
def Db.live (now : Int) (db : Db) : List (String × Int × Option Int) :=
  (db.sessions.filter (·.liveAt now)).map SessionRow.data

/-- The same users, and the same sessions apart from those that have expired. -/
structure SameLive (now : Int) (db db' : Db) : Prop where
  users : db'.users = db.users
  userSeq : db'.userSeq = db.userSeq
  live : db'.live now = db.live now

section

variable {now : Int} {db db' : Db}

theorem SameLive.refl (now : Int) (db : Db) : SameLive now db db := ⟨rfl, rfl, rfl⟩

theorem SameLive.same (h : SameLive now db db') {db₁ db₁' : Db} (h₁ : SameAccounts db db₁)
    (h₁' : SameAccounts db' db₁') : SameLive now db₁ db₁' where
  users := by rw [h₁.users, h₁'.users, h.users]
  userSeq := by rw [h₁.userSeq, h₁'.userSeq, h.userSeq]
  live := by
    have hlive := h.live
    simp only [Db.live] at hlive ⊢
    rw [h₁.sessions, h₁'.sessions, hlive]

/-- The sessions that are live later are live now. -/
theorem live_later {later : Int} (hle : now ≤ later) (db : Db) :
    db.live later = (db.live now).filter fun d => d.2.2.all (later < ·) := by
  rw [Db.live, Db.live, List.filter_map, List.filter_filter]
  congr 1
  refine List.filter_congr fun row _ => ?_
  have hdata : row.data.2.2.all (later < ·) = row.liveAt later := rfl
  simp only [Function.comp_apply, hdata]
  cases hl : row.liveAt later with
  | false => simp
  | true => simp [SessionRow.liveAt_of_le hle hl]

theorem SameLive.mono (h : SameLive now db db') {later : Int} (hle : now ≤ later) :
    SameLive later db db' :=
  ⟨h.users, h.userSeq, by rw [live_later hle, live_later hle, h.live]⟩

/-- A deletion of sessions by token or user deletes the same live ones. -/
theorem live_filter {p : SessionRow → Bool} {q : String × Int × Option Int → Bool}
    (hp : ∀ row, p row = q row.data) {db₁ : Db} (h : db₁.sessions = db.sessions.filter p) :
    db₁.live now = (db.live now).filter q := by
  rw [Db.live, Db.live, h, List.filter_map, List.filter_filter, List.filter_filter]
  congr 1
  refine List.filter_congr fun row _ => ?_
  rw [hp row, Function.comp_apply, Bool.and_comm]

/-- The same deletion on both sides. -/
theorem SameLive.live_filter (h : SameLive now db db') {p : SessionRow → Bool}
    {q : String × Int × Option Int → Bool} (hp : ∀ row, p row = q row.data) (db₁ db₁' : Db)
    (h₁ : db₁.sessions = db.sessions.filter p) (h₁' : db₁'.sessions = db'.sessions.filter p) :
    db₁'.live now = db₁.live now := by
  rw [Backend.live_filter hp h₁', h.live, Backend.live_filter hp h₁]

/-- No live session has expired. -/
theorem live_cleanup (db : Db) : (Write.cleanupSessions.effect now db).live now = db.live now := by
  have hkept : ∀ row : SessionRow, row.liveAt now = true →
      (!row.expiresAt.any (· < now)) = true := by
    intro row hlive
    simp only [SessionRow.liveAt, Option.all_eq_true, decide_eq_true_eq] at hlive
    simp only [Bool.not_eq_true', Option.any_eq_false, decide_eq_false_iff_not, not_lt]
    intro t ht
    exact (hlive t ht).le
  simp only [Db.live, Write.effect, Write.apply, Db.cleanupSessions, Option.map_some,
    Option.getD_some, List.filter_filter]
  congr 1
  refine List.filter_congr fun row _ => ?_
  cases hlive : row.liveAt now with
  | false => simp
  | true => simpa using hkept row hlive

/-- Cleaning up on one side only makes no difference. -/
theorem SameLive.cleanup (h : SameLive now db db') :
    SameLive now db (Write.cleanupSessions.effect now db') :=
  ⟨h.users, h.userSeq, (live_cleanup db').trans h.live⟩

/-- A statement does the same on both sides. -/
theorem SameLive.effect (h : SameLive now db db') (w : Write) :
    SameLive now (w.effect now db) (w.effect now db') := by
  by_cases hw : w.onAccounts
  swap
  · exact h.same (Write.sameAccounts hw) (Write.sameAccounts hw)
  cases w with
  | insertRegistration | insertCourse | updateCourse | reactivateRegistration | dropRegistration
  | deleteCourse => exact hw.elim
  | insertUser username hash role name email active =>
    simp only [Write.effect, Write.apply, Db.insertUser]
    rw [h.users, h.userSeq]
    split
    · exact ⟨rfl, rfl, h.live⟩
    · exact h
  | updateUser name email active id =>
    exact ⟨congrArg (Table.update _ _) h.users, h.userSeq, h.live⟩
  | updatePassword hash id => exact ⟨congrArg (Table.update _ _) h.users, h.userSeq, h.live⟩
  | deleteUser id =>
    have hexists : db'.userExists id = db.userExists id := by
      rw [Db.userExists, h.users, Db.userExists]
    simp only [Write.effect, Write.apply, Db.deleteUser, Option.map_some, Option.getD_some]
    rw [hexists]
    split
    · exact ⟨congrArg (List.filter _) h.users, h.userSeq,
        h.live_filter (q := fun d => decide (d.2.1 ≠ id)) (fun _ => rfl) _ _ rfl rfl⟩
    · exact h
  | insertSession token userId =>
    have hexists : db'.userExists userId = db.userExists userId := by
      rw [Db.userExists, h.users, Db.userExists]
    simp only [Write.effect, Write.apply, Db.insertSession]
    rw [hexists]
    split
    · have hkept := h.live_filter (p := fun row => decide (row.token ≠ bindText token))
        (q := fun d => decide (d.1 ≠ bindText token)) (fun _ => rfl)
        (Write.effect now (.deleteSession token) db) (Write.effect now (.deleteSession token) db')
        rfl rfl
      refine ⟨h.users, h.userSeq, ?_⟩
      -- the new session is the same but for its rowid
      have hnew : ∀ rows : List SessionRow, ∀ rowid, ((rows ++ [(⟨rowid, bindText token, userId,
          some (now + 24 * 3600)⟩ : SessionRow)]).filter (·.liveAt now)).map SessionRow.data =
          (rows.filter (·.liveAt now)).map SessionRow.data ++
            [(bindText token, userId, some (now + 24 * 3600))] := by
        intro rows rowid
        have hlive : (⟨rowid, bindText token, userId, some (now + 24 * 3600)⟩ : SessionRow).liveAt
            now = true := by
          simp only [SessionRow.liveAt, Option.all_some, decide_eq_true_eq]
          omega
        rw [List.filter_append, List.map_append, List.filter_cons_of_pos hlive]
        rfl
      simp only [Db.live, Option.map_some, Option.getD_some, hnew]
      exact congrArg (· ++ _) hkept
    · exact h
  | deleteSession token =>
    exact ⟨h.users, h.userSeq,
      h.live_filter (q := fun d => decide (d.1 ≠ bindText token)) (fun _ => rfl) _ _ rfl rfl⟩
  | cleanupSessions =>
    exact ⟨h.users, h.userSeq, (live_cleanup db').trans (h.live.trans (live_cleanup db).symm)⟩

/-- The same statements one after another. -/
theorem SameLive.after (h : SameLive now db db') (ws : List Write) :
    SameLive now (db.after now ws) (db'.after now ws) := by
  induction ws generalizing db db' with
  | nil => exact h
  | cons w ws ih => exact ih (h.effect w)

/-- Which statements a call executes depends on the users alone. -/
theorem ApiCall.Executes.unique {call : ApiCall} (hcall : call.OnSessions) {ws ws' : List Write}
    (h : call.Executes db ws) (h' : call.Executes db' ws') (husers : db'.users = db.users) :
    ws' = ws := by
  have haccepts : ∀ username password,
      db'.accepts username password = db.accepts username password := by
    intro username password
    rw [Db.accepts, husers, Db.accepts]
  cases h with
  | refused hno =>
    cases h' with
    | refused => rfl
    | login hrow => rw [haccepts, hno] at hrow; cases hrow
  | login hrow =>
    cases h' with
    | refused hno => rw [haccepts, hrow] at hno; cases hno
    | login hrow' =>
      rw [haccepts, hrow] at hrow'
      cases hrow'
      rfl
  | logout | validateToken | cleanup | updateUser | updatePassword | removeUser =>
    cases h'
    rfl
  | request | postUsers | putUser | putPassword | deleteUser => exact hcall.elim

end

section

variable {now : Int} {conn conn' : Conn}

/-- A call does the same on both sides. -/
theorem SameLive.call (h : SameLive now conn.db conn'.db) (hs : Sound conn) (hs' : Sound conn')
    {call : ApiCall} (hcall : call.OnSessions) :
    SameLive now (call.run now conn).db (call.run now conn').db := by
  obtain ⟨ws, hws, hsame⟩ := @ApiCall.executes now _ hs call
  obtain ⟨ws', hws', hsame'⟩ := @ApiCall.executes now _ hs' call
  rw [hws.unique hcall hws' h.users] at hsame'
  exact (h.after ws).same hsame hsame'

/-- The first live session with a token, by its data. -/
theorem Db.find?_live (db : Db) (token : String) :
    (db.sessions.find? fun s => s.token = token ∧ s.liveAt now).map SessionRow.data =
      (db.live now).find? (·.1 = token) := by
  rw [Db.live, List.find?_map, List.find?_filter]
  congr 2
  funext row
  rw [Function.comp_apply, decide_eq_decide, and_comm, decide_eq_true_eq]
  rfl

/-- A validation answers the same on both sides. -/
theorem SameLive.validateToken (h : SameLive now conn.db conn'.db) (token : String) :
    (conn'.runExcept now (AuthService.validateToken token)).1 =
      (conn.runExcept now (AuthService.validateToken token)).1 := by
  have hfind := (@Db.find?_live now conn'.db (bindText token)).trans
    ((congrArg _ h.live).trans (Db.find?_live conn.db (bindText token)).symm)
  have hfound : ∀ id, (conn'.runExcept now (UserRepository.findById id)).1 =
      (conn.runExcept now (UserRepository.findById id)).1 := by
    intro id
    simp only [UserRepository.findById, Conn.runExcept_bind, Conn.runExcept_liftM, Conn.run_select,
      Query.eval, Db.findUser, h.users]
    cases conn.db.users.find? (·.id = id) with
    | none => rfl
    | some row =>
      simp only [UserRepository.ofRow, UserRepository.ofRow.liftExcept]
      cases rowToUser row <;> rfl
  rw [Conn.runExcept_validateToken, Conn.runExcept_validateToken]
  generalize (conn'.db.sessions.find? fun s => s.token = bindText token ∧ s.liveAt now) = found'
    at hfind
  generalize (conn.db.sessions.find? fun s => s.token = bindText token ∧ s.liveAt now) = found
    at hfind
  cases found' with
  | none =>
    cases found with
    | none => rfl
    | some row => cases hfind
  | some row' =>
    cases found with
    | none => cases hfind
    | some row =>
      have hdata : row'.data = row.data := Option.some.inj hfind
      have huser : row'.userId = row.userId := congrArg (·.2.1) hdata
      dsimp only
      rw [huser]
      exact hfound row.userId

end

namespace Api

theorem step_of_le {s : Api} {call : ApiCall × Int} (hle : s.clock ≤ call.2) :
    s.step call = some ⟨call.1.run call.2 s.conn, call.2⟩ := if_pos hle

/-- With the same live sessions and users, the answers are the same with and without the
cleanups. -/
theorem answers_withCleanups {calls calls' : List (ApiCall × Int)} (h : WithCleanups calls calls')
    (hcalls : ∀ call ∈ calls, call.1.OnSessions) {s s' : Api} (hs : Sound s.conn)
    (hs' : Sound s'.conn) (hclock : s.clock ≤ s'.clock)
    (hsame : SameLive s'.clock s.conn.db s'.conn.db) {out : List (Except Exn (Option User))}
    (hout : s'.answers calls' = some out) : s.answers calls = some out := by
  induction h generalizing s s' out with
  | nil => exact hout
  | @keep call calls calls' _ ih =>
    rw [answers] at hout
    cases hstep : s'.step call with
    | none => rw [hstep] at hout; cases hout
    | some t' =>
      rw [hstep] at hout
      obtain ⟨rest, hrest, rfl⟩ := Option.map_eq_some_iff.mp hout
      obtain ⟨hle, hconn, hnow⟩ := step_cases hstep
      have hlive : SameLive call.2 s.conn.db s'.conn.db := hsame.mono hle
      have hanswer : s'.answer call = s.answer call := by
        obtain ⟨c, now⟩ := call
        cases c with
        | validateToken token => exact congrArg some (hlive.validateToken token)
        | _ => rfl
      rw [answers, step_of_le (hclock.trans hle)]
      dsimp only
      rw [ih (fun c hc => hcalls c (List.mem_cons_of_mem _ hc)) (hs.call call.1)
        (hconn ▸ hs'.call call.1) hnow.ge
        (hconn ▸ hnow ▸ hlive.call hs hs' (hcalls call List.mem_cons_self)) hrest, hanswer]
      rfl
  | @insert now calls calls' _ ih =>
    rw [answers] at hout
    cases hstep : s'.step (.cleanupExpiredSessions, now) with
    | none => rw [hstep] at hout; cases hout
    | some t' =>
      rw [hstep] at hout
      obtain ⟨rest, hrest, rfl⟩ := Option.map_eq_some_iff.mp hout
      obtain ⟨hle, hconn, hnow⟩ := step_cases hstep
      refine ih hcalls hs (hconn ▸ hs'.call _) (hnow ▸ hclock.trans hle) ?_ hrest
      rw [hconn, hnow]
      exact (hsame.mono hle).cleanup

end Api

/-! ## Session soundness -/

/-- In every run a token is valid only for the user whose login issued it last, for less
than a day and unless it was logged out or the user deleted since; and cleanups inserted
into calls on sessions change no validation. -/
theorem session_soundness :
    (∀ seed clock history s, ApiRun seed clock history s → ∀ now token user,
      (s.conn.runExcept now (AuthService.validateToken token)).1 = .ok (some user) →
        LoggedIn history now token user.id) ∧
    ∀ s, Reachable s → ∀ calls calls', WithCleanups calls calls' →
      (∀ call ∈ calls, call.1.OnSessions) →
        ∀ out, s.answers calls' = some out → s.answers calls = some out := by
  refine ⟨fun seed clock history s hr now token user h => loggedIn_of_validateToken hr h, ?_⟩
  intro s hs calls calls' hwith hcalls out hout
  exact Api.answers_withCleanups hwith hcalls hs.sound hs.sound (le_refl _) (.refl _ _) hout

/-- The administrator logs in on the seeded server and the token is looked at a day later. -/
def dayOfAdmin : List (ApiCall × Int) :=
  [(.login "admin" "admin123" "a11ce", 0), (.validateToken "a11ce", 24 * 3600 - 1),
    (.validateToken "a11ce", 24 * 3600)]

/-- The token is valid because of the login until it expires, cleaned up or not. -/
theorem dayOfAdmin_sound : LoggedIn [⟨Api.start true 0, (.login "admin" "admin123" "a11ce", 0),
      adminLoggedIn⟩] 0 "a11ce" 1 ∧
    (Api.start true 0).answers dayOfAdmin = some [.ok (some systemAdministrator), .ok none] := by
  have hvalid : (adminLoggedIn.conn.runExcept 0 (AuthService.validateToken "a11ce")).1 =
      .ok (some systemAdministrator) := by decide +kernel
  have hcleaned : (Api.start true 0).answers [(.login "admin" "admin123" "a11ce", 0),
      (.validateToken "a11ce", 24 * 3600 - 1), (.cleanupExpiredSessions, 24 * 3600),
      (.validateToken "a11ce", 24 * 3600)] =
        some [.ok (some systemAdministrator), .ok none] := by decide +kernel
  refine ⟨session_soundness.1 true 0 _ adminLoggedIn (Run.start.snoc rfl) 0 "a11ce" _ hvalid,
    session_soundness.2 _ ⟨true, 0, [], Run.start⟩ dayOfAdmin _
    (.keep (.keep (.insert (.keep .nil))))
      ?_ _ hcleaned⟩
  rintro call hcall
  simp only [dayOfAdmin, List.mem_cons, List.not_mem_nil, or_false] at hcall
  rcases hcall with rfl | rfl | rfl <;> trivial

end AcademiaCr.Backend
