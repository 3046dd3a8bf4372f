import AcademiaCr.Backend.Accounts
import AcademiaCr.Backend.Atomicity

/-!
# Deactivated accounts

`login` refuses a deactivated account, `validate_token` does not look at the flag. An
account that is deactivated is therefore shut out if and only if it has no live session at
that moment.

## Main definitions

- `Sets`: an update of a user after which the flag has a value
- `DeactivatedSince`: the latest such update switched the flag off
- `ShutOut`: no token is valid for the user any more
- `SessionsEnded`: the condition on an update that switches the flag off
- `shutOut_iff`: the runs in which every deactivated account is shut out
-/

namespace AcademiaCr.Backend

open Resumption Transition

/-- The update of a user, by the repository or by its endpoint. -/
def ApiCall.Updates (id : Int) : ApiCall → Prop
  | updateUser user => user.id = id
  | request _ (.putUser id' _) => id' = id
  | _ => False

/-- An update of the user after which the flag is as given. -/
def Sets (id : Int) (active : Bool) (e : Event Api (ApiCall × Int)) : Prop :=
  e.label.1.Updates id ∧
    ∃ u ∈ e.after.conn.db.users, u.id = id ∧ (decide (u.active ≠ 0)) = active

/-- An update of the history switched the flag off and no later one switched it on. -/
def DeactivatedSince (id : Int) (history : List (Event Api (ApiCall × Int))) : Prop :=
  ∃ later e past, history = later ++ e :: past ∧ Sets id false e ∧
    ∀ e' ∈ later, ¬ Sets id true e'

/-- From now on `validate_token` returns the user for no token. -/
def ShutOut (id : Int) (s : Api) : Prop :=
  ∀ now, s.clock ≤ now → ∀ token user,
    (s.conn.runExcept now (AuthService.validateToken token)).1 = .ok (some user) → user.id ≠ id

/-- If the update switches the flag off, the user has no live session. -/
def SessionsEnded (e : Event Api (ApiCall × Int)) : Prop :=
  ∀ id, Sets id false e →
    ∀ row ∈ e.before.conn.db.sessions, row.userId = id → row.liveAt e.label.2 = false

/-! ## The invariant -/

/-- No user whose flag is off has a live session. -/
def NoneLive (now : Int) (db : Db) : Prop :=
  ∀ u ∈ db.users, u.active = 0 → ∀ row ∈ db.sessions, row.userId = u.id → row.liveAt now = false

/-- The statements that keep it: sessions are opened for active users only, and a flag is
switched off only when the sessions have ended. -/
def Write.Guarded (now : Int) (db : Db) : Write → Prop
  | insertSession _ userId => ∃ u ∈ db.users, u.id = userId ∧ u.active ≠ 0
  | updateUser _ _ active id => active = 0 →
    ∀ row ∈ db.sessions, row.userId = id → row.liveAt now = false
  | _ => True

section

variable {now : Int} {db : Db}

theorem NoneLive.effect (hv : db.Valid) (ha : Accounts db) (h : NoneLive now db) {w : Write}
    (hw : w.Guarded now db) : NoneLive now (w.effect now db) := by
  intro u hu hoff row hrow huser
  obtain ⟨hold, -⟩ | ⟨token, userId, rfl, -, hid, -⟩ := w.sessions_effect hrow
  · -- a session that was there before
    obtain ⟨u₀, hu₀, hid, hactive | ⟨name, email, rfl⟩⟩ | ⟨hnew, -⟩ := w.users_effect hu
    · exact h u₀ hu₀ (hactive ▸ hoff) row hold (huser.trans hid.symm)
    · exact hw hoff row hold huser
    · obtain ⟨owner, howner, hid⟩ := hv.sessionUser row hold
      have := ha.issued owner howner
      omega
  · -- a new session belongs to an active user
    obtain ⟨v, hv', hvid, hvon⟩ := hw
    obtain ⟨u₀, hu₀, hid₀, hactive | ⟨name, email, hw'⟩⟩ | ⟨hnew, -⟩ := Write.users_effect _ hu
    · have hsame : v = u₀ := Table.eq_of_key_eq hv.userIds hv' hu₀
        (hvid.trans (hid.symm.trans (huser.trans hid₀.symm)))
      exact absurd (hsame ▸ hactive ▸ hoff) hvon
    · cases hw'
    · have := ha.issued v hv'
      omega

theorem NoneLive.mono (h : NoneLive now db) {later : Int} (hle : now ≤ later) :
    NoneLive later db := by
  intro u hu hoff row hrow huser
  have hold := h u hu hoff row hrow huser
  by_contra hlive
  rw [SessionRow.liveAt_of_le hle (by simpa using hlive)] at hold
  cases hold

theorem NoneLive.same (h : NoneLive now db) {db' : Db} (hsame : SameAccounts db db') :
    NoneLive now db' := by
  rw [NoneLive, hsame.users, hsame.sessions]
  exact h

/-- Statements that are guarded one after another. -/
def AllGuarded (now : Int) (db : Db) : List Write → Prop
  | [] => True
  | w :: ws => w.Guarded now db ∧ AllGuarded now (w.effect now db) ws

theorem NoneLive.after {ws : List Write} (hv : db.Valid) (ha : Accounts db)
    (h : NoneLive now db) (hws : AllGuarded now db ws) : NoneLive now (db.after now ws) := by
  induction ws generalizing db with
  | nil => exact h
  | cons w ws ih => exact ih (w.effect_valid hv) (ha.effect w) (h.effect hv ha hws.1) hws.2

/-- After an update the row of the user, if there is one, has the flag of the update. -/
theorem exists_flag {name email : String} {active : Bool} {id : Int} {ws : List Write}
    (hws : ws = [] ∨ ∃ hash, ws = [.updatePassword hash id]) {u₀ : UserRow} (hu₀ : u₀ ∈ db.users)
    (hid : u₀.id = id) :
    ∃ u ∈ (db.after now (.updateUser name email (flag active) id :: ws)).users,
      u.id = id ∧ u.active = flag active := by
  have hu : u₀.rewrite name email active ∈ (db.rewriteUser name email active id).users :=
    Table.mem_update.mpr ⟨u₀, hu₀, by rw [if_pos (by simpa using hid)]⟩
  obtain rfl | ⟨hash, rfl⟩ := hws
  · exact ⟨_, hu, hid, rfl⟩
  · refine ⟨_, Table.mem_update.mpr ⟨_, hu, rfl⟩, ?_⟩
    split <;> exact ⟨hid, rfl⟩

/-- The statements of a call that meets the condition are guarded. -/
theorem allGuarded_of_sessionsEnded {s s' : Api} (hs : Sound s.conn) {call : ApiCall}
    (hended : SessionsEnded ⟨s, (call, now), s'⟩) {ws : List Write}
    (hws : call.Executes s.conn.db ws) (hsame : SameAccounts (s.conn.db.after now ws) s'.conn.db) :
    AllGuarded now s.conn.db ws := by
  -- an update whose user exists is an update of the run
  have hupdate : ∀ {id name email active} {rest : List Write}, call.Updates id →
      (rest = [] ∨ ∃ hash, rest = [.updatePassword hash id]) →
      ws = .updateUser name email (flag active) id :: rest →
      (Write.updateUser name email (flag active) id).Guarded now s.conn.db := by
    rintro id name email active rest hcall hrest rfl hoff row hrow huser
    obtain ⟨u₀, hu₀, hid⟩ := hs.valid.sessionUser row hrow
    obtain ⟨u, hu, hid', hflag⟩ :=
      @exists_flag now _ name email active _ _ hrest _ hu₀ (hid.trans huser)
    refine hended id ⟨hcall, u, hsame.users ▸ hu, hid', ?_⟩ row hrow huser
    rw [hflag, hoff]
    rfl
  cases hws with
  | refused | validateToken | request => trivial
  | @login username password generated row hrow =>
    obtain ⟨hfind, hactive⟩ := Option.filter_eq_some_iff.mp hrow
    simp only [decide_eq_true_eq] at hactive
    exact ⟨⟨row, List.mem_of_find?_eq_some hfind, rfl, hactive.1⟩, trivial⟩
  | logout | cleanup | updatePassword | removeUser | postUsers | deleteUser =>
    exact ⟨trivial, trivial⟩
  | updateUser => exact ⟨hupdate rfl (Or.inl rfl) rfl, trivial⟩
  | putUser => exact ⟨hupdate rfl (Or.inl rfl) rfl, trivial⟩
  | putPassword => exact ⟨hupdate rfl (Or.inr ⟨_, rfl⟩) rfl, trivial, trivial⟩

/-- The id has been given out and no user with it is active. -/
def Off (id : Int) (db : Db) : Prop :=
  id ≤ db.userSeq ∧ ∀ u ∈ db.users, u.id = id → u.active = 0

theorem Off.same {id : Int} (h : Off id db) {db' : Db} (hsame : SameAccounts db db') :
    Off id db' := by
  rw [Off, hsame.users, hsame.userSeq]
  exact h

/-- Only an update of the user switches a flag on. -/
theorem Off.effect {id : Int} (h : Off id db) {w : Write}
    (hw : ∀ name email active, w = .updateUser name email active id →
      (∃ u ∈ db.users, u.id = id) → active = 0) : Off id (w.effect now db) := by
  refine ⟨h.1.trans w.userSeq_effect, fun u hu hid => ?_⟩
  obtain ⟨u₀, hu₀, hid₀, hactive | ⟨name, email, rfl⟩⟩ | ⟨hnew, -⟩ := w.users_effect hu
  · rw [hactive]
    exact h.2 u₀ hu₀ (hid₀.trans hid)
  · exact hw name email u.active (by rw [hid]) ⟨u₀, hu₀, hid₀.trans hid⟩
  · have := h.1
    omega

/-- A call that does not switch the flag on keeps it off. -/
theorem Off.call {s s' : Api} {id : Int} (h : Off id s.conn.db) {call : ApiCall}
    (hno : ¬ Sets id true ⟨s, (call, now), s'⟩) {ws : List Write}
    (hws : call.Executes s.conn.db ws) (hsame : SameAccounts (s.conn.db.after now ws) s'.conn.db) :
    Off id s'.conn.db := by
  have hupdate : ∀ {name email : String} {active : Bool} {rest : List Write}, call.Updates id →
      (rest = [] ∨ ∃ hash, rest = [.updatePassword hash id]) →
      ws = .updateUser name email (flag active) id :: rest →
      (∃ u ∈ s.conn.db.users, u.id = id) → flag active = 0 := by
    rintro name email active rest hcall hrest rfl ⟨u₀, hu₀, hid⟩
    obtain ⟨u, hu, hid', hflag⟩ := @exists_flag now _ name email active _ _ hrest _ hu₀ hid
    cases active with
    | false => rfl
    | true => exact absurd ⟨hcall, u, hsame.users ▸ hu, hid', by rw [hflag]; rfl⟩ hno
  refine Off.same ?_ hsame
  cases hws with
  | refused | validateToken | request => exact h
  | login | logout | cleanup | updatePassword | removeUser | postUsers | deleteUser =>
    rw [Db.after_cons, Db.after_nil]
    refine h.effect ?_
    simp
  | updateUser =>
    rw [Db.after_cons, Db.after_nil]
    refine h.effect fun name email active hw => ?_
    cases hw
    exact hupdate rfl (Or.inl rfl) rfl
  | putUser =>
    rw [Db.after_cons, Db.after_nil]
    refine h.effect fun name email active hw => ?_
    cases hw
    exact hupdate rfl (Or.inl rfl) rfl
  | putPassword =>
    rw [Db.after_cons, Db.after_cons, Db.after_nil]
    refine Off.effect (h.effect fun name email active hw => ?_) ?_
    · cases hw
      exact hupdate rfl (Or.inr ⟨_, rfl⟩) rfl
    · simp

end

/-! ## Runs -/

section

variable {seed : Bool} {clock : Int} {history : List (Event Api (ApiCall × Int))} {s : Api}

/-- From the update that switches the flag off to one that switches it on, it is off. -/
theorem off_of_deactivatedSince (hr : ApiRun seed clock history s) {id : Int}
    (h : DeactivatedSince id history) : Off id s.conn.db := by
  obtain ⟨later, e, past, rfl, ⟨-, u, hu, hid, hactive⟩, hlater⟩ := h
  -- by induction on the steps since the update
  induction later generalizing s with
  | nil =>
    cases hr with
    | snoc hr hstep =>
      have hreach : Reachable s := ⟨seed, clock, _, hr.snoc hstep⟩
      have hoff : u.active = 0 := by simpa using hactive
      refine ⟨hid ▸ hreach.accounts.issued u hu, fun v hv hvid => ?_⟩
      rw [Table.eq_of_key_eq hreach.sound.valid.userIds hv hu (hvid.trans hid.symm)]
      exact hoff
  | cons e' later ih =>
    cases hr with
    | @snoc _ before _ call hr hstep =>
      have hold := ih hr fun e'' he => hlater e'' (List.mem_cons_of_mem _ he)
      have hreach : Reachable before := ⟨seed, clock, _, hr⟩
      obtain ⟨-, hconn, -⟩ := Api.step_cases hstep
      obtain ⟨ws, hws, hsame⟩ := @ApiCall.executes call.2 _ hreach.sound call.1
      rw [← hconn] at hsame
      exact hold.call (hlater _ List.mem_cons_self) hws hsame

/-- In a run whose updates meet the condition no user whose flag is off has a live session. -/
theorem noneLive_of_run (hr : ApiRun seed clock history s) (h : ∀ e ∈ history, SessionsEnded e) :
    NoneLive s.clock s.conn.db := by
  refine (hr.invariant (I := fun s => Sound s.conn ∧ Accounts s.conn.db ∧
    NoneLive s.clock s.conn.db) (A := SessionsEnded) ?_ ?_ h).2.2
  · refine ⟨startup_sound seed, startup_accounts seed, ?_⟩
    intro u _ _ row hrow
    rw [show (Api.start seed clock).conn.db.sessions = [] from startup_sessions seed] at hrow
    cases hrow
  · rintro s ⟨call, now⟩ s' ⟨hs, ha, hlive⟩ hstep hended
    obtain ⟨hle, hconn, hclock⟩ := Api.step_cases hstep
    obtain ⟨ws, hws, hsame⟩ := @ApiCall.executes now _ hs call
    rw [← hconn] at hsame
    refine ⟨hconn ▸ hs.call call, hconn ▸ ha.call hs call, ?_⟩
    rw [hclock]
    exact ((hlive.mono hle).after hs.valid ha
      (allGuarded_of_sessionsEnded hs hended hws hsame)).same hsame

/-- A user who is off and has no live session is shut out. -/
theorem shutOut_of_off (hs : Sound s.conn) (hlive : NoneLive s.clock s.conn.db) {id : Int}
    (hoff : Off id s.conn.db) : ShutOut id s := by
  intro now hle token user hvalid hid
  obtain ⟨row, hrow, -, hnow, huser, u, hu, huid⟩ := Conn.session_of_validateToken hs.valid hvalid
  have hdead := hlive u hu (hoff.2 u hu (huid.trans hid)) row hrow (huser.trans huid.symm)
  rw [SessionRow.liveAt_of_le hle hnow] at hdead
  cases hdead

/-- An update leaves the sessions alone. -/
theorem sessions_of_updates {now : Int} {db : Db} {id : Int} {call : ApiCall}
    (hcall : call.Updates id) {ws : List Write} (hws : call.Executes db ws) :
    (db.after now ws).sessions = db.sessions := by
  cases hws with
  | updateUser | putUser | putPassword | request => rfl
  | refused | login | logout | validateToken | cleanup | updatePassword | removeUser | postUsers
  | deleteUser => exact hcall.elim

/-- A live session survives the update, so the user is not shut out. -/
theorem sessionsEnded_of_shutOut {e : Event Api (ApiCall × Int)} (hs : Reachable e.before)
    (hstep : e.before.step e.label = some e.after)
    (h : ∀ id, Sets id false e → ShutOut id e.after) : SessionsEnded e := by
  intro id hsets row hrow huser
  by_contra hlive
  obtain ⟨hle, hconn, hclock⟩ := Api.step_cases hstep
  obtain ⟨ws, hws, hsame⟩ := @ApiCall.executes e.label.2 _ hs.sound e.label.1
  rw [← hconn] at hsame
  have hrow' : row ∈ e.after.conn.db.sessions := by
    rw [hsame.sessions, sessions_of_updates hsets.1 hws]
    exact hrow
  have hsound : Sound e.after.conn := hconn ▸ hs.sound.call e.label.1
  obtain ⟨user, hid, hvalid⟩ := @Conn.validateToken_of_session e.label.2 _ hsound.valid _ hrow'
    (hs.accounts.stored row hrow) (by simpa using hlive)
  exact h id hsets e.label.2 hclock.le row.token user hvalid (hid.trans huser)

/-- Every deactivated user is shut out in every state of a run, from the update that
switches the flag off to one that switches it on, if and only if at each such update the
user has no live session. -/
theorem shutOut_iff (hr : ApiRun seed clock history s) :
    (∀ past t, past <:+ history → ApiRun seed clock past t →
      ∀ id, DeactivatedSince id past → ShutOut id t) ↔ ∀ e ∈ history, SessionsEnded e := by
  constructor
  · intro h e he
    obtain ⟨past, hpast, hsuffix⟩ := hr.exists_prefix e he
    have hstep := hr.step_of_mem e he
    refine sessionsEnded_of_shutOut ⟨seed, clock, past, hpast⟩ hstep fun id hsets => ?_
    exact h (e :: past) e.after hsuffix (hpast.snoc hstep) id
      ⟨[], e, past, rfl, hsets, by simp⟩
  · intro h past t hsuffix ht id hdeactivated
    have hpast : ∀ e ∈ past, SessionsEnded e := fun e he => h e (hsuffix.subset he)
    have hreach : Reachable t := ⟨seed, clock, past, ht⟩
    exact shutOut_of_off hreach.sound (noneLive_of_run ht hpast)
      (off_of_deactivatedSince ht hdeactivated)

end

/-! ## A session that outlives the account's activity -/

/-- The administrator deactivates `john.doe` (user 5). -/
def deactivateJohn : ApiCall :=
  .request "Bearer a11ce" (.putUser 5 (some (.obj [("active", .bool false)])))

/-- The server after the deactivation in a given state. -/
def deactivated (s : Api) : Api := ⟨deactivateJohn.run 0 s.conn, 0⟩

/-- The last step of a history. -/
def deactivation (s : Api) : Event Api (ApiCall × Int) := ⟨s, (deactivateJohn, 0), deactivated s⟩

theorem sets_deactivation {s : Api}
    (h : ∃ u ∈ (deactivated s).conn.db.users, u.id = 5 ∧ decide (u.active ≠ 0) = false) :
    Sets 5 false (deactivation s) := ⟨rfl, h⟩

/-- Where only the administrator is logged in, the deactivated user is shut out. -/
theorem shutOut_john : ShutOut 5 (deactivated adminLoggedIn) := by
  have hrun : ApiRun true 0 [deactivation adminLoggedIn,
      ⟨Api.start true 0, (.login "admin" "admin123" "a11ce", 0), adminLoggedIn⟩]
      (deactivated adminLoggedIn) := (Run.start.snoc rfl).snoc rfl
  obtain ⟨hadmin, hoff⟩ : (∀ row ∈ adminLoggedIn.conn.db.sessions, row.userId ≠ 5) ∧
      ∃ u ∈ (deactivated adminLoggedIn).conn.db.users, u.id = 5 ∧
        decide (u.active ≠ 0) = false := by
    decide +kernel
  refine (shutOut_iff hrun).mpr ?_ _ _ (List.suffix_refl _) hrun 5
    ⟨[], _, _, rfl, sets_deactivation hoff, by simp⟩
  intro e he id hsets row hrow huser
  obtain rfl | he := List.mem_cons.mp he
  · have hid : (5 : Int) = id := hsets.1
    exact absurd (huser.trans hid.symm) (hadmin row hrow)
  · rw [List.mem_singleton.mp he] at hsets
    exact hsets.1.elim

/-- The seeded server after `john.doe` and the administrator logged in. -/
def bothLoggedIn : Api :=
  ⟨(ApiCall.login "admin" "admin123" "a11ce").run 0
    ((ApiCall.login "john.doe" "student123" "f00d").run 0 (startup true)), 0⟩

/-- A token issued before the deactivation still returns the deactivated user. -/
theorem deactivated_john_validates : ¬ ∀ seed clock history s, ApiRun seed clock history s →
    ∀ id, DeactivatedSince id history → ShutOut id s := by
  intro h
  have hjohn : Run Api.step (Api.start true 0) _
      ⟨(ApiCall.login "john.doe" "student123" "f00d").run 0 (startup true), 0⟩ :=
    Run.start.snoc (l := (.login "john.doe" "student123" "f00d", 0)) rfl
  have hboth : Run Api.step (Api.start true 0) _ bothLoggedIn :=
    hjohn.snoc (l := (.login "admin" "admin123" "a11ce", 0)) rfl
  have hrun : Run Api.step (Api.start true 0) _ (deactivated bothLoggedIn) :=
    hboth.snoc (l := (deactivateJohn, 0)) rfl
  obtain ⟨hsets, hvalid⟩ : (∃ u ∈ (deactivated bothLoggedIn).conn.db.users, u.id = 5 ∧
      decide (u.active ≠ 0) = false) ∧ ((deactivated bothLoggedIn).conn.runExcept 0
        (AuthService.validateToken "f00d")).1 = .ok (some { johnDoe with active := false }) := by
    decide +kernel
  exact h _ _ _ _ hrun 5
    ⟨[], deactivation bothLoggedIn, _, rfl, sets_deactivation hsets, by simp⟩
    0 (le_refl 0) "f00d" _ hvalid rfl

end AcademiaCr.Backend
