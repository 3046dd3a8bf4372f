import AcademiaCr.Library.Run
import AcademiaCr.Backend.Endpoints

/-!
# Runs of the REST interface

Calls of the session functions, of the user repository and of the writing endpoints one
after another, under a clock that counts seconds and never goes back.

## Main definitions

- `ApiCall`, `Api`, `Api.step`: the calls, the state and the step of the system
- `Reachable`: the states of its runs from a fresh or a seeded database
- `Reachable.sound`: what holds in all of them
- `ApiCall.Change`: what a call does to users and sessions
-/

namespace AcademiaCr.Backend

open Resumption Transition

/-! ## Calls and steps -/

/-- The calls of a run. `validateToken` stands for every request that only authenticates. -/
inductive ApiCall where
  | login (username password generated : String)
  | logout (token : String)
  | validateToken (token : String)
  | cleanupExpiredSessions
  | updateUser (user : User)
  | updatePassword (id : Int) (passwordHash : String)
  | removeUser (id : Int)
  | request (authHeader : String) (endpoint : Endpoint)

/-- The connection after a call at a given time. -/
def ApiCall.run (now : Int) (conn : Conn) : ApiCall → Conn
  | login username password generated =>
    (conn.runExcept now (AuthService.login username password generated)).2
  | logout token => (conn.run now (AuthService.logout token)).2
  | validateToken token => (conn.runExcept now (AuthService.validateToken token)).2
  | cleanupExpiredSessions => (conn.run now UserRepository.cleanupExpiredSessions).2
  | updateUser user => (conn.run now (UserRepository.update user)).2
  | updatePassword id hash => (conn.run now (UserRepository.updatePassword id hash)).2
  | removeUser id => (conn.run now (UserRepository.remove id)).2
  | request authHeader endpoint => (endpoint.run now authHeader conn).2

/-- The connection and the time of the latest call. -/
structure Api where
  conn : Conn
  clock : Int

namespace Api

/-- The server after `initialize_schema` and, if asked for, `seed_data`. -/
def start (seed : Bool) (clock : Int) : Api := ⟨startup seed, clock⟩

/-- A call at a time that is not before the latest one. -/
def step (s : Api) (call : ApiCall × Int) : Option Api :=
  if s.clock ≤ call.2 then some ⟨call.1.run call.2 s.conn, call.2⟩ else none

theorem step_cases {s s' : Api} {call : ApiCall × Int} (h : s.step call = some s') :
    s.clock ≤ call.2 ∧ s'.conn = call.1.run call.2 s.conn ∧ s'.clock = call.2 := by
  simp only [step] at h
  split at h
  · next hle =>
    cases h
    exact ⟨hle, rfl, rfl⟩
  · cases h

end Api

/-- The histories of the interface, latest call first. -/
abbrev ApiRun (seed : Bool) (clock : Int) (history : List (Event Api (ApiCall × Int)))
    (s : Api) : Prop := Run Api.step (Api.start seed clock) history s

/-- The states that a run has been in. -/
def Visited (seed : Bool) (clock : Int) (history : List (Event Api (ApiCall × Int)))
    (t : Api) : Prop := t = Api.start seed clock ∨ ∃ e ∈ history, t = e.after

section Visited

variable {seed : Bool} {clock : Int} {history : List (Event Api (ApiCall × Int))} {s t : Api}

theorem ApiRun.visited (hr : ApiRun seed clock history s) : Visited seed clock history s := by
  cases hr with
  | start => exact Or.inl rfl
  | snoc _ _ => exact Or.inr ⟨_, List.mem_cons_self, rfl⟩

theorem Visited.cons (h : Visited seed clock history t) (e : Event Api (ApiCall × Int)) :
    Visited seed clock (e :: history) t :=
  h.imp_right fun ⟨e', he, ht⟩ => ⟨e', List.mem_cons_of_mem _ he, ht⟩

theorem visited_cons {e : Event Api (ApiCall × Int)} :
    Visited seed clock (e :: history) t ↔ Visited seed clock history t ∨ t = e.after := by
  constructor
  · rintro (h | ⟨e', he, ht⟩)
    · exact Or.inl (Or.inl h)
    · obtain rfl | he := List.mem_cons.mp he
      · exact Or.inr ht
      · exact Or.inl (Or.inr ⟨e', he, ht⟩)
  · rintro (h | h)
    · exact h.cons e
    · exact Or.inr ⟨e, List.mem_cons_self, h⟩

end Visited

/-- The states that some run reaches. -/
def Reachable (s : Api) : Prop := ∃ seed clock history, ApiRun seed clock history s

/-! ## What every reachable state satisfies -/

/-- No request leaves a transaction open. -/
theorem Endpoint.run_saved {now : Int} {conn : Conn} (hs : conn.saved = none) (authHeader : String)
    (request : Endpoint) : (request.run now authHeader conn).2.saved = none := by
  have hwithin : ∀ {p : Handler}, WithinExcept (fun _ => True) p →
      (conn.runExcept now p).2.saved = none := fun hp => (Conn.run_saved hp conn).trans hs
  have hauth : ∃ out, conn.runExcept now (authenticateRequest authHeader) = (out, conn) :=
    ⟨_, Prod.ext rfl (conn.run_readOnly (within_authenticateRequest authHeader))⟩
  obtain ⟨out, hauth⟩ := hauth
  cases request with
  | postUsers body => exact hwithin (within_postUsers fun _ _ _ _ _ _ => trivial)
  | putUser id body => exact hwithin (within_putUser (fun _ _ _ _ => trivial) fun _ => trivial)
  | deleteUser id => exact hwithin (within_deleteUser trivial)
  | postCourses body => exact hwithin (within_postCourses fun _ _ _ _ _ _ => trivial)
  | putCourse id body => exact hwithin (within_putCourse fun _ _ _ _ _ => trivial)
  | deleteCourse id => exact hwithin (within_deleteCourseHandler trivial)
  -- the two registration routes open a transaction and close it
  | postRegister c =>
    simp only [Endpoint.run, handler, RegistrationController.postRegister, Conn.runExcept_bind,
        hauth]
    obtain e | _ | user := out
    · exact hs
    · exact hs
    · dsimp only
      split
      · exact hs
      · simp only [Conn.runExcept_bind, Conn.runExcept_liftM]
        split <;> exact Conn.run_registerStudent_saved now user.id c hs
  | deleteRegister c =>
    simp only [Endpoint.run, handler, RegistrationController.deleteRegister, Conn.runExcept_bind,
      hauth]
    obtain e | _ | user := out
    · exact hs
    · exact hs
    · dsimp only
      split
      · exact hs
      · simp only [Conn.runExcept_bind, Conn.runExcept_liftM]
        split <;> exact Conn.run_dropStudent_saved now user.id c hs

/-- The statements on users and sessions. -/
def Write.onAccounts : Write → Prop
  | insertUser _ _ _ _ _ _ | updateUser _ _ _ _ | updatePassword _ _ | deleteUser _ => True
  | insertSession _ _ | deleteSession _ | cleanupSessions => True
  | _ => False

/-- What the statements on users and sessions keep is kept by every call that is no request
to an endpoint. -/
theorem ApiCall.run_within {now : Int} {conn : Conn} {I : Conn → Prop} (h : I conn)
    (hI : ∀ w conn, w.onAccounts → I conn → I (conn.write now w).2) {call : ApiCall}
    (hrequest : ∀ authHeader endpoint, call = .request authHeader endpoint →
      I (endpoint.run now authHeader conn).2) : I (call.run now conn) := by
  have hwithin : ∀ {α : Type} {p : Sql α}, Within Write.onAccounts p → I (conn.run now p).2 :=
    fun hp => Conn.run_within hp hI h
  have hwrite : ∀ w, w.onAccounts → I (conn.run now (stepWrite w)).2 := fun w hw =>
    hwithin (within_stepWrite.mpr hw)
  cases call with
  | login username password generated => exact hwithin (within_login fun _ => trivial)
  | logout token => exact hwrite (.deleteSession token) trivial
  | validateToken token => exact hwithin (within_validateToken token)
  | cleanupExpiredSessions => exact hwrite .cleanupSessions trivial
  | updateUser user => exact hwrite (.updateUser ..) trivial
  | updatePassword id hash => exact hwrite (.updatePassword hash id) trivial
  | removeUser id => exact hwrite (.deleteUser id) trivial
  | request authHeader endpoint => exact hrequest authHeader endpoint rfl

namespace Sound

variable {conn : Conn} {now : Int}

/-- A statement that neither takes a seat nor changes a capacity overbooks nothing. -/
theorem effect_seats {db : Db} (hv : db.Valid) (hn : db.NotOverbooked) {w : Write}
    (hw : w.keepsSeats) : (w.effect now db).NotOverbooked := by
  simp only [Write.effect]
  cases ha : w.apply now db with
  | none => exact hn
  | some a => exact w.apply_notOverbooked hv hn hw ha

/-- A request that succeeds overbooks no course. -/
theorem effect_request (hv : conn.db.Valid) (hn : conn.db.NotOverbooked) {user : User} {db : Db}
    {request : Endpoint} (h : request.Effect now user conn.db db) : db.NotOverbooked := by
  cases request with
  | postUsers body =>
    obtain ⟨-, u, applied, ha, rfl⟩ := h
    exact @Write.apply_notOverbooked now _ hv hn (.insertUser ..) trivial _ ha
  | putUser id body =>
    obtain ⟨-, json, row, name, email, active, password, -, -, -, -, rfl⟩ := h
    have hv' := @Write.effect_valid now _ hv (.updateUser name email (flag active) id)
    have hn' : (conn.db.rewriteUser name email active id).NotOverbooked :=
      @effect_seats now _ hv hn (.updateUser name email (flag active) id) trivial
    rw [Db.withPassword]
    split
    · exact hn'
    · exact effect_seats hv' hn' trivial
  | deleteUser id =>
    obtain ⟨-, -, rfl⟩ := h
    exact effect_seats hv hn trivial
  | postCourses body =>
    obtain ⟨-, json, course, -, -, -, applied, ha, rfl⟩ := h
    exact @Write.apply_notOverbooked now _ hv hn (.insertCourse ..) trivial _ ha
  | putCourse id body =>
    obtain ⟨-, json, course, -, -, hok, rfl⟩ := h
    simp only [Write.effect, updateGiven, Write.apply]
    cases ha : conn.db.updateCourse course.courseName course.credits course.facultyId
        course.capacity course.schedule id with
    | none => exact hn
    | some a => exact Db.notOverbooked_updateCourse hn hok.seats ha
  | deleteCourse id =>
    cases h
    exact effect_seats hv hn trivial
  | postRegister c =>
    obtain ⟨-, rfl⟩ := h
    exact Db.notOverbooked_register hv hn user.id c
  | deleteRegister c =>
    obtain ⟨-, rfl⟩ := h
    exact Db.notOverbooked_drop hn user.id c

theorem request (h : Sound conn) (authHeader : String) (request : Endpoint) :
    Sound (request.run now authHeader conn).2 where
  idle := request.run_saved h.idle authHeader
  valid := (Conn.run_valid _ h.connValid).db
  seats := by
    rcases @Endpoint.outcome now _ authHeader h.idle h.valid request with
      ⟨-, hdb⟩ | ⟨user, -, -, heffect⟩ |
        ⟨-, -, id, json, row, name, email, active, e, -, -, -, -, hdb⟩
    · exact hdb ▸ h.seats
    · exact effect_request h.valid h.seats heffect
    · rw [hdb]
      exact @effect_seats now _ h.valid h.seats (.updateUser name email (flag active) id) trivial

/-- Every call keeps the invariant. -/
theorem call (h : Sound conn) (call : ApiCall) : Sound (call.run now conn) := by
  refine ApiCall.run_within h (fun w conn hw hc => ?_) fun authHeader endpoint _ =>
    h.request authHeader endpoint
  refine hc.run_within (within_stepWrite.mpr (?_ : w.keepsSeats))
  cases w <;> trivial

end Sound

/-- In every state of every run the schema constraints hold, no transaction is open and no
course is overbooked. -/
theorem Reachable.sound {s : Api} (h : Reachable s) : Sound s.conn := by
  obtain ⟨seed, clock, history, hr⟩ := h
  refine hr.invariant (I := fun s => Sound s.conn) (A := fun _ => True) (startup_sound seed)
    (fun s call s' hs hstep _ => ?_) fun _ _ => trivial
  rw [(Api.step_cases hstep).2.1]
  exact hs.call call.1

end AcademiaCr.Backend
