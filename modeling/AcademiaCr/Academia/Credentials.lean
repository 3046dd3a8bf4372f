import AcademiaCr.Academia.Passwords

/-!
# Logging in with the credentials of a new account

`add_user` copies an id and a password into arrays that have no room for the NUL of a string of
their size. `client_handler` reads the credentials into a buffer and cuts them one byte shorter,
so that the NUL has room.

## Main definitions

- `clientLogin`: what `client_handler` does up to the menu loop
- `AccountCall`: the calls that write accounts
- `StaysAdmitted`: an account can log in, whatever calls are made for other ids
- `Storable`: the credentials for which it can
- `staysAdmitted_iff`: the two are the same
-/

namespace AcademiaCr.Academia

open CLang CLang.CString RecordFile Resumption Prog Transition

/-! ## The login of `client_handler` -/

/-- How `client_handler` ends the login, and the menu that it enters. -/
inductive LoginOutcome where
  | disconnected
  | invalidChoice
  | serverError
  | failed
  | successful (role : Role)
  deriving DecidableEq, Repr

/-- The last text that is sent before the connection is closed or the menu is entered. -/
def LoginOutcome.answer : LoginOutcome → Option CString
  | disconnected => none
  | invalidChoice => some (.ofString "Invalid choice\n")
  | serverError => some (.ofString "Server error: Cannot open users file\n")
  | failed => some (.ofString "Login failed\n")
  | successful _ => some (.ofString "Login successful\n")

/-- `read(sock, buffer, sizeof(buffer) - 1)` and `buffer[bytes] = '\0'`: the string in the
buffer, unless nothing is read. -/
def readString (received : List UInt8) : Option CString :=
  if received.isEmpty then none else some (cString (received.take 1023))

/-- `expected_role`. -/
def expectedRole (loginChoice : Int) : Role :=
  if loginChoice = 1 then .admin else if loginChoice = 2 then .faculty else .student

/-- `client_handler` up to the menu loop, given what its three reads find. -/
def clientLogin (choice userId password : List UInt8) : FileOp LoginOutcome :=
  match readString choice with
  | none => return .disconnected
  | some buffer =>
    let loginChoice := atoi buffer.1
    if loginChoice < 1 ∨ loginChoice > 3 then return .invalidChoice
    else
      match readString userId with
      | none => return .disconnected
      | some buffer =>
        let userId := buffer.truncate maxId
        match readString password with
        | none => return .disconnected
        | some buffer => do
          let password := buffer.truncate maxPass
          match ← authenticate userId password (expectedRole loginChoice) with
          | none => return .serverError
          | some true => return .successful (expectedRole loginChoice)
          | some false => return .failed

/-- The choice at the login screen. -/
def Role.loginChoice : Role → Int
  | admin => 1
  | faculty => 2
  | student => 3

/-- The bytes hold the string, with its NUL or without it. -/
def Delivers (received : List UInt8) (s : CString) : Prop := received ≠ [] ∧ cString received = s

instance (received : List UInt8) (s : CString) : Decidable (Delivers received s) :=
  inferInstanceAs (Decidable (_ ∧ _))

/-! ## Calls that write accounts -/

/-- The record that `add_user` writes. -/
def newUser (id password : CString) (role : Role) : User :=
  { id := strncpy maxId id, role, password := strncpy maxPass password }

/-- The calls that write accounts and their records. -/
inductive AccountCall where
  | addUser (id password : CString) (role : Role)
  | addStudent (id name : CString)
  | addFaculty (id name : CString)
  | changePassword (userId newPassword : CString)

namespace AccountCall

def program : AccountCall → FileOp Int
  | addUser id password role => Academia.addUser id password role
  | addStudent id name => Academia.addStudent id name
  | addFaculty id name => Academia.addFaculty id name
  | changePassword userId newPassword => Academia.changePassword userId newPassword

/-- The id that the call is for. -/
def id : AccountCall → CString
  | addUser id _ _ => id
  | addStudent id _ => id
  | addFaculty id _ => id
  | changePassword userId _ => userId

end AccountCall

namespace Disk

variable {d d' : Disk} {id password : CString} {role : Role}

/-- The files after a call. -/
def makeCall (d : Disk) (call : AccountCall) : Option Disk := (d.execute call.program).map (·.2)

/-- The login with these credentials succeeds, however they are read. -/
def CanLogIn (d : Disk) (id password : CString) (role : Role) : Prop :=
  ∀ choice idBytes passwordBytes, (∃ c, Delivers choice c ∧ c.length < 1024 ∧
      atoi c.1 = role.loginChoice) → Delivers idBytes id → Delivers passwordBytes password →
    d.execute (clientLogin choice idBytes passwordBytes) = some (.successful role, d)

/-- The login succeeds now and after all calls for other ids. -/
def StaysAdmitted (d : Disk) (id password : CString) (role : Role) : Prop :=
  ∀ history d', Run makeCall d history d' → (∀ e ∈ history, e.label.id ≠ id) →
    d'.CanLogIn id password role

/-- A record has the id, the password and the role, and an earlier one has the id. -/
def AdmitsAgain (records : List User) (id : CString) (role : Role) (password : CString) : Prop :=
  ∃ (i j : Nat) (earlier user : User), i < j ∧ records[i]? = some earlier ∧ earlier.id.str = id ∧
    records[j]? = some user ∧ user.id.str = id ∧ user.password.str = password ∧ user.role = role

/-- The id and the password leave room for their NULs; or the login as it is cut off has been
possible before, and cannot be lost by calls for other ids. -/
def Storable (records : List User) (id password : CString) (role : Role) : Prop :=
  if id.length < maxId then
    password.length < maxPass ∨ Admits records id role (password.truncate maxPass)
  else AdmitsAgain records (id.truncate maxId) role (password.truncate maxPass)

/-! ## What is read and what is stored -/

/-- The string that is read is cut off where the buffer ends. -/
theorem readString_of_delivers {received : List UInt8} {s : CString} (h : Delivers received s) :
    readString received = some (s.truncate 1024) := by
  obtain ⟨hne, rfl⟩ := h
  have hread : cString (received.take 1023) = (cString received).truncate 1024 :=
    Subtype.ext List.take_takeWhile.symm
  rw [readString, if_neg (by simpa using hne), hread]

theorem atoi_choice (role : Role) : ∃ choice c, Delivers choice c ∧ c.length < 1024 ∧
    atoi c.1 = role.loginChoice := by
  cases role with
  | admin => exact ⟨[49], .ofString "1", by decide +kernel, by decide +kernel, by decide +kernel⟩
  | faculty => exact ⟨[50], .ofString "2", by decide +kernel, by decide +kernel, by decide +kernel⟩
  | student => exact ⟨[51], .ofString "3", by decide +kernel, by decide +kernel, by decide +kernel⟩

theorem delivers_terminated (s : CString) : Delivers (s.1 ++ [0]) s := by
  refine ⟨by simp, Subtype.ext ?_⟩
  show (s.1 ++ [0]).takeWhile (fun b => decide (b ≠ 0)) = s.1
  rw [List.takeWhile_append_of_pos s.decide_ne_zero]
  simp

/-- What the login does with credentials that are delivered. -/
theorem execute_clientLogin {choice idBytes passwordBytes : List UInt8} {c : CString}
    (hchoice : Delivers choice c) (hc : c.length < 1024) (hrole : atoi c.1 = role.loginChoice)
    (hid : Delivers idBytes id) (hpassword : Delivers passwordBytes password) :
    d.execute (clientLogin choice idBytes passwordBytes) =
      (d.execute (authenticate (id.truncate maxId) (password.truncate maxPass) role)).map
        fun out => (match out.1 with
          | none => .serverError
          | some true => .successful role
          | some false => .failed, out.2) := by
  have hexpected : expectedRole role.loginChoice = role := by cases role <;> rfl
  have hrange : ¬ (role.loginChoice < 1 ∨ role.loginChoice > 3) := by cases role <;> decide
  simp only [clientLogin, readString_of_delivers hchoice, readString_of_delivers hid,
    readString_of_delivers hpassword, truncate_of_lt hc, hrole, if_neg hrange, hexpected,
    truncate_truncate (show maxId ≤ 1024 by decide),
    truncate_truncate (show maxPass ≤ 1024 by decide)]
  rw [execute, bind_eq, execute_bind, ← execute]
  rcases d.execute (authenticate (id.truncate maxId) (password.truncate maxPass) role) with
    _ | ⟨_ | _ | _, _⟩ <;> rfl

/-- The login succeeds if and only if a record has the credentials as they are cut off. -/
theorem canLogIn_iff : d.CanLogIn id password role ↔
    Admits d.userRecords (id.truncate maxId) role (password.truncate maxPass) := by
  rw [← logsIn_iff fun user _ =>
    ⟨CArray.not_overrun_of_lt (length_truncate_lt (by decide) id) user.id,
      CArray.not_overrun_of_lt (length_truncate_lt (by decide) password) user.password⟩, LogsIn]
  constructor
  · intro h
    obtain ⟨choice, c, hchoice, hc, hrole⟩ := atoi_choice role
    have hlogin := h choice _ _ ⟨c, hchoice, hc, hrole⟩ (delivers_terminated id)
      (delivers_terminated password)
    rw [execute_clientLogin hchoice hc hrole (delivers_terminated id)
      (delivers_terminated password)] at hlogin
    obtain ⟨⟨answer, d'⟩, hrun, heq⟩ := Option.map_eq_some_iff.mp hlogin
    rw [hrun]
    rcases answer with _ | _ | _ <;> cases heq
    rfl
  · rintro h choice idBytes passwordBytes ⟨c, hchoice, hc, hrole⟩ hid hpassword
    rw [execute_clientLogin hchoice hc hrole hid hpassword, h]
    rfl

/-! ## What the calls do with `users.dat` -/

theorem userRecords_addUser {code : Int}
    (h : d.execute (addUser id password role) = some (code, d')) :
    d'.userRecords = d.userRecords ++ [newUser id password role] := by
  obtain ⟨d₁, hrun, hrecords, -⟩ :=
    execute_appendRecord d .users (newUser id password role)
  cases h.symm.trans hrun
  exact hrecords

theorem userRecords_appendOther {f : FileName} (hf : f ≠ .users) {r : f.Record} {code : Int}
    (h : d.execute (appendRecord f r) = some (code, d')) : d'.userRecords = d.userRecords := by
  obtain ⟨d₁, hrun, -, hothers⟩ := execute_appendRecord d f r
  cases h.symm.trans hrun
  have husers : d'.users = d.users := hothers .users hf.symm
  rw [userRecords, userRecords, husers]

/-- `change_password` returns if the id leaves room for its NUL. -/
theorem exists_changePassword (d : Disk) {userId : CString} (hid : userId.length < maxId)
    (newPassword : CString) :
    ∃ code d', d.execute (changePassword userId newPassword) = some (code, d') := by
  cases hn : d.users.named with
  | none => exact ⟨_, _, execute_withFile_missing (f := .users) hn _ _⟩
  | some fd =>
    have hsection := (execute_withFile_named (f := .users) hn false (-1) _).trans
      (execute_overwriteSection d .users (fun user => user.id.strcmp userId)
        (fun user => some { user with password := strncpy maxPass newPassword }) fd)
    have hsearch : locate? (fun user : User => user.id.strcmp userId) (d.users.read fd) = some _ :=
      locate?_of_forall fun user _ =>
        CArray.strcmp_of_not_overrun (CArray.not_overrun_of_lt hid user.id)
    obtain ⟨⟨code, records⟩, hout⟩ : ∃ out,
        overwriteIn (fun user : User => user.id.strcmp userId)
          (fun user => some { user with password := strncpy maxPass newPassword })
          (d.users.read fd) = some out := by
      rw [overwriteIn, hsearch, Option.bind_some]
      cases locate (fun user : User => decide (user.id.str = userId)) (d.users.read fd) with
      | none => exact ⟨_, rfl⟩
      | some found => exact ⟨_, rfl⟩
    exact ⟨_, _, hsection.trans (congrArg (Option.map _) hout)⟩

/-- A record keeps its place, its id and its role; and everything if it has another id than the
call is for, or is not the first with its id. -/
theorem getElem?_makeCall {call : AccountCall} (h : d.makeCall call = some d') {i : Nat}
    {user : User} (hi : d.userRecords[i]? = some user) :
    ∃ user', d'.userRecords[i]? = some user' ∧ user'.id = user.id ∧
      (user.id.str ≠ call.id ∨ (∃ j earlier, j < i ∧ d.userRecords[j]? = some earlier ∧
        earlier.id.str = user.id.str) → user' = user) := by
  obtain ⟨⟨code, d₁⟩, hrun, rfl⟩ := Option.map_eq_some_iff.mp h
  have hsame : ∀ {d₂ : Disk} (more), d₂.userRecords = d.userRecords ++ more →
      d₂.userRecords[i]? = some user := by
    intro d₂ more hmore
    rw [hmore, List.getElem?_append_left (List.getElem?_eq_some_iff.mp hi).1, hi]
  cases call with
  | addUser id password role =>
    exact ⟨user, hsame _ (userRecords_addUser hrun), rfl, fun _ => rfl⟩
  | addStudent id name =>
    have hrecords := userRecords_appendOther (f := .students) (by decide) hrun
    exact ⟨user, hsame [] (by rw [hrecords, List.append_nil]), rfl, fun _ => rfl⟩
  | addFaculty id name =>
    have hrecords := userRecords_appendOther (f := .faculty) (by decide) hrun
    exact ⟨user, hsame [] (by rw [hrecords, List.append_nil]), rfl, fun _ => rfl⟩
  | changePassword userId newPassword =>
    obtain ⟨-, -, hrecords⟩ | ⟨-, pos, first, hlocate, hrecords⟩ := changePassword_cases hrun
    · rw [hrecords]
      exact ⟨user, hi, rfl, fun _ => rfl⟩
    · rw [hrecords]
      have hfirst : first.id.str = userId := by simpa using (mem_of_locate hlocate).2
      by_cases hpos : pos = i
      · -- the overwritten record is the first with the id
        subst hpos
        cases (getElem?_of_locate hlocate).symm.trans hi
        refine ⟨_, List.getElem?_set_self (List.getElem?_eq_some_iff.mp hi).1, rfl, ?_⟩
        rintro (hother | ⟨j, earlier, hj, hearlier, hid⟩)
        · exact absurd hfirst hother
        · have hno := not_of_lt_locate hlocate hj hearlier
          simp [hid, hfirst] at hno
      · exact ⟨user, by rw [List.getElem?_set_ne hpos, hi], rfl, fun _ => rfl⟩

/-! ## Accounts that stay -/

/-- An account whose id is as it is given stays. -/
theorem Admits.run {history : List (Event Disk AccountCall)}
    (h : Admits d.userRecords id role password) (hr : Run makeCall d history d')
    (hothers : ∀ e ∈ history, e.label.id ≠ id) : Admits d'.userRecords id role password := by
  induction hr with
  | start => exact h
  | snoc _ hstep ih =>
    obtain ⟨user, huser, hid, hmatch⟩ := ih fun e he => hothers e (List.mem_cons_of_mem _ he)
    obtain ⟨i, hi⟩ := List.mem_iff_getElem?.mp huser
    obtain ⟨user', hi', -, hsame⟩ := getElem?_makeCall hstep hi
    have hother : user.id.str ≠ _ := fun heq => hothers _ List.mem_cons_self (heq.symm.trans hid)
    cases hsame (.inl hother)
    exact ⟨user, List.mem_of_getElem? hi', hid, hmatch⟩

/-- A record after another one with its id stays. -/
theorem AdmitsAgain.run {history : List (Event Disk AccountCall)}
    (h : AdmitsAgain d.userRecords id role password) (hr : Run makeCall d history d') :
    AdmitsAgain d'.userRecords id role password := by
  induction hr with
  | start => exact h
  | snoc _ hstep ih =>
    obtain ⟨i, j, earlier, user, hij, hi, hearlier, hj, hid, hmatch⟩ := ih
    obtain ⟨earlier', hi', hid', -⟩ := getElem?_makeCall hstep hi
    obtain ⟨user', hj', -, hsame⟩ := getElem?_makeCall hstep hj
    cases hsame (.inr ⟨i, earlier, hij, hi, hearlier.trans hid.symm⟩)
    exact ⟨i, j, earlier', user, hij, hi', by rw [hid', hearlier], hj', hid, hmatch⟩

theorem AdmitsAgain.admits {records : List User} (h : AdmitsAgain records id role password) :
    Admits records id role password := by
  obtain ⟨i, j, earlier, user, -, -, -, hj, hmatch⟩ := h
  exact ⟨user, List.mem_of_getElem? hj, hmatch⟩

/-! ## New accounts -/

theorem admits_append {records more : List User} : Admits (records ++ more) id role password ↔
    Admits records id role password ∨ Admits more id role password := by
  simp only [Admits, List.mem_append, or_and_right, exists_or]

/-- The id as it is stored and the id as it is read. -/
theorem length_id_truncate (h : maxId ≤ id.length) : (id.truncate maxId).length < id.length := by
  rw [length_truncate]
  have hpos : 0 < maxId := by decide
  omega

/-- An account with an id that is too long can only be one that has been there before. -/
theorem admitsAgain_of_staysAdmitted (hid : maxId ≤ id.length)
    (h : d.StaysAdmitted id password role) :
    AdmitsAgain d.userRecords (id.truncate maxId) role (password.truncate maxPass) := by
  have hne : id.truncate maxId ≠ id := fun heq => by
    have hlt := length_id_truncate hid
    rw [heq] at hlt
    exact Nat.lt_irrefl _ hlt
  -- another password for the id as it is read
  obtain ⟨other, hother⟩ : ∃ other : CString, (strncpy maxPass other).str ≠
      password.truncate maxPass := by
    by_cases hempty : password.truncate maxPass = .empty
    · exact ⟨.ofString "a", by rw [hempty]; decide +kernel⟩
    · exact ⟨.empty, by rw [str_strncpy (Nat.zero_le _)]; exact fun heq => hempty heq.symm⟩
  obtain ⟨code, d', hrun⟩ :=
    exists_changePassword d (length_truncate_lt (by decide) id) other
  have hcall : d.makeCall (.changePassword (id.truncate maxId) other) = some d' := by
    rw [makeCall, AccountCall.program, hrun]
    rfl
  -- a login has to be possible before the call and after it
  have hbefore := canLogIn_iff.mp (h [] d .start (by simp))
  have hafter := canLogIn_iff.mp
    (h _ d' (Run.start.snoc hcall) (by simpa [AccountCall.id] using hne))
  obtain ⟨-, hnone, -⟩ | ⟨-, pos, first, hlocate, hrecords⟩ := changePassword_cases hrun
  · obtain ⟨user, huser, hmatch, -⟩ := hbefore
    have hno := List.find?_eq_none.mp (locate_eq_none.mp hnone) user huser
    exact absurd hmatch (by simpa using hno)
  · rw [hrecords] at hafter
    obtain ⟨user, huser, huserId, hpassword, hrole⟩ := hafter
    obtain ⟨j, hj⟩ := List.mem_iff_getElem?.mp huser
    have hjpos : pos ≠ j := by
      rintro rfl
      have hlt := (List.getElem?_eq_some_iff.mp (getElem?_of_locate hlocate)).1
      rw [List.getElem?_set_self hlt] at hj
      cases hj
      exact hother hpassword
    rw [List.getElem?_set_ne hjpos] at hj
    have hle : ¬ j < pos := fun hlt => by
      have hno := not_of_lt_locate hlocate hlt hj
      simp [huserId] at hno
    exact ⟨pos, j, first, user, by omega, getElem?_of_locate hlocate,
      by simpa using (mem_of_locate hlocate).2, hj, huserId, hpassword, hrole⟩

/-- From every content of `users.dat`, for all strings and every role: after `add_user` has
returned 0, logins with the id, the password and the matching choice succeed, and go on to do so
after all calls for other ids, if and only if the credentials are storable. -/
theorem staysAdmitted_iff (h : d.execute (addUser id password role) = some (0, d')) :
    d'.StaysAdmitted id password role ↔ Storable d.userRecords id password role := by
  have hrecords := userRecords_addUser h
  rw [Storable]
  split
  · next hid =>
    have hcut : id.truncate maxId = id := truncate_of_lt hid
    -- the new record has the id; it has the password if there is room for its NUL
    have hstored : (strncpy maxId id).str = id := str_strncpy (Nat.le_of_lt hid)
    have hadmits : Admits d'.userRecords id role (password.truncate maxPass) ↔
        password.length < maxPass ∨ Admits d.userRecords id role (password.truncate maxPass) := by
      rw [hrecords, admits_append, or_comm, ← str_strncpy_eq_truncate (by decide : 0 < maxPass)]
      simp [Admits, newUser, hstored]
    rw [← hadmits]
    constructor
    · intro hstays
      simpa only [hcut] using canLogIn_iff.mp (hstays [] d' .start (by simp))
    · intro hnew history d'' hr hothers
      rw [canLogIn_iff, hcut]
      exact hnew.run hr hothers
  · next hid =>
    have hlong : maxId ≤ id.length := Nat.le_of_not_lt hid
    have hne : (strncpy maxId id).str ≠ id.truncate maxId := fun heq =>
      hid ((str_strncpy_eq_truncate (by decide)).mp heq)
    constructor
    · intro hstays
      obtain ⟨i, j, earlier, user, hij, hi, hearlier, hj, huser, hmatch⟩ :=
        admitsAgain_of_staysAdmitted hlong hstays
      -- the new record is stored with more of the id than is read
      have hold : ∀ {k : Nat} {u : User}, d'.userRecords[k]? = some u →
          u.id.str = id.truncate maxId → d.userRecords[k]? = some u := by
        intro k u hk hu
        rw [hrecords] at hk
        obtain hlt | hge := Nat.lt_or_ge k d.userRecords.length
        · rwa [List.getElem?_append_left hlt] at hk
        · rw [List.getElem?_append_right hge, List.getElem?_singleton] at hk
          split at hk
          · cases hk
            exact absurd hu hne
          · cases hk
      exact ⟨i, j, earlier, user, hij, hold hi hearlier, hearlier, hold hj huser, huser, hmatch⟩
    · rintro ⟨i, j, earlier, user, hij, hi, hearlier, hj, hmatch⟩ history d'' hr -
      have hnew : AdmitsAgain d'.userRecords (id.truncate maxId) role
          (password.truncate maxPass) := by
        refine ⟨i, j, earlier, user, hij, ?_, hearlier, ?_, hmatch⟩
        · rw [hrecords, List.getElem?_append_left (List.getElem?_eq_some_iff.mp hi).1, hi]
        · rw [hrecords, List.getElem?_append_left (List.getElem?_eq_some_iff.mp hj).1, hj]
      exact canLogIn_iff.mpr (hnew.run hr).admits

/-- A student with an id of two characters can log in. -/
theorem staysAdmitted_short : ∃ d', empty.execute (addUser (.ofString "s2") (.ofString "pass4")
      .student) = some (0, d') ∧
    (d'.StaysAdmitted (.ofString "s2") (.ofString "pass4") .student ↔
      Storable empty.userRecords (.ofString "s2") (.ofString "pass4") .student) := by
  obtain ⟨d', hrun, -⟩ := execute_appendRecord empty .users
    (newUser (.ofString "s2") (.ofString "pass4") .student)
  exact ⟨d', hrun, staysAdmitted_iff hrun⟩

/-- With an id of ten characters, `add_user` returns 0 and the login fails. -/
theorem longId_not_admitted : ¬ ∀ (d d' : Disk) (id password : CString) (role : Role),
    d.execute (addUser id password role) = some (0, d') →
      d'.StaysAdmitted id password role := by
  intro hall
  obtain ⟨d', hrun, hrecords, -⟩ := execute_appendRecord empty .users
    (newUser (.ofString "student001") (.ofString "pass4") .student)
  have hstays := hall empty d' (.ofString "student001") (.ofString "pass4") .student hrun
  have hlogin := canLogIn_iff.mp (hstays [] d' .start (by simp))
  have hstored : d'.userRecords =
      [newUser (.ofString "student001") (.ofString "pass4") .student] := hrecords
  rw [hstored] at hlogin
  revert hlogin
  decide +kernel

end Disk

end AcademiaCr.Academia
