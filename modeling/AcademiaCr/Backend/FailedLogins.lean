import AcademiaCr.Backend.Accounts

/-!
# Failed logins

What a login tells to a caller who does not know the password. `login` looks at the
`active` flag before it looks at the password, so an unknown name and a wrong password get
the same answer, while a deactivated account gets an answer of its own.

## Main definitions

- `Db.WrongPassword`: the password is not that of the name
- `Db.Deactivated`: the name belongs to a deactivated account
- `failed_logins_alike`: two failed logins differ in this only
-/

namespace AcademiaCr.Backend

namespace Db

/-- The two databases differ at most in the user row of the name. -/
structure SameExcept (username : String) (db db' : Db) : Prop where
  users : db.users.filter (·.username ≠ bindText username) =
    db'.users.filter (·.username ≠ bindText username)
  rest : { db with users := [] } = { db' with users := [] }

/-- The password does not match the hash that is stored for the name, if one is. -/
def WrongPassword (db : Db) (username password : String) : Prop :=
  ∀ row ∈ db.users, row.username = bindText username → hashPassword password ≠ row.passwordHash

/-- There is an account of the name, and it is deactivated. -/
def Deactivated (db : Db) (username : String) : Prop :=
  ∃ row ∈ db.users, row.username = bindText username ∧ row.active = 0

instance (db : Db) (username : String) : Decidable (db.Deactivated username) :=
  inferInstanceAs (Decidable (∃ row ∈ db.users, row.username = bindText username ∧ row.active = 0))

/-- The answer to a failed login. -/
def refusal (db : Db) (username : String) : LoginResult :=
  if db.Deactivated username then { error := "Account is deactivated" }
  else { error := "Invalid username or password" }

theorem refusal_eq_iff {db db' : Db} {username username' : String} :
    db.refusal username = db'.refusal username' ↔
      (db.Deactivated username ↔ db'.Deactivated username') := by
  have hne : ({ error := "Account is deactivated" } : LoginResult) ≠
      { error := "Invalid username or password" } := by decide
  by_cases h : db.Deactivated username <;> by_cases h' : db'.Deactivated username' <;>
    simp [refusal, h, h', hne, hne.symm]

/-- Names are unique, so the row that a lookup finds tells whether the account is active. -/
theorem deactivated_iff_of_find? {db : Db} (hv : db.Valid) {username : String} {row : UserRow}
    (hrow : db.users.find? (·.username = bindText username) = some row) :
    db.Deactivated username ↔ row.active = 0 := by
  have hmem : row ∈ db.users := List.mem_of_find?_eq_some hrow
  have hname : row.username = bindText username := by simpa using List.find?_some hrow
  constructor
  · intro ⟨other, hother, hname', hoff⟩
    have heq : other = row :=
      List.inj_on_of_nodup_map hv.usernames hother hmem (hname'.trans hname.symm)
    exact heq ▸ hoff
  · intro hoff
    exact ⟨row, hmem, hname, hoff⟩

end Db

namespace Conn

variable {now : Int} {conn : Conn}

/-- A login with a wrong password changes nothing. -/
theorem login_refused (hv : conn.db.Valid) {username password : String}
    (hwrong : conn.db.WrongPassword username password) (generated : String) :
    conn.runExcept now (AuthService.login username password generated) =
      (.ok (conn.db.refusal username), conn) := by
  simp only [AuthService.login, UserRepository.findByUsername, runExcept_bind, runExcept_liftM,
    run_select, Query.eval]
  cases hrow : conn.db.users.find? (·.username = bindText username) with
  | none =>
    have hoff : ¬ conn.db.Deactivated username := by
      rintro ⟨row, hmem, hname, -⟩
      simpa [hname] using List.find?_eq_none.mp hrow row hmem
    rw [Db.refusal, if_neg hoff]
    rfl
  | some row =>
    have hmem : row ∈ conn.db.users := List.mem_of_find?_eq_some hrow
    have hname : row.username = bindText username := by simpa using List.find?_some hrow
    obtain ⟨user, huser, -, -, -, hactive⟩ := rowToUser_of_valid hv hmem
    have hhash : user.passwordHash = row.passwordHash := rowToUser_passwordHash huser
    have hne : hashPassword password ≠ row.passwordHash := hwrong row hmem hname
    simp only [UserRepository.ofRow, UserRepository.ofRow.liftExcept, huser, runExcept_bind,
      runExcept_mk, runExcept_pure, Db.refusal, Db.deactivated_iff_of_find? hv hrow]
    by_cases hoff : row.active = 0
    · simp [hactive, hoff]
    · simp [hactive, hoff, hhash, hne]

end Conn

/-- Whoever does not know the password changes nothing, whichever name and whichever of two
databases it is, and learns from the answer whether the account is deactivated and no more. -/
theorem failed_logins_alike {now now' : Int} {conn conn' : Conn} (hv : conn.db.Valid)
    (hv' : conn'.db.Valid) {username username' password password' : String}
    (h : conn.db.WrongPassword username password)
    (h' : conn'.db.WrongPassword username' password') (generated generated' : String) :
    (conn.runExcept now (AuthService.login username password generated)).2 = conn ∧
      (conn'.runExcept now' (AuthService.login username' password' generated')).2 = conn' ∧
      ((conn.runExcept now (AuthService.login username password generated)).1 =
          (conn'.runExcept now' (AuthService.login username' password' generated')).1 ↔
        (conn.db.Deactivated username ↔ conn'.db.Deactivated username')) := by
  rw [Conn.login_refused hv h, Conn.login_refused hv' h']
  refine ⟨rfl, rfl, ?_⟩
  rw [Except.ok.injEq]
  exact Db.refusal_eq_iff

/-! ## A deactivated account -/

/-- A database without users, and one with a single account, which is deactivated or not. -/
def noAccount : Db := { userSeq := 1 }

def annsAccount (active : Int) : Db where
  users := [⟨1, "ann", hashPassword "pass", "student", "Ann", "", active⟩]
  userSeq := 1

theorem annsAccount_valid (active : Int) : (annsAccount active).Valid := by
  constructor <;> simp [annsAccount]

theorem noAccount_valid : noAccount.Valid := by
  constructor <;> simp [noAccount]

theorem annsAccount_wrongPassword (active : Int) :
    (annsAccount active).WrongPassword "ann" "guess" := by
  intro row hrow _
  rw [List.mem_singleton.mp hrow]
  show hashPassword "guess" ≠ hashPassword "pass"
  decide +kernel

theorem noAccount_wrongPassword : noAccount.WrongPassword "ann" "guess" := by
  intro row hrow
  exact absurd hrow List.not_mem_nil

/-- Nobody learns whether there is an active account with the name. -/
theorem annsAccount_alike :
    (({ db := noAccount } : Conn).runExcept 0 (AuthService.login "ann" "guess" "a11ce")).2 =
        { db := noAccount } ∧
      (({ db := annsAccount 1 } : Conn).runExcept 0 (AuthService.login "ann" "guess" "a11ce")).2 =
        { db := annsAccount 1 } ∧
      ((({ db := noAccount } : Conn).runExcept 0 (AuthService.login "ann" "guess" "a11ce")).1 =
          (({ db := annsAccount 1 } : Conn).runExcept 0
            (AuthService.login "ann" "guess" "a11ce")).1 ↔
        (noAccount.Deactivated "ann" ↔ (annsAccount 1).Deactivated "ann")) :=
  failed_logins_alike noAccount_valid (annsAccount_valid 1) noAccount_wrongPassword
    (annsAccount_wrongPassword 1) "a11ce" "a11ce"

/-- An unknown name and a deactivated account answer differently. -/
theorem deactivated_account_revealed : ¬ ∀ (now : Int) (db db' : Db)
    (username password generated : String), db.Valid → db'.Valid →
    db.SameExcept username db' → db.WrongPassword username password →
    db'.WrongPassword username password →
    (({ db } : Conn).runExcept now (AuthService.login username password generated)).1 =
      (({ db := db' } : Conn).runExcept now (AuthService.login username password generated)).1 := by
  intro h
  have hsame : noAccount.SameExcept "ann" (annsAccount 0) := ⟨by decide +kernel, rfl⟩
  have heq := h 0 noAccount (annsAccount 0) "ann" "guess" "a11ce" noAccount_valid
    (annsAccount_valid 0) hsame noAccount_wrongPassword (annsAccount_wrongPassword 0)
  rw [Conn.login_refused noAccount_valid noAccount_wrongPassword,
    Conn.login_refused (annsAccount_valid 0) (annsAccount_wrongPassword 0), Except.ok.injEq,
    Db.refusal_eq_iff] at heq
  have hoff : (annsAccount 0).Deactivated "ann" :=
    ⟨_, List.mem_singleton_self _, by decide +kernel, rfl⟩
  obtain ⟨row, hrow, -⟩ := heq.mpr hoff
  exact absurd hrow List.not_mem_nil

end AcademiaCr.Backend
