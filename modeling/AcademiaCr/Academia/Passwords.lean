import AcademiaCr.Library.Run
import AcademiaCr.Academia.Outcomes
import AcademiaCr.Academia.Menus

/-!
# Changed passwords

The authentication looks for a record with the id, the password and the role. `change_password`
overwrites the first record with the id, whatever its role is, and `add_user` does not look for
an id that is taken already.

## Main definitions

- `AccountRequest`, `Disk.handle`: the requests that change `users.dat`
- `Disk.LogsIn`: a login succeeds
- `User.Terminated`: records in whose strings `strcmp` finds a NUL
- `ChangesOwn`: the call affects exactly the account that makes it
- `Disk.Distinguished`: the accounts for which it does
- `changesOwn_iff`: the two are the same
-/

namespace AcademiaCr.Academia

open CLang RecordFile Resumption Prog Transition

/-! ## Requests -/

/-- The requests that change `users.dat`. -/
inductive AccountRequest where
  | addStudent (id name password : CString)
  | addFaculty (id name password : CString)
  | changePassword (userId newPassword : CString)

/-- What the menu loop of a user executes for it. -/
def AccountRequest.program : AccountRequest → FileOp CString
  | addStudent id name password => (Request.addStudent id name password).program .empty
  | addFaculty id name password => (Request.addFaculty id name password).program .empty
  | changePassword userId newPassword => (Request.changePassword newPassword).program userId

/-- The id and the password leave room for their NULs. -/
def AccountRequest.Fits : AccountRequest → Prop
  | addStudent id _ password | addFaculty id _ password =>
    id.length < maxId ∧ password.length < maxPass
  | changePassword userId newPassword => userId.length < maxId ∧ newPassword.length < maxPass

/-- The id and the password end within their fields. -/
def User.Terminated (user : User) : Prop := user.id.Terminated ∧ user.password.Terminated

instance (user : User) : Decidable user.Terminated := inferInstanceAs (Decidable (_ ∧ _))

/-- The condition of a login, where the comparisons stay within the fields. -/
theorem User.strcmpLogin_eq {user : User} {userId password : CString}
    (hid : ¬ user.id.Overrun userId) (hpassword : ¬ user.password.Overrun password)
    (role : Role) : user.strcmpLogin userId password role =
      some (decide (user.id.str = userId ∧ user.password.str = password ∧ user.role = role)) := by
  rw [strcmpLogin, CArray.strcmp_of_not_overrun hid, CArray.strcmp_of_not_overrun hpassword]
  by_cases h : user.id.str = userId <;> simp [h]

namespace Disk

variable {d d' : Disk}

/-- The files after a request. -/
def handle (d : Disk) (request : AccountRequest) : Option Disk :=
  (d.execute request.program).map (·.2)

/-- The records of `users.dat`. -/
def userRecords (d : Disk) : List User := d.users.content.getD []

/-- Some record has the id, the password and the role. -/
def Admits (records : List User) (id : CString) (role : Role) (password : CString) : Prop :=
  ∃ user ∈ records, user.id.str = id ∧ user.password.str = password ∧ user.role = role

instance (records : List User) (id : CString) (role : Role) (password : CString) :
    Decidable (Admits records id role password) :=
  inferInstanceAs (Decidable (∃ user ∈ records, _))

/-- A login succeeds. -/
def LogsIn (d : Disk) (id : CString) (role : Role) (password : CString) : Prop :=
  d.execute (authenticate id password role) = some (some true, d)

/-- A record that is appended to a file. -/
theorem execute_appendRecord (d : Disk) (f : FileName) (r : f.Record) :
    ∃ d', d.execute (appendRecord f r) = some (0, d') ∧
      (d'.file f).content.getD [] = (d.file f).content.getD [] ++ [r] ∧
      ∀ g, g ≠ f → d'.file g = d.file g := by
  obtain ⟨fd, x, hnamed, hcontent, hrun⟩ :=
    execute_withFile_create (d := d) f (-1 : Int) (appendSection f r)
  have hfile : (d.setFile f x).file f = x := d.file_setFile f x
  have hread : x.read fd = (d.file f).content.getD [] :=
    Option.some.inj ((NamedFile.content_of_named hnamed).symm.trans hcontent)
  have happend : (d.setFile f x).execute (appendSection f r fd) =
      some (0, (d.setFile f x).setFile f
        (((d.setFile f x).file f).update fd (((d.setFile f x).file f).read fd ++ [r]))) := rfl
  rw [hfile, hread, setFile_setFile] at happend
  refine ⟨_, hrun.trans happend, ?_, fun g hg => d.file_setFile_ne hg _⟩
  rw [file_setFile, NamedFile.content_update_self hnamed, Option.getD_some]

theorem execute_overwriteSection (d : Disk) (f : FileName) (found : f.Record → Option Bool)
    (edit : f.Record → Option f.Record) (fd : Nat) :
    d.execute (overwriteSection f found edit fd) =
      (overwriteIn found edit ((d.file f).read fd)).map fun out =>
        (out.1, d.setFile f ((d.file f).update fd out.2)) :=
  execute_of_runSection fun next => by
    rw [runSection_overwrite, Option.map_map]
    rfl

/-- A record that is overwritten in a file. -/
theorem overwriteIn_of_execute {f : FileName} {found : f.Record → Option Bool}
    {edit : f.Record → Option f.Record} {code : Int}
    (h : d.execute (overwriteFirst f found edit) = some (code, d')) :
    overwriteIn found edit ((d.file f).content.getD []) =
      some (code, (d'.file f).content.getD []) := by
  cases hn : (d.file f).named with
  | none =>
    rw [overwriteFirst, execute_withFile_missing hn] at h
    cases h
    rw [NamedFile.content_eq_none.mpr hn]
    rfl
  | some fd =>
    rw [overwriteFirst, execute_withFile_named hn, execute_overwriteSection] at h
    obtain ⟨out, hout, heq⟩ := Option.map_eq_some_iff.mp h
    cases heq
    rw [NamedFile.content_of_named hn, Option.getD_some, hout, file_setFile,
      NamedFile.content_update_self hn, Option.getD_some]

theorem execute_authenticate (d : Disk) (id password : CString) (role : Role)
    (h : ∀ user ∈ d.userRecords, ¬ user.id.Overrun id ∧ ¬ user.password.Overrun password) :
    d.execute (authenticate id password role) =
      some (d.users.content.map fun records => decide (Admits records id role password), d) := by
  cases hn : d.users.named with
  | none =>
    rw [NamedFile.content_eq_none.mpr hn]
    exact execute_withFile_missing (f := .users) hn _ _
  | some fd =>
    rw [userRecords, NamedFile.content_of_named hn, Option.getD_some] at h
    rw [NamedFile.content_of_named hn]
    have hsearch := locate?_of_forall fun user huser =>
      User.strcmpLogin_eq (h user huser).1 (h user huser).2 role
    have hread : d.execute (authenticate id password role) =
        d.execute ((access (locate? (User.strcmpLogin id password role) (d.users.read fd))).bind
          fun found => release (some found.isSome)) :=
      execute_withFile_named (f := .users) hn _ _ _
    have hany : (d.users.read fd).any (fun user =>
        user.id.str = id ∧ user.password.str = password ∧ user.role = role) =
        decide (Admits (d.users.read fd) id role password) := by
      rw [Bool.eq_iff_iff, List.any_eq_true, decide_eq_true_iff]
      simp [Admits]
    rw [hread, hsearch, Option.map_some, ← hany, ← isSome_locate]
    rfl

theorem logsIn_iff {id password : CString} {role : Role}
    (h : ∀ user ∈ d.userRecords, ¬ user.id.Overrun id ∧ ¬ user.password.Overrun password) :
    d.LogsIn id role password ↔ Admits d.userRecords id role password := by
  rw [LogsIn, execute_authenticate d id password role h, userRecords]
  cases d.users.content with
  | none => simp [Admits]
  | some records => simp

/-- With strings that end within their fields, for all credentials. -/
theorem logsIn_iff_of_terminated (h : ∀ user ∈ d.userRecords, user.Terminated)
    {id password : CString} {role : Role} :
    d.LogsIn id role password ↔ Admits d.userRecords id role password :=
  logsIn_iff fun user huser =>
    ⟨(h user huser).1.not_overrun id, (h user huser).2.not_overrun password⟩

/-! ## What the requests do with the records -/

/-- `change_password` overwrites the first record with the id, if there is one. -/
theorem changePassword_cases {userId newPassword : CString} {code : Int}
    (h : d.execute (changePassword userId newPassword) = some (code, d')) :
    (code = -1 ∧ locate (fun user => user.id.str = userId) d.userRecords = none ∧
        d'.userRecords = d.userRecords) ∨
      (code = 0 ∧ ∃ pos first,
        locate (fun user => user.id.str = userId) d.userRecords = some (pos, first) ∧
          d'.userRecords =
            d.userRecords.set pos { first with password := strncpy maxPass newPassword }) := by
  have hout := overwriteIn_of_execute (f := .users) h
  have hid : ∀ (user : User) (same : Bool), user.id.strcmp userId = some same →
      decide (user.id.str = userId) = same := fun _ _ => CArray.decide_str_of_strcmp
  generalize hpair : (code, (d'.file .users).content.getD []) = out at hout
  cases overwrites_of_eq hid hout with
  | missing hnone => exact .inl ⟨(Prod.mk.inj hpair).1, hnone, (Prod.mk.inj hpair).2⟩
  | edited hlocate hedit =>
    cases hedit
    exact .inr ⟨(Prod.mk.inj hpair).1, _, _, hlocate, (Prod.mk.inj hpair).2⟩

/-- A new account, and its record in another file. -/
theorem userRecords_create {user : User} {f : FileName} {r : f.Record} (hf : f ≠ .users)
    {answer : Int → CString} {out : CString × Disk}
    (hrun : d.execute ((appendRecord .users user).bind fun ret =>
      if ret = 0 then (appendRecord f r).bind fun ret => pure (answer ret)
      else (pure ret : FileOp Int).bind fun ret => pure (answer ret)) = some out) :
    out.2.userRecords = d.userRecords ++ [user] := by
  obtain ⟨d₁, hfirst, hrecords, -⟩ := execute_appendRecord d .users user
  obtain ⟨d₂, hsecond, -, hothers⟩ := execute_appendRecord d₁ f r
  have hrun₁ : d.execute ((appendRecord .users user).bind fun ret =>
      if ret = 0 then (appendRecord f r).bind fun ret => pure (answer ret)
      else (pure ret : FileOp Int).bind fun ret => pure (answer ret)) =
      d₁.execute ((appendRecord f r).bind fun ret => pure (answer ret)) :=
    execute_bind_of hfirst _
  have hrun₂ : d₁.execute ((appendRecord f r).bind fun ret => pure (answer ret)) =
      some (answer 0, d₂) :=
    execute_bind_of hsecond _
  cases hrun.symm.trans (hrun₁.trans hrun₂)
  have husers : d₂.users = d₁.users := hothers .users hf.symm
  rw [userRecords, husers]
  exact hrecords

/-- A request appends a record, overwrites the password of one, or leaves the records. -/
theorem handle_cases {request : AccountRequest} (hd : d.handle request = some d') :
    (∃ user : User, (request.Fits → user.Terminated) ∧ d'.userRecords = d.userRecords ++ [user]) ∨
      (∃ pos first, ∃ password : CArray UInt8 maxPass, d.userRecords[pos]? = some first ∧
        (request.Fits → password.Terminated) ∧
          d'.userRecords = d.userRecords.set pos { first with password }) ∨
      d'.userRecords = d.userRecords := by
  obtain ⟨out, hrun, rfl⟩ := Option.map_eq_some_iff.mp hd
  cases request with
  | addStudent id name password =>
    exact .inl ⟨_, fun h => ⟨terminated_strncpy h.1, terminated_strncpy h.2⟩,
      userRecords_create (f := .students) (r := newStudent id name) (by decide) hrun⟩
  | addFaculty id name password =>
    exact .inl ⟨_, fun h => ⟨terminated_strncpy h.1, terminated_strncpy h.2⟩,
      userRecords_create (f := .faculty) (r := ⟨strncpy maxId id, strncpy maxName name⟩)
        (by decide) hrun⟩
  | changePassword userId newPassword =>
    have hbind := @execute_bind _ _ _ _ Disk.exec (Academia.changePassword userId newPassword)
      (fun ret => (pure (respondCode "Password changed successfully\n"
        "Failed to change password\n" ret) : FileOp CString)) d
    obtain ⟨⟨code, d₁⟩, hchange, hret⟩ := Option.bind_eq_some_iff.mp (hbind.symm.trans hrun)
    cases hret
    obtain ⟨-, -, hsame⟩ | ⟨-, pos, first, hlocate, hset⟩ := changePassword_cases hchange
    · exact .inr (.inr hsame)
    · exact .inr (.inl ⟨pos, first, _, getElem?_of_locate hlocate,
        fun h => terminated_strncpy h.2, hset⟩)

/-- Requests that fit keep the strings terminated. -/
theorem terminated_handle {request : AccountRequest} (hfits : request.Fits)
    (h : ∀ user ∈ d.userRecords, user.Terminated) (hd : d.handle request = some d') :
    ∀ user ∈ d'.userRecords, user.Terminated := by
  intro user huser
  obtain ⟨new, hnew, hrecords⟩ | ⟨pos, first, password, hfirst, hpassword, hrecords⟩ | hrecords :=
    handle_cases hd
  · rw [hrecords, List.mem_append, List.mem_singleton] at huser
    obtain huser | rfl := huser
    · exact h user huser
    · exact hnew hfits
  · rw [hrecords] at huser
    obtain huser | rfl := List.mem_or_eq_of_mem_set huser
    · exact h user huser
    · exact ⟨(h first (List.mem_of_getElem? hfirst)).1, hpassword hfits⟩
  · exact h user (hrecords ▸ huser)

theorem terminated_run {history : List (Event Disk AccountRequest)}
    (h : ∀ user ∈ d.userRecords, user.Terminated) (hr : Run Disk.handle d history d')
    (hfits : ∀ e ∈ history, e.label.Fits) : ∀ user ∈ d'.userRecords, user.Terminated := by
  induction hr with
  | start => exact h
  | snoc _ hstep ih =>
    exact terminated_handle (hfits _ List.mem_cons_self)
      (ih fun e he => hfits e (List.mem_cons_of_mem _ he)) hstep

/-! ## Accounts -/

/-- Some record has the id and the role. -/
def HasAccount (d : Disk) (id : CString) (role : Role) : Prop :=
  ∃ user ∈ d.userRecords, user.id.str = id ∧ user.role = role

theorem Admits.hasAccount {id password : CString} {role : Role}
    (h : Admits d.userRecords id role password) : d.HasAccount id role := by
  obtain ⟨user, huser, hid, -, hrole⟩ := h
  exact ⟨user, huser, hid, hrole⟩

/-- Accounts are never removed. -/
theorem HasAccount.handle {id : CString} {role : Role} (h : d.HasAccount id role)
    {request : AccountRequest} (hd : d.handle request = some d') : d'.HasAccount id role := by
  obtain ⟨user, huser, haccount⟩ := h
  obtain ⟨new, -, hrecords⟩ | ⟨pos, first, password, hfirst, -, hrecords⟩ | hrecords :=
    handle_cases hd
  · exact ⟨user, by rw [hrecords]; exact List.mem_append_left _ huser, haccount⟩
  · obtain ⟨i, hi⟩ := List.mem_iff_getElem?.mp huser
    by_cases hpos : pos = i
    · -- the record gets another password
      subst hpos
      cases hfirst.symm.trans hi
      refine ⟨{ user with password }, ?_, haccount⟩
      rw [hrecords]
      exact List.mem_set (List.getElem?_eq_some_iff.mp hi).1 _
    · refine ⟨user, ?_, haccount⟩
      rw [hrecords]
      exact List.mem_of_getElem? (by rw [List.getElem?_set_ne hpos, hi])
  · exact ⟨user, hrecords ▸ huser, haccount⟩

/-- Accounts are never removed in a run. -/
theorem HasAccount.run {id : CString} {role : Role} (h : d.HasAccount id role)
    {history : List (Event Disk AccountRequest)} (hr : Run Disk.handle d history d') :
    d'.HasAccount id role := by
  induction hr with
  | start => exact h
  | snoc _ hs ih => exact ih.handle hs

/-! ## Changing a password -/

/-- The call affects exactly the account: it has the new password and no other, and all other
accounts have the passwords that they had. -/
def ChangesOwn (d d' : Disk) (userId : CString) (role : Role) (newPassword : CString) : Prop :=
  (∀ q, d'.LogsIn userId role q ↔ q = newPassword) ∧
    ∀ id' role', (id', role') ≠ (userId, role) → ∀ q, d'.LogsIn id' role' q ↔ d.LogsIn id' role' q

/-- All other records of the account have the new password already. The first record with the
id is one of the account, or the login does not depend on it: it has the new password, or both
its passwords, the old one and the new one, are those of other records with its id and role. -/
def Distinguished (d : Disk) (userId : CString) (role : Role) (newPassword : CString) : Prop :=
  ∀ pos first, locate (fun user => user.id.str = userId) d.userRecords = some (pos, first) →
    let others := d.userRecords.eraseIdx pos
    (∀ q, Admits others userId role q → q = newPassword) ∧
      (first.role = role ∨ first.password.str = newPassword ∨
        Admits others userId first.role first.password.str ∧
          Admits others userId first.role newPassword)

theorem admits_cons {first : User} {others records : List User}
    (h : records.Perm (first :: others)) {id password : CString} {role : Role} :
    Admits records id role password ↔
      (first.id.str = id ∧ first.password.str = password ∧ first.role = role) ∨
        Admits others id role password := by
  simp only [Admits, h.mem_iff, List.mem_cons, or_and_right, exists_or, exists_eq_left]

/-- One record of an account gets another password: what that does to all accounts. `S` are
the logins with the other records. -/
theorem replace_password_iff {κ ρ π : Type} {u : κ} {r role : ρ} {old new : π}
    {S : κ → ρ → π → Prop} (haccount : ∃ q, (old = q ∧ r = role) ∨ S u role q) :
    ((∀ q, (new = q ∧ r = role) ∨ S u role q ↔ q = new) ∧
      ∀ id' role', (id', role') ≠ (u, role) → ∀ q,
        ((u = id' ∧ new = q ∧ r = role') ∨ S id' role' q ↔
          (u = id' ∧ old = q ∧ r = role') ∨ S id' role' q)) ↔
      (∀ q, S u role q → q = new) ∧ (r = role ∨ old = new ∨ S u r old ∧ S u r new) := by
  constructor
  · rintro ⟨hown, hothers⟩
    refine ⟨fun q hq => (hown q).mp (.inr hq), ?_⟩
    by_cases hr : r = role
    · exact .inl hr
    · -- the record belongs to another account, which has kept its passwords
      have hkept := hothers u r fun h => hr (Prod.mk.inj h).2
      obtain ⟨-, heq, -⟩ | hnew := (hkept new).mp (.inl ⟨rfl, rfl, rfl⟩)
      · exact .inr (.inl heq)
      · obtain ⟨-, heq, -⟩ | hold := (hkept old).mpr (.inl ⟨rfl, rfl, rfl⟩)
        · exact .inr (.inl heq.symm)
        · exact .inr (.inr ⟨hold, hnew⟩)
  · rintro ⟨honly, hfirst⟩
    refine ⟨fun q => ⟨?_, ?_⟩, fun id' role' hne q => ?_⟩
    · rintro (⟨rfl, -⟩ | hq)
      · rfl
      · exact honly q hq
    · rintro rfl
      by_cases hr : r = role
      · exact .inl ⟨rfl, hr⟩
      · obtain ⟨q', ⟨-, hrole⟩ | hq'⟩ := haccount
        · exact absurd hrole hr
        · exact .inr (honly q' hq' ▸ hq')
    · -- the other account may be the one whose record has been overwritten
      by_cases hsame : u = id' ∧ r = role'
      · obtain ⟨rfl, rfl⟩ := hsame
        have hr : r ≠ role := fun hr => hne (by rw [hr])
        obtain hr' | rfl | ⟨hold, hnew⟩ := hfirst
        · exact absurd hr' hr
        · exact Iff.rfl
        · constructor
          · rintro (⟨-, rfl, -⟩ | hq)
            · exact .inr hnew
            · exact .inr hq
          · rintro (⟨-, rfl, -⟩ | hq)
            · exact .inr hold
            · exact .inr hq
      · constructor
        · rintro (⟨hu, -, hr⟩ | hq)
          · exact absurd ⟨hu, hr⟩ hsame
          · exact .inr hq
        · rintro (⟨hu, -, hr⟩ | hq)
          · exact absurd ⟨hu, hr⟩ hsame
          · exact .inr hq

/-- For every content of `users.dat`, every session that has logged in, and every requests
since then, with strings that fit: a call of `change_password` that returns 0 affects exactly the
account of the session if and only if the account is distinguished from all others by its id. -/
theorem changesOwn_iff {d₁ : Disk} {userId password newPassword : CString} {role : Role}
    {history : List (Event Disk AccountRequest)} (hlogin : d₁.LogsIn userId role password)
    (hterminated : ∀ user ∈ d₁.userRecords, user.Terminated)
    (hr : Run Disk.handle d₁ history d) (hfits : ∀ e ∈ history, e.label.Fits)
    (hlength : newPassword.length < maxPass)
    (hchange : d.execute (changePassword userId newPassword) = some (0, d')) :
    d.ChangesOwn d' userId role newPassword ↔ d.Distinguished userId role newPassword := by
  obtain ⟨hcode, -⟩ | ⟨-, pos, first, hlocate, hrecords⟩ := changePassword_cases hchange
  · cases hcode
  have hd := terminated_run hterminated hr hfits
  have hd' : ∀ user ∈ d'.userRecords, user.Terminated := by
    intro user huser
    rw [hrecords] at huser
    obtain huser | rfl := List.mem_or_eq_of_mem_set huser
    · exact hd user huser
    · exact ⟨(hd first (mem_of_locate hlocate).1).1, terminated_strncpy hlength⟩
  have hid : first.id.str = userId := by simpa using (mem_of_locate hlocate).2
  obtain ⟨hpos, hget⟩ := List.getElem?_eq_some_iff.mp (getElem?_of_locate hlocate)
  -- the accounts before and after the call
  have hold : d.userRecords.Perm (first :: d.userRecords.eraseIdx pos) := by
    rw [← hget]
    exact (List.getElem_cons_eraseIdx_perm hpos).symm
  have hnew : d'.userRecords.Perm ({ first with password := strncpy maxPass newPassword } ::
      d.userRecords.eraseIdx pos) := by
    rw [hrecords]
    exact List.set_perm_cons_eraseIdx hpos _
  have hstr : (strncpy maxPass newPassword).str = newPassword := str_strncpy (Nat.le_of_lt hlength)
  have hbefore : ∀ id' role' q, d.LogsIn id' role' q ↔
      (userId = id' ∧ first.password.str = q ∧ first.role = role') ∨
        Admits (d.userRecords.eraseIdx pos) id' role' q := fun id' role' q => by
    rw [logsIn_iff_of_terminated hd, ← hid]
    exact admits_cons hold
  have hafter : ∀ id' role' q, d'.LogsIn id' role' q ↔
      (userId = id' ∧ newPassword = q ∧ first.role = role') ∨
        Admits (d.userRecords.eraseIdx pos) id' role' q := fun id' role' q => by
    rw [logsIn_iff_of_terminated hd', ← hid, ← hstr]
    exact admits_cons hnew
  have haccount : ∃ q, d.LogsIn userId role q := by
    have hadmits := (logsIn_iff_of_terminated hterminated).mp hlogin
    obtain ⟨user, huser, hid', hrole⟩ := hadmits.hasAccount.run hr
    exact ⟨user.password.str,
      (logsIn_iff_of_terminated hd).mpr ⟨user, huser, hid', rfl, hrole⟩⟩
  have hcond : d.Distinguished userId role newPassword ↔ _ :=
    ⟨fun h => h pos first hlocate, fun h pos' first' hlocate' => by
      cases hlocate.symm.trans hlocate'
      exact h⟩
  simp only [hbefore, true_and] at haccount
  simp only [ChangesOwn, hcond, hbefore, hafter, true_and]
  exact replace_password_iff haccount

/-- A lecturer gets the id of the sample student. -/
def sharedId : AccountRequest :=
  .addFaculty (.ofString "s1") (.ofString "Ann") (.ofString "pass3")

/-- The lecturer changes the password, and the login with it fails. -/
theorem sharedId_changes_other : ¬ ∀ (d₀ d₁ d d' : Disk)
    (history₁ history₂ : List (Event Disk AccountRequest)) (userId password newPassword : CString)
    (role : Role), empty.execute initialSetup = some ((), d₀) → Run Disk.handle d₀ history₁ d₁ →
    (∀ e ∈ history₁, e.label.Fits) → d₁.LogsIn userId role password →
    Run Disk.handle d₁ history₂ d → (∀ e ∈ history₂, e.label.Fits) →
    newPassword ≠ .empty → newPassword.length < maxPass →
    d.execute (changePassword userId newPassword) = some (0, d') →
    d.ChangesOwn d' userId role newPassword := by
  intro hall
  have hrun : ((empty.execute initialSetup).bind fun out =>
      (out.2.handle sharedId).bind fun d =>
        (d.execute (changePassword (.ofString "s1") (.ofString "new"))).map fun changed =>
          decide ((∀ user ∈ d.userRecords, user.Terminated) ∧
            (∀ user ∈ changed.2.userRecords, user.Terminated) ∧ changed.1 = 0 ∧
            Admits d.userRecords (.ofString "s1") .faculty (.ofString "pass3") ∧
            ¬ Admits changed.2.userRecords (.ofString "s1") .faculty (.ofString "new"))) =
      some true := by
    decide +kernel
  obtain ⟨⟨_, d₀⟩, hsetup, hrun⟩ := Option.bind_eq_some_iff.mp hrun
  obtain ⟨d, hhandle, hrun⟩ := Option.bind_eq_some_iff.mp hrun
  obtain ⟨⟨code, d'⟩, hchange, hcheck⟩ := Option.map_eq_some_iff.mp hrun
  obtain ⟨hd, hd', rfl, hlogin, hfails⟩ := of_decide_eq_true hcheck
  have hfits : ∀ e ∈ [(⟨d₀, sharedId, d⟩ : Event Disk AccountRequest)], e.label.Fits := by
    intro e he
    cases List.mem_singleton.mp he
    exact ⟨by decide, by decide⟩
  have hown := hall d₀ d d d' _ [] _ _ _ _ hsetup (Run.start.snoc hhandle) hfits
    ((logsIn_iff_of_terminated hd).mpr hlogin) .start (fun _ he => by cases he) (by decide)
    (by decide) hchange
  exact hfails ((logsIn_iff_of_terminated hd').mp ((hown.1 _).mpr rfl))

/-- The sample student changes the password. -/
theorem changesOwn_iff_sample : ∃ d d' : Disk,
    d.execute (changePassword (.ofString "s1") (.ofString "new")) = some (0, d') ∧
    (d.ChangesOwn d' (.ofString "s1") .student (.ofString "new") ↔
      d.Distinguished (.ofString "s1") .student (.ofString "new")) := by
  have hrun : ((empty.execute initialSetup).bind fun out =>
      (out.2.execute (changePassword (.ofString "s1") (.ofString "new"))).map fun changed =>
        decide ((∀ user ∈ out.2.userRecords, user.Terminated) ∧ changed.1 = 0 ∧
          Admits out.2.userRecords (.ofString "s1") .student (.ofString "pass1"))) =
      some true := by
    decide +kernel
  obtain ⟨⟨_, d⟩, -, hrun⟩ := Option.bind_eq_some_iff.mp hrun
  obtain ⟨⟨code, d'⟩, hchange, hcheck⟩ := Option.map_eq_some_iff.mp hrun
  obtain ⟨hd, rfl, hlogin⟩ := of_decide_eq_true hcheck
  exact ⟨d, d', hchange, changesOwn_iff ((logsIn_iff_of_terminated hd).mpr hlogin) hd .start
    (fun _ he => by cases he) (by decide) hchange⟩

end Disk

end AcademiaCr.Academia
