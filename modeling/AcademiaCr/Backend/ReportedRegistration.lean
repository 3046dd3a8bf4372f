import AcademiaCr.Backend.LostWrites
import AcademiaCr.Backend.RelyGuarantee

/-!
# A registration that reports success

`create` learns from `changes` whether it re-activated a row and from `lastInsertRowid` which
row it inserted; both report the latest write of any thread. What `register_student`
reports is true in every run in which no other thread overwrites them before it reads them.

## Main definitions

- `Db.HasActive`: the pair has an active row with an id
- `CountersKept`: a step that leaves alone what a registration is about to read
- `Happening.Loses`: a write that takes an active row of the pair away
- `RegistrationsReal`: what a registration is about to report is so
-/

namespace AcademiaCr.Backend

open Resumption Transition

namespace Db

/-- The pair has an active row with the given id. -/
def HasActive (db : Db) (s c id : Int) : Prop :=
  ∃ row ∈ db.registrations, row.activePair s c = true ∧ row.id = id

instance (db : Db) (s c id : Int) : Decidable (db.HasActive s c id) :=
  inferInstanceAs (Decidable (∃ row ∈ db.registrations, _ ∧ _))

variable {db : Db} {s c id : Int}

/-- The only row of a pair is what a search for it finds. -/
theorem HasActive.find? (hv : db.Valid) (h : db.HasActive s c id) :
    (db.registrations.find? (RegistrationRow.ofPair s c)).map (·.id) = some id := by
  obtain ⟨row, hmem, hactive, rfl⟩ := h
  have hof : row.ofPair s c = true := by
    simp only [RegistrationRow.activePair, decide_eq_true_eq] at hactive
    simp [RegistrationRow.ofPair, hactive]
  obtain ⟨found, hfound⟩ := Option.isSome_iff_exists.mp
    (List.find?_isSome.mpr ⟨row, hmem, hof⟩ :
      (db.registrations.find? (RegistrationRow.ofPair s c)).isSome = true)
  have hof' := List.find?_some hfound
  simp only [RegistrationRow.ofPair, decide_eq_true_eq] at hof hof'
  have hsame : found = row := Table.eq_of_key_eq hv.pairs (List.mem_of_find?_eq_some hfound) hmem
    (by rw [hof.1, hof.2, hof'.1, hof'.2])
  rw [hfound, hsame]
  rfl

theorem HasActive.ne_zero (hv : db.Valid) (h : db.HasActive s c id) : id ≠ 0 := by
  obtain ⟨row, hmem, -, rfl⟩ := h
  exact (hv.registrationPos row hmem).ne'

/-- A re-activation that changes a row leaves an active one. -/
theorem exists_hasActive_reactivated
    (h : 0 < db.registrations.countP (RegistrationRow.droppedPair s c)) :
    ∃ id, (db.reactivated s c).HasActive s c id := by
  obtain ⟨r, hr, hp⟩ := List.countP_pos_iff.mp h
  refine ⟨_, _, Table.mem_update.mpr ⟨r, hr, rfl⟩, ?_, rfl⟩
  rw [if_pos hp]
  simp only [RegistrationRow.droppedPair, decide_eq_true_eq] at hp
  simp [RegistrationRow.activePair, RegistrationRow.setStatus, hp]

end Db

/-! ## Conditions on runs -/

namespace Phase

/-- The thread is about to read `changes` for a registration. -/
def readsChanges : Phase → Bool
  | body (.registerStudent _ _) _ (.call .changes _) => true
  | _ => false

/-- The thread is about to read `lastInsertRowid` for a registration. -/
def readsRowid : Phase → Bool
  | body (.registerStudent _ _) _ (.call .lastInsertRowid _) => true
  | _ => false

end Phase

variable {ι : Type}

/-- The step does not raise the number of changes from 0 while another thread is about to
read it, nor changes the inserted rowid while another thread is about to read that. -/
def CountersKept (e : Happening ι) : Prop :=
  ∀ j, j ≠ e.thread →
    ((e.before.threads j).phase.readsChanges = true → e.before.conn.changes = 0 →
      e.after.conn.changes = 0) ∧
    ((e.before.threads j).phase.readsRowid = true →
      e.after.conn.lastInsertRowid = e.before.conn.lastInsertRowid)

instance (e : Happening ι) [Fintype ι] [DecidableEq ι] : Decidable (CountersKept e) :=
  inferInstanceAs (Decidable (∀ j, j ≠ e.thread → _ ∧ _))

/-- A write that drops or deletes an active row of the pair. -/
def Happening.Loses (s c : Int) (e : Happening ι) : Prop :=
  e.writes = true ∧ ∃ row ∈ e.before.conn.db.registrations, row.activePair s c = true ∧
    ¬ e.after.conn.db.HasActive s c row.id

/-- During the call that the thread is in, another thread has dropped or deleted the row. -/
def LostDuring (history : List (Happening ι)) (server : Server ι) (j : ι) (s c : Int) : Prop :=
  ∃ f ∈ history, f.thread ≠ j ∧ (f.before.threads j).phase.critical = some (.registerStudent s c) ∧
    (f.before.threads j).finished.length = (server.threads j).finished.length ∧ f.Loses s c

/-- A registration that is about to report success has its row, unless another request has
taken it away meanwhile. -/
def RegistrationsReal (history : List (Happening ι)) (server : Server ι) : Prop :=
  ∀ j s c m result,
    (server.threads j).phase = .unlock (.registerStudent s c) m (.registration result) →
      result.success = true →
        (result.registrationId ≠ 0 ∧ server.conn.db.HasActive s c result.registrationId) ∨
          LostDuring history server j s c

/-! ## The specification of a registration -/

/-- The row is in the tables, and would be after a rollback. -/
def Lasting (s c id : Int) (conn : Conn) : Prop :=
  conn.db.HasActive s c id ∧ ∀ d, conn.saved = some d → d.HasActive s c id

/-- The others keep the constraints and leave the open transaction and the active row of the
pair. -/
structure KeepsRow (s c : Int) (conn conn' : Conn) : Prop where
  valid : conn.Valid → conn'.Valid
  saved : conn'.saved = conn.saved
  active : ∀ id, conn.db.HasActive s c id → conn'.db.HasActive s c id

theorem KeepsRow.refl (s c : Int) (conn : Conn) : KeepsRow s c conn conn := ⟨id, rfl, fun _ => id⟩

theorem KeepsRow.trans {s c : Int} {c₁ c₂ c₃ : Conn} (h₁ : KeepsRow s c c₁ c₂)
    (h₂ : KeepsRow s c c₂ c₃) : KeepsRow s c c₁ c₃ :=
  ⟨h₂.valid ∘ h₁.valid, h₂.saved.trans h₁.saved, fun id => h₂.active id ∘ h₁.active id⟩

/-- Inside its transaction, a registration relies on the others to leave its row, and the
two values that it is about to read. -/
def reportSpec (s c : Int) : Spec where
  rely e conn conn' :=
    match e with
    | .beginImmediate => conn.Valid → conn'.Valid
    | .changes => KeepsRow s c conn conn' ∧ (conn.changes = 0 → conn'.changes = 0)
    | .lastInsertRowid =>
      KeepsRow s c conn conn' ∧ conn'.lastInsertRowid = conn.lastInsertRowid
    | _ => KeepsRow s c conn conn'
  done conn conn' := (conn.Valid → conn'.Valid) ∧ ∀ id, Lasting s c id conn → Lasting s c id conn'
  guar _ _ _ := True
  post reply conn := conn.Valid ∧ ∀ result, reply = .registration result →
    result.success = true → Lasting s c result.registrationId conn

def reportedSpec : Request → Spec
  | .registerStudent s c => reportSpec s c
  | _ => ⟨fun _ _ _ => True, fun _ _ => True, fun _ _ _ => True, fun _ _ => True⟩

theorem reportedSpec_lawful (r : Request) : (reportedSpec r).Lawful := by
  cases r with
  | registerStudent s c =>
    refine ⟨?_, fun _ => ⟨id, fun _ => id⟩, ?_, ?_⟩
    · intro β e conn
      cases e with
      | beginImmediate => exact id
      | changes => exact ⟨.refl s c conn, id⟩
      | lastInsertRowid => exact ⟨.refl s c conn, rfl⟩
      | commit | rollback | query | write => exact KeepsRow.refl s c conn
    · intro β e c₁ c₂ c₃ h₁ h₂
      cases e with
      | beginImmediate => exact h₂ ∘ h₁
      | changes => exact ⟨h₁.1.trans h₂.1, h₂.2 ∘ h₁.2⟩
      | lastInsertRowid => exact ⟨h₁.1.trans h₂.1, h₂.2.trans h₁.2⟩
      | commit | rollback | query | write => exact KeepsRow.trans h₁ h₂
    · rintro reply c₁ c₂ ⟨hv, hk⟩ ⟨hv₁, hp⟩
      exact ⟨hv hv₁, fun result hr hs => hk _ (hp result hr hs)⟩
  | dropStudent | updateCourse | http =>
    exact ⟨fun _ _ => trivial, fun _ => trivial, fun _ _ _ _ _ _ => trivial,
      fun _ _ _ _ _ => trivial⟩

/-! ## A registration is safe -/

section Register

variable {s c : Int} {conn conn' : Conn}

/-- A transaction is open and the tables keep the constraints. -/
structure Opened (conn : Conn) : Prop where
  valid : conn.Valid
  saved : ∃ d, conn.saved = some d

theorem Opened.keeps (h : Opened conn) (hk : KeepsRow s c conn conn') : Opened conn' :=
  ⟨hk.valid h.valid, h.saved.imp fun _ hd => hk.saved.trans hd⟩

theorem Opened.begun (h : conn.Valid) : Opened conn.begun :=
  ⟨⟨h.db, fun d hd => by cases hd; exact h.db⟩, _, rfl⟩

theorem Opened.write (h : Opened conn) (now : Int) (w : Write) :
    Opened (conn.write now w).2 :=
  ⟨Conn.exec_valid now (.write w) h.valid, by
    rw [Conn.write_saved]
    exact h.saved⟩

/-- A re-activation that reports a change leaves an active row. -/
theorem hasActive_of_reactivated (now : Int)
    (h : (conn.write now (.reactivateRegistration s c)).2.changes ≠ 0) :
    ∃ id, (conn.write now (.reactivateRegistration s c)).2.db.HasActive s c id := by
  refine Db.exists_hasActive_reactivated (Nat.pos_of_ne_zero fun hzero => h ?_)
  simp [Conn.write, Write.apply, Db.reactivateRegistration_eq, hzero]

/-- An insertion that succeeds leaves an active row with the id that it reports. -/
theorem hasActive_of_inserted (now : Int)
    (h : (conn.write now (.insertRegistration s c)).1 = true) :
    (conn.write now (.insertRegistration s c)).2.db.HasActive s c
      (conn.write now (.insertRegistration s c)).2.lastInsertRowid := by
  simp only [Conn.write, Write.apply] at h ⊢
  cases hi : conn.db.insertRegistration s c with
  | none => simp [hi] at h
  | some a =>
    simp only [Db.insertRegistration] at hi
    split at hi
    · cases hi
      exact ⟨_, List.mem_append_right _ List.mem_cons_self, by simp [RegistrationRow.activePair],
        rfl⟩
    · cases hi

/-- The id that `create` returns is that of an active row. -/
theorem safe_create_report (h : Opened conn) :
    SafeExcept (reportSpec s c).rely (reportSpec s c).guar (fun r conn => Opened conn ∧
      ∀ id, r = .ok id → conn.db.HasActive s c id) (RegistrationRepository.create s c) conn := by
  rw [RegistrationRepository.create, safeExcept_bind, safeExcept_lift, safeSql_stepWrite]
  intro c₁ hk₁ now₁
  refine ⟨trivial, ?_⟩
  have ho₁ := (h.keeps hk₁).write now₁ (.reactivateRegistration s c)
  dsimp only
  rw [safeExcept_bind, safeExcept_lift, safeSql_sql]
  rintro c₂ ⟨hk₂, hchanges⟩ now₂
  have ho₂ := ho₁.keeps hk₂
  refine ⟨trivial, ?_⟩
  dsimp only
  split
  · next hpos =>
    -- nobody raised the number, so the row is the re-activated one
    have hne : (c₁.write now₁ (.reactivateRegistration s c)).2.changes ≠ 0 := fun hzero => by
      have hpos : c₂.changes > 0 := hpos
      rw [hchanges hzero] at hpos
      exact absurd hpos (Int.lt_irrefl 0)
    obtain ⟨id, hid⟩ := hasActive_of_reactivated now₁ hne
    rw [safeExcept_bind, safeExcept_lift, safeSql_select]
    intro c₃ hk₃ now₃
    have ho₃ := ho₂.keeps hk₃
    have hid₃ := hk₃.active id (hk₂.active id hid)
    refine ⟨trivial, ho₃, fun id' hid' => ?_⟩
    simp only [Query.eval, hid₃.find? ho₃.valid.db] at hid'
    cases hid'
    exact hid₃
  · rw [safeExcept_bind, safeExcept_lift, safeSql_stepWrite]
    intro c₃ hk₃ now₃
    have ho₃ := (ho₂.keeps hk₃).write now₃ (.insertRegistration s c)
    refine ⟨trivial, ?_⟩
    dsimp only
    split
    · next hok =>
      rw [safeExcept_lift, safeSql_sql]
      rintro c₄ ⟨hk₄, hrowid⟩ now₄
      refine ⟨trivial, ho₃.keeps hk₄, fun id hid => ?_⟩
      cases hid
      have hactive := hk₄.active _ (hasActive_of_inserted now₃ hok)
      rw [← hrowid] at hactive
      exact hactive
    · exact ⟨ho₃, fun id hid => by cases hid⟩

theorem safe_registerTransaction_report (h : Opened conn) :
    SafeExcept (reportSpec s c).rely (reportSpec s c).guar (fun r conn => Opened conn ∧
      ∀ result, r = .ok result → result.success = true →
        conn.db.HasActive s c result.registrationId)
      (RegistrationService.registerTransaction s c) conn := by
  have hfail : ∀ {conn : Conn} {result : RegistrationResult}, Opened conn →
      result.success = false → Opened conn ∧ ∀ a,
        (.ok result : Except Exn RegistrationResult) = .ok a → a.success = true →
          conn.db.HasActive s c a.registrationId := by
    refine fun ho hno => ⟨ho, ?_⟩
    rintro a ⟨⟩ hs
    rw [hno] at hs
    cases hs
  rw [RegistrationService.registerTransaction, safeExcept_bind, safeExcept_lift,
    safeSql_courseById]
  intro c₁ hk₁
  have ho₁ := h.keeps hk₁
  refine ⟨trivial, ?_⟩
  cases c₁.db.findCourse c with
  | none => exact hfail ho₁ rfl
  | some row =>
    simp only [Option.map_some]
    rw [safeExcept_bind, safeExcept_lift, safeSql_exists']
    intro c₂ hk₂
    have ho₂ := ho₁.keeps hk₂
    refine ⟨trivial, ?_⟩
    dsimp only
    split
    · exact hfail ho₂ rfl
    rw [safeExcept_bind, safeExcept_lift, safeSql_getEnrolledCount]
    intro c₃ hk₃
    have ho₃ := ho₂.keeps hk₃
    refine ⟨trivial, ?_⟩
    dsimp only
    split
    · exact hfail ho₃ rfl
    rw [safeExcept_bind]
    refine SafeExcept.mono (safe_create_report ho₃) ?_
    rintro (e | id) c₄ ⟨ho₄, hid⟩
    · exact ⟨ho₄, fun result hr => by cases hr⟩
    · refine ⟨ho₄, fun result hr _ => ?_⟩
      cases hr
      exact hid id rfl

theorem safe_register_report (h : conn.Valid) :
    (reportSpec s c).Safe (Request.registerStudent s c).body conn := by
  refine safeSql_map.mpr (safeSql_bind.mpr ?_)
  refine SafeSql.mono (?_ : SafeExcept _ _ (fun r conn => conn.Valid ∧ ∀ result, r = .ok result →
    result.success = true → Lasting s c result.registrationId conn) _ _) ?_
  · refine safe_transaction (fun c₁ d err hv _ => ?_) fun c₁ hv _ => ⟨trivial, ?_⟩
    · exact ⟨trivial, hv h, fun result hr => by cases hr⟩
    · refine SafeExcept.mono (safe_registerTransaction_report (Opened.begun (hv h))) ?_
      rintro (e | a) c₂ ⟨ho, hrow⟩ c₃ hk
      · obtain ⟨d, hd⟩ := (ho.keeps hk).saved
        refine ⟨d, hd, trivial, ⟨(ho.keeps hk).valid.saved d hd, fun d hd => by cases hd⟩,
          fun result hr => by cases hr⟩
      · obtain ⟨d, hd⟩ := (ho.keeps hk).saved
        refine ⟨d, hd, trivial, ⟨(ho.keeps hk).valid.db, fun d hd => by cases hd⟩, ?_⟩
        rintro result ⟨⟩ hs
        exact ⟨hk.active _ (hrow a rfl hs), fun d hd => by cases hd⟩
  · rintro (e | a) c₂ ⟨hv, hrow⟩
    · refine ⟨hv, ?_⟩
      rintro result ⟨⟩ hs
      cases hs
    · refine ⟨hv, ?_⟩
      rintro result ⟨⟩ hs
      exact hrow a rfl hs

end Register

/-! ## Runs -/

section Runs

variable [DecidableEq ι] {server server' : Server ι} {i j : ι} {now : Int} {s c : Int}
  {history : List (Happening ι)}

/-- A lasting row survives the step of another thread that does not take it away. -/
theorem Lasting.step {e : Happening ι} (hs : e.before.step e.label = some e.after)
    (hkeep : ¬ e.Loses s c) {id : Int} (h : Lasting s c id e.before.conn) :
    Lasting s c id e.after.conn := by
  rcases Happening.effect hs with ⟨-, hdb, hsaved⟩ | ⟨hw, -, hsaved⟩ | ⟨-, -, hsaved, hnone⟩ |
    ⟨-, -, hdb, hsaved⟩
  · rw [Lasting, hdb, hsaved]
    refine ⟨h.1, ?_⟩
    rintro d ⟨⟩
    exact h.1
  · refine ⟨?_, hsaved ▸ h.2⟩
    obtain ⟨row, hmem, hactive, rfl⟩ := h.1
    exact Classical.byContradiction fun hno => hkeep ⟨hw, row, hmem, hactive, hno⟩
  · refine ⟨h.2 _ hsaved, fun d hd => ?_⟩
    rw [hnone] at hd
    cases hd
  · rw [Lasting, hdb]
    exact ⟨h.1, fun d hd => h.2 d (hsaved d hd)⟩

/-- The step of a thread leaves the open transaction of another thread alone. -/
theorem Server.saved_of_owner {o : Option ι} (ho : server.conn.saved.isSome = o.isSome)
    (hin : ∀ k, (server.threads k).phase.Inside (o = some k)) (hj : o = some j) (hji : j ≠ i)
    (hs : server.step (i, now) = some server') : server'.conn.saved = server.conn.saved := by
  subst hj
  obtain ⟨d, hd⟩ := Option.isSome_iff_exists.mp (ho.trans rfl)
  have hi := hin i
  rw [decide_eq_false (by simpa using hji)] at hi
  have hconn := Server.step_conn hs
  cases hnext : server.nextCall i with
  | none =>
    rw [hnext] at hconn
    rw [hconn]
  | some e =>
    obtain ⟨β, e⟩ := e
    rw [hnext] at hconn
    obtain ⟨r, held, next, hp⟩ := Phase.exists_of_nextCall hnext
    rw [hp] at hi
    rw [hconn, hd]
    exact (Bracketed.exec_other hi hd now).1

/-- A step that neither takes the row of a registration away nor disturbs what it is about to
read is tolerated by it. -/
theorem Server.Owned.tolerates_report (h : server.Owned) (hv : server'.conn.Valid)
    (hs : server.step (i, now) = some server') (hji : j ≠ i)
    (hkept : CountersKept ⟨server, (i, now), server'⟩)
    (hcritical : (server.threads j).phase.critical = some (.registerStudent s c))
    (hkeep : ¬ Happening.Loses s c ⟨server, (i, now), server'⟩) :
    (server.threads j).phase.Tolerates reportedSpec server.conn server'.conn := by
  have hdone : (reportSpec s c).done server.conn server'.conn :=
    ⟨fun _ => hv, fun id => Lasting.step hs hkeep⟩
  obtain ⟨o, ho, hin⟩ := h
  have hj := hin j
  obtain ⟨hchanges, hrowid⟩ := hkept j hji
  cases hphase : (server.threads j).phase with
  | idle | find | emplace | lock => rw [hphase] at hcritical; cases hcritical
  | unlock r m reply =>
    rw [hphase] at hcritical
    cases hcritical
    exact hdone
  | body r held rest =>
    rw [hphase] at hcritical hj hchanges hrowid
    cases hcritical
    -- past its `BEGIN`, the registration owns the transaction
    have hrow : decide (o = some j) = true → KeepsRow s c server.conn server'.conn := by
      intro hown
      have hown := of_decide_eq_true hown
      have hsaved := Server.saved_of_owner ho hin hown hji hs
      refine ⟨fun _ => hv, hsaved, fun id hid => ?_⟩
      obtain ⟨d, hd⟩ := Option.isSome_iff_exists.mp (ho.trans (by rw [hown]; rfl))
      rcases Happening.effect (e := ⟨server, (i, now), server'⟩) hs with
        ⟨-, hdb, -⟩ | ⟨hw, -, -⟩ | ⟨-, -, -, hnone⟩ | ⟨-, -, hdb, -⟩
      · exact hdb.symm ▸ hid
      · obtain ⟨row, hmem, hactive, rfl⟩ := hid
        exact Classical.byContradiction fun hno => hkeep ⟨hw, row, hmem, hactive, hno⟩
      · exact absurd ((hnone.symm.trans hsaved).trans hd) (by simp)
      · exact hdb.symm ▸ hid
    cases rest with
    | ret reply => exact hdone
    | call e next =>
      cases e with
      | beginImmediate => exact fun _ => hv
      | commit | rollback => exact hrow hj.1
      | query | write => exact hrow (hj.1 rfl)
      | changes => exact ⟨hrow (hj.1 rfl), hchanges rfl⟩
      | lastInsertRowid => exact ⟨hrow (hj.1 rfl), hrowid rfl⟩

/-- What holds in every run: a registration is safe where it is or its row has been taken
away. -/
structure ReportInv (history : List (Happening ι)) (server : Server ι) : Prop where
  owned : server.Owned
  valid : server.conn.Valid
  safe : ∀ j s c, (server.threads j).phase.critical = some (.registerStudent s c) →
    LostDuring history server j s c ∨ (server.threads j).phase.SafeAt reportedSpec server.conn

omit [DecidableEq ι] in
theorem LostDuring.step (h : LostDuring history server j s c) (e : Happening ι)
    (hf : (server'.threads j).finished = (server.threads j).finished) :
    LostDuring (e :: history) server' j s c := by
  obtain ⟨f, hmem, hne, hcritical, hlength, hloses⟩ := h
  exact ⟨f, List.mem_cons_of_mem _ hmem, hne, hcritical, by rw [hlength, hf], hloses⟩

/-- A thread that moves into or within its critical section. -/
theorem ReportInv.mover (h : ReportInv history server) (hm : Server.Moves server i now server')
    (e : Happening ι)
    (hcritical : (server'.threads i).phase.critical = some (.registerStudent s c)) :
    LostDuring (e :: history) server' i s c ∨
      (server'.threads i).phase.SafeAt reportedSpec server'.conn := by
  have hold := h.safe i s c
  have hlawful : ∀ r, (reportedSpec r).Lawful := reportedSpec_lawful
  have hsafe := fun hsafe => Server.safeAt_mover hlawful hsafe
    (fun r _ => ?_) hm
  · cases hm with
    | start hp ht =>
      rw [Server.setThread_self] at hcritical
      unfold Request.enter at hcritical
      split at hcritical <;> cases hcritical
      next hnone => cases hnone
    | found | missing | create => rw [Server.setPhase_self] at hcritical; cases hcritical
    | done | release => rw [Server.finish_self] at hcritical; cases hcritical
    | acquire hp ho =>
      rw [hp] at hsafe
      exact Or.inr (hsafe trivial)
    | call hp | leave hp =>
      rw [Server.setPhase_self] at hcritical
      rw [hp] at hold hsafe
      cases hcritical
      exact (hold rfl).imp (fun hl => hl.step e (by rw [Server.setPhase_self])) hsafe
  · cases r with
    | registerStudent s c => exact safe_register_report h.valid
    | dropStudent | updateCourse | http =>
      exact Prog.safe_of_forall (fun _ _ _ => trivial) (fun _ _ => trivial) _ _

theorem ReportInv.start {conn : Conn} (hs : conn.saved = none) (hv : conn.db.Valid)
    (todo : ι → List Request) : ReportInv [] (Server.start conn todo) where
  owned := .start hs todo
  valid := ⟨hv, fun d hd => by rw [show conn.saved = some d from hd] at hs; cases hs⟩
  safe := fun j s c hcritical => by cases hcritical

theorem ReportInv.step (h : ReportInv history server)
    (hs : server.step (i, now) = some server')
    (hkept : CountersKept ⟨server, (i, now), server'⟩) :
    ReportInv (⟨server, (i, now), server'⟩ :: history) server' := by
  have hm := Server.step_moves hs
  have hv : server'.conn.Valid := by
    rw [Server.step_conn hs]
    split
    · exact Conn.exec_valid now _ h.valid
    · exact h.valid
  refine ⟨h.owned.moves hm, hv, fun j s c hcritical => ?_⟩
  by_cases hji : j = i
  · subst hji
    exact h.mover hm _ hcritical
  · rw [hm.threads_ne hji] at hcritical ⊢
    obtain hlost | hsafe := h.safe j s c hcritical
    · exact Or.inl (hlost.step _ (by rw [hm.threads_ne hji]))
    · by_cases hloses : Happening.Loses s c ⟨server, (i, now), server'⟩
      · exact Or.inl ⟨_, List.mem_cons_self, Ne.symm hji, hcritical,
          by rw [hm.threads_ne hji], hloses⟩
      · exact Or.inr (hsafe.interfere reportedSpec_lawful
          (h.owned.tolerates_report hv hs hji hkept hcritical hloses))

theorem ReportInv.of_run {s₀ : Server ι} (h₀ : ReportInv [] s₀) (hr : s₀.Runs history server)
    (hok : ∀ e ∈ history, CountersKept e) : ReportInv history server := by
  induction hr with
  | start => exact h₀
  | @snoc history server server' l hr hs ih =>
    obtain ⟨i, now⟩ := l
    exact (ih fun e he => hok e (List.mem_cons_of_mem _ he)).step hs (hok _ List.mem_cons_self)

/-- A registration that is safe where it answers success has its row. -/
theorem ReportInv.real (h : ReportInv history server) : RegistrationsReal history server := by
  intro j s c m result hphase hsuccess
  have hsafe := h.safe j s c
  rw [hphase] at hsafe
  obtain hlost | ⟨hv, hpost⟩ := hsafe rfl
  · exact Or.inr hlost
  · have hactive := (hpost result rfl hsuccess).1
    exact Or.inl ⟨hactive.ne_zero hv.db, hactive⟩

end Runs

/-! ## An update between a re-activation and its count -/

/-- A registration, and an update of another course by an administrator. -/
def registrationDuringUpdate : Fin 2 → List Request
  | 0 => [.registerStudent 5 7]
  | 1 => [.updateCourse { id := 1, courseName := "Operating Systems", credits := 4,
                          facultyId := 2, capacity := 60 } admin]

/-- The two requests on the seeded database under a schedule. -/
def registrationDuringUpdateRun (schedule : List (Fin 2 × Int)) :
    Option (List (Happening (Fin 2)) × Server (Fin 2)) :=
  replay Server.step [] (Server.start (startup true) registrationDuringUpdate) schedule

/-- In every run in which nobody overwrites what a registration is about to read from the
connection, every registration that answers success has the row that it reports. -/
theorem registrations_real {ι : Type} [DecidableEq ι] {conn : Conn} {todo : ι → List Request}
    (hs : conn.saved = none) (hv : conn.db.Valid) {server : Server ι}
    {history : List (Happening ι)} (hr : (Server.start conn todo).Runs history server)
    (hok : ∀ e ∈ history, CountersKept e) : RegistrationsReal history server :=
  ((ReportInv.start hs hv todo).of_run hr hok).real

/-- With the update before the registration, the registration reports its row. -/
theorem registrations_real_updateFirst : ∃ history server,
    registrationDuringUpdateRun (List.replicate 5 (1, 0) ++ List.replicate 14 (0, 0)) =
      some (history, server) ∧ RegistrationsReal history server := by
  have hrun : ((registrationDuringUpdateRun (List.replicate 5 (1, 0) ++
      List.replicate 14 (0, 0))).map fun out => decide (∀ e ∈ out.1, CountersKept e)) =
        some true := by decide +kernel
  obtain ⟨⟨history, server⟩, hout, hcheck⟩ := Option.map_eq_some_iff.mp hrun
  have hsound := startup_sound true
  exact ⟨history, server, hout, registrations_real hsound.idle hsound.valid
    (replay_run .start hout) (of_decide_eq_true hcheck)⟩

/-- Thread 0 is about to report success without an id, and the pair 5, 7 never had an active
row. -/
def reportedWithoutRow (history : List (Happening (Fin 2))) (server : Server (Fin 2)) : Bool :=
  (match (server.threads ⟨0, Nat.two_pos⟩).phase with
    | .unlock (.registerStudent 5 7) _ (.registration result) =>
      result.success && result.registrationId = 0
    | _ => false) &&
  history.all fun e => e.before.conn.db.registrations.all fun row => !row.activePair 5 7

theorem not_registrationsReal {history : List (Happening (Fin 2))} {server : Server (Fin 2)}
    (h : reportedWithoutRow history server = true) : ¬ RegistrationsReal history server := by
  intro hreal
  simp only [reportedWithoutRow, Bool.and_eq_true, List.all_eq_true] at h
  obtain ⟨hreport, hnever⟩ := h
  split at hreport
  · next m result hphase =>
    simp only [Bool.and_eq_true, decide_eq_true_eq] at hreport
    obtain ⟨hne, -⟩ | hlost := hreal 0 5 7 m result hphase hreport.1
    · exact hne hreport.2
    · obtain ⟨f, hf, -, -, -, -, row, hmem, hactive, -⟩ := hlost
      have := hnever f hf row hmem
      simp [hactive] at this
  · cases hreport

/-- The update between the re-activation, which matches no row, and `changes` makes the
registration skip its `INSERT` and report success with the id 0. -/
theorem update_fakes_registration :
    ¬ ∀ (conn : Conn) (todo : Fin 2 → List Request) history server, conn.saved = none →
      conn.db.Valid → (Server.start conn todo).Runs history server →
        RegistrationsReal history server := by
  intro h
  have hrun : ((registrationDuringUpdateRun (List.replicate 9 (0, 0) ++ List.replicate 5 (1, 0) ++
      List.replicate 4 (0, 0))).map fun out => reportedWithoutRow out.1 out.2) = some true := by
    decide +kernel
  obtain ⟨⟨history, server⟩, hout, hcheck⟩ := Option.map_eq_some_iff.mp hrun
  have hsound := startup_sound true
  exact not_registrationsReal hcheck
    (h _ _ history server hsound.idle hsound.valid (replay_run .start hout))

end AcademiaCr.Backend
