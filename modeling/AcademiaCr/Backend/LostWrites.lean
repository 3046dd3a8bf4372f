import AcademiaCr.Backend.SequentialRuns
import AcademiaCr.Backend.Traces

/-!
# Writes that a rollback undoes

A `ROLLBACK` restores all tables, whoever wrote to them since the `BEGIN`. A write of a
request without a transaction of its own survives every run in which no rollback undoes such
a write, and only the last write to a row decides about the row.

## Main definitions

- `RowKey`, `Db.row`: rows by table and primary key
- `Survives`: what a write did to the rows is there, or a later write changed the row
- `RollbacksOwn`: no rollback undoes a write of a request without a transaction
-/

namespace AcademiaCr.Backend

open Resumption Transition

/-- The primary key of a row of some table. -/
inductive RowKey where
  | user (id : Int)
  | course (id : Int)
  | registration (id : Int)
  | session (token : String)

inductive Row where
  | user (row : UserRow)
  | course (row : CourseRow)
  | registration (row : RegistrationRow)
  | session (row : SessionRow)
  deriving DecidableEq

/-- The row that a key identifies. -/
def Db.row (db : Db) : RowKey → Option Row
  | .user id => (db.users.find? (·.id = id)).map .user
  | .course id => (db.courses.find? (·.id = id)).map .course
  | .registration id => (db.registrations.find? (·.id = id)).map .registration
  | .session token => (db.sessions.find? (·.token = token)).map .session

/-- What a request tells its client. -/
def Reply.success : Reply → Bool
  | registration result => result.success
  | course result => result.success
  | http (.ok response) => response.status < 400
  | http (.error _) => false

namespace Happening

variable {ι : Type}

/-- The step changes the row. -/
def Touches (e : Happening ι) (key : RowKey) : Prop :=
  e.before.conn.db.row key ≠ e.after.conn.db.row key

instance (e : Happening ι) (key : RowKey) : Decidable (e.Touches key) :=
  inferInstanceAs (Decidable (_ ≠ _))

/-- The request that made the step has reported success in the given state. -/
def reported (e : Happening ι) (s : Server ι) : Bool :=
  ((s.threads e.thread).finished.reverse[(e.before.threads e.thread).finished.length]?).any
    fun answered => answered.2.success

end Happening

section

variable {ι : Type}

/-- The row is as one of the given writes to it has left it. -/
def LeftBy (writes : List (Happening ι)) (db : Db) (key : RowKey) : Prop :=
  ∃ f ∈ writes, f.writes = true ∧ f.Touches key ∧ db.row key = f.after.conn.db.row key

/-- Every row that the write changed is as it, or a later write, has left it. -/
def Survives (e : Happening ι) (later : List (Happening ι)) (db : Db) : Prop :=
  ∀ key, e.Touches key → LeftBy (later ++ [e]) db key

/-- Every write of a request without a transaction that reported success is in effect. -/
def WritesSurvive (history : List (Happening ι)) (s : Server ι) : Prop :=
  ∀ later e past, history = later ++ e :: past → e.writesPlain = true → e.reported s = true →
    Survives e later s.conn.db

/-- No rollback undoes a change that a request without a transaction made after the
`BEGIN`. -/
def RollbacksOwn : List (Happening ι) → Prop
  | [] => True
  | e :: past =>
    (e.rollsBack = true → ∀ f ∈ past.takeWhile (fun f => !f.begins), f.writesPlain = true →
      f.before.conn.db = f.after.conn.db) ∧ RollbacksOwn past

instance RollbacksOwn.decide : (history : List (Happening ι)) → Decidable (RollbacksOwn history)
  | [] => .isTrue trivial
  | _ :: past =>
    have := RollbacksOwn.decide past
    inferInstanceAs (Decidable (_ ∧ _))

/-! ## The invariant -/

/-- What is known of an earlier write: its rows are in effect and, if a transaction began
since, a rollback of the open one would keep them in effect. -/
structure Kept (e : Happening ι) (later : List (Happening ι)) (s : Server ι) : Prop where
  now : Survives e later s.conn.db
  restored : (∃ b ∈ later, b.begins = true) → ∀ d, s.conn.saved = some d → Survives e later d

theorem LeftBy.mono {writes writes' : List (Happening ι)} {db : Db} {key : RowKey}
    (h : LeftBy writes db key) (hsub : writes ⊆ writes') : LeftBy writes' db key := by
  obtain ⟨f, hf, hw, ht, hrow⟩ := h
  exact ⟨f, hsub hf, hw, ht, hrow⟩

theorem Survives.later {e g : Happening ι} {later : List (Happening ι)} {db : Db}
    (h : Survives e later db) : Survives e (g :: later) db :=
  fun key ht => (h key ht).mono (List.subset_cons_self _ _)

/-- A further write decides about the rows it touches and leaves the others. -/
theorem Survives.write {e g : Happening ι} {later : List (Happening ι)} (hg : g.writes = true)
    (h : Survives e later g.before.conn.db) : Survives e (g :: later) g.after.conn.db := by
  intro key ht
  by_cases htouch : g.Touches key
  · exact ⟨g, by simp, hg, htouch, rfl⟩
  · have hsame : g.before.conn.db.row key = g.after.conn.db.row key := not_not.mp htouch
    obtain ⟨f, hf, hw, hft, hrow⟩ := h key ht
    exact ⟨f, List.mem_cons_of_mem _ hf, hw, hft, hsame ▸ hrow⟩

/-- A write that touches nothing is always in effect. -/
theorem Survives.of_eq {e : Happening ι} (h : e.before.conn.db = e.after.conn.db)
    (later : List (Happening ι)) (db : Db) : Survives e later db := by
  intro key ht
  exact (ht (congrArg (fun db : Db => db.row key) h)).elim

/-- Splitting a history at a step that is not the latest one. -/
theorem split_cons {g e : Happening ι} {history later past : List (Happening ι)}
    (h : g :: history = later ++ e :: past) :
    (later = [] ∧ g = e ∧ history = past) ∨
      ∃ later', later = g :: later' ∧ history = later' ++ e :: past := by
  cases later with
  | nil => exact Or.inl ⟨rfl, List.cons.inj h⟩
  | cons x later' =>
    obtain ⟨rfl, hrest⟩ := List.cons.inj h
    exact Or.inr ⟨later', rfl, hrest⟩

theorem begins_of_writes {e : Happening ι} (h : e.writes = true) : e.begins = false := by
  simp only [Happening.writes] at h
  simp only [Happening.begins]
  split at h
  · next hcall => rw [hcall]
  · cases h

/-- A write with no `BEGIN` after it belongs to the open transaction, if there is one. -/
theorem mem_takeWhile_of_split {e : Happening ι} {later past : List (Happening ι)}
    (hlater : ¬ ∃ b ∈ later, b.begins = true) (he : e.begins = false) :
    e ∈ (later ++ e :: past).takeWhile fun f => !f.begins := by
  rw [List.takeWhile_append_of_pos fun b hb => by
    simpa using fun h => hlater ⟨b, hb, h⟩]
  exact List.mem_append_right _ (by simp [he])

variable [DecidableEq ι] {s₀ : Server ι}

/-- Along a run whose rollbacks undo no write of a request without a transaction, every such
write is kept. -/
theorem kept_of_run {history : List (Happening ι)} {s : Server ι} (hr : s₀.Runs history s)
    (hown : RollbacksOwn history) : ∀ later e past, history = later ++ e :: past →
      e.writesPlain = true → Kept e later s := by
  induction hr with
  | start => simp
  | @snoc history s s' l hr hs ih =>
    intro later e past hsplit hplain
    have heffect := Happening.effect (e := ⟨s, l, s'⟩) hs
    obtain ⟨rfl, rfl, rfl⟩ | ⟨later', rfl, hsplit'⟩ := split_cons hsplit
    · -- the write itself
      have hw : Happening.writes (⟨s, l, s'⟩ : Happening ι) = true := by
        simp only [Happening.writesPlain, Bool.and_eq_true] at hplain
        exact hplain.1
      exact ⟨fun key ht => ⟨_, List.mem_append_right _ List.mem_cons_self, hw, ht, rfl⟩,
        fun ⟨b, hb, _⟩ => by cases hb⟩
    · have hkept := ih hown.2 later' e past hsplit' hplain
      rcases heffect with ⟨hbegin, hdb, hsaved⟩ | ⟨hw, hbegin, hsaved⟩ |
        ⟨hback, hbegin, hsaved, hnone⟩ | ⟨hw, hbegin, hdb, hsaved⟩
      · -- a `BEGIN` saves tables in which the write is in effect
        refine ⟨hdb ▸ hkept.now.later, fun _ d hd => ?_⟩
        rw [hsaved] at hd
        cases hd
        exact hkept.now.later
      · refine ⟨hkept.now.write hw, fun ⟨b, hb, hbb⟩ d hd => ?_⟩
        obtain rfl | hb := List.mem_cons.mp hb
        · rw [hbegin] at hbb
          cases hbb
        · exact (hkept.restored ⟨b, hb, hbb⟩ d (hsaved ▸ hd)).later
      · refine ⟨?_, fun _ d hd => by rw [hnone] at hd; cases hd⟩
        by_cases hsince : ∃ b ∈ later', b.begins = true
        · exact (hkept.restored hsince _ hsaved).later
        · -- the write is part of the transaction, so it changed nothing
          have hwrites : e.writes = true := by
            simp only [Happening.writesPlain, Bool.and_eq_true] at hplain
            exact hplain.1
          refine Survives.of_eq (hown.1 hback e ?_ hplain) _ _
          rw [hsplit']
          exact mem_takeWhile_of_split hsince (begins_of_writes hwrites)
      · refine ⟨hdb ▸ hkept.now.later, fun ⟨b, hb, hbb⟩ d hd => ?_⟩
        obtain rfl | hb := List.mem_cons.mp hb
        · rw [hbegin] at hbb
          cases hbb
        · exact (hkept.restored ⟨b, hb, hbb⟩ d (hsaved d hd)).later

end

/-! ## Runs with a failing registration -/

/-- The seeded database after `alex.kim` (user 9) was deleted. -/
def studentGone : Conn := ((startup true).run 0 (UserRepository.remove 9)).2

def admin : User := { id := 1, username := "admin", role := .admin, name := "System Administrator" }

/-- A registration of the deleted student, and an update of course 1 by an administrator. -/
def failingRegistration : Fin 2 → List Request
  | 0 => [.registerStudent 9 8]
  | 1 => [.updateCourse { id := 1, courseName := "Operating Systems", credits := 4,
                          facultyId := 2, capacity := 60 } admin]

/-- The update runs between the `BEGIN` and the `ROLLBACK` of the registration. -/
def updateInside : List (Fin 2 × Int) :=
  List.replicate 5 (0, 0) ++ List.replicate 5 (1, 0) ++ List.replicate 9 (0, 0)

/-- The run of the two requests under a schedule. -/
def registrationAndUpdate (schedule : List (Fin 2 × Int)) :
    Option (List (Happening (Fin 2)) × Server (Fin 2)) :=
  replay Server.step [] (Server.start studentGone failingRegistration) schedule

/-- In every run whose rollbacks undo no write of a request without a transaction, every
such write that was reported as a success is in effect. -/
theorem writes_survive {ι : Type} [DecidableEq ι] {s₀ s : Server ι}
    {history : List (Happening ι)} (hr : s₀.Runs history s) (hown : RollbacksOwn history) :
    WritesSurvive history s :=
  fun later e past hsplit hplain _ => (kept_of_run hr hown later e past hsplit hplain).now

/-- With the update after the registration, what it reported is in effect. -/
theorem writes_survive_updateAfter : ∃ history s,
    registrationAndUpdate (List.replicate 14 (0, 0) ++ List.replicate 5 (1, 0)) =
      some (history, s) ∧ WritesSurvive history s := by
  have hrun : ((registrationAndUpdate (List.replicate 14 (0, 0) ++ List.replicate 5 (1, 0))).map
      fun out => decide (RollbacksOwn out.1)) = some true := by decide +kernel
  obtain ⟨⟨history, s⟩, hout, hcheck⟩ := Option.map_eq_some_iff.mp hrun
  exact ⟨history, s, hout, writes_survive (replay_run .start hout) (of_decide_eq_true hcheck)⟩

/-- The write is not in effect: neither it nor a later one has left the row as it is. -/
def lostAt (history : List (Happening (Fin 2))) (s : Server (Fin 2)) (key : RowKey) (k : Nat) :
    Bool :=
  match history[k]? with
  | none => false
  | some e => e.writesPlain && e.reported s && decide (e.Touches key) &&
      (history.take k ++ [e]).all fun f =>
        !(f.writes && decide (f.Touches key) && s.conn.db.row key == f.after.conn.db.row key)

theorem not_writesSurvive_of_lostAt {history : List (Happening (Fin 2))} {s : Server (Fin 2)}
    {key : RowKey} {k : Nat} (h : lostAt history s key k = true) : ¬ WritesSurvive history s := by
  intro hsurvive
  unfold lostAt at h
  split at h
  · cases h
  · next e he =>
    simp only [Bool.and_eq_true, decide_eq_true_eq, List.all_eq_true] at h
    obtain ⟨⟨⟨hplain, hreported⟩, htouch⟩, hlost⟩ := h
    have hsplit : history = history.take k ++ e :: history.drop (k + 1) := by
      obtain ⟨hlt, hget⟩ := List.getElem?_eq_some_iff.mp he
      rw [← hget, List.cons_getElem_drop_succ, List.take_append_drop]
    obtain ⟨f, hf, hw, hft, hrow⟩ := hsurvive _ e _ hsplit hplain hreported key htouch
    have := hlost f hf
    simp [hw, hft, hrow] at this

/-- An update of course 1 that reported success is gone after all calls have finished. -/
theorem rollback_loses_update :
    ¬ ∀ (conn : Conn) (todo : Fin 2 → List Request) history s, conn.saved = none →
      conn.db.Valid → (Server.start conn todo).Runs history s → s.AllDone →
        WritesSurvive history s := by
  intro h
  have hrun : ((registrationAndUpdate updateInside).map fun out =>
      decide out.2.AllDone && lostAt out.1 out.2 (.course 1) 10) = some true := by decide +kernel
  obtain ⟨⟨history, s⟩, hout, hcheck⟩ := Option.map_eq_some_iff.mp hrun
  simp only [Bool.and_eq_true, decide_eq_true_eq] at hcheck
  have hvalid : studentGone.db.Valid := (Conn.run_valid _ (startup_sound true).connValid).db
  exact not_writesSurvive_of_lostAt hcheck.2
    (h studentGone failingRegistration history s (by decide +kernel) hvalid
      (replay_run .start hout) hcheck.1)

end AcademiaCr.Backend
