import AcademiaCr.Backend.Registration

/-!
# Programs under interference

Rely/guarantee rules for the connection. They compute, for the building blocks of the
repositories and services, what has to hold for a program to be safe when other threads act
between its calls.

## Main definitions

- `SafeSql`, `SafeExcept`: safety of programs that cannot throw, and of those that can
- `safe_transaction`: the rule of `Database::transaction`
-/

namespace AcademiaCr.Backend

open Resumption

/-- What may happen to the connection around a call. -/
abbrev CallRel := ∀ {β : Type}, SqlCall β → Conn → Conn → Prop

section Rules

variable (rely guar : CallRel) {α β : Type}

/-- Safety of a program on the connection, at any times. -/
def SafeSql (post : α → Conn → Prop) (p : Sql α) (conn : Conn) : Prop :=
  p.Safe (fun now => Conn.exec now) rely guar post conn

def SafeExcept (post : Except Exn α → Conn → Prop) (p : SqlExcept α) (conn : Conn) : Prop :=
  SafeSql rely guar post p.run conn

variable {rely guar}

@[simp] theorem safeSql_ret {post : α → Conn → Prop} {a : α} {conn : Conn} :
    SafeSql rely guar post (.ret a) conn ↔ post a conn := Iff.rfl

@[simp] theorem safeSql_pure {post : α → Conn → Prop} {a : α} {conn : Conn} :
    SafeSql rely guar post (pure a) conn ↔ post a conn := Iff.rfl

theorem safeSql_bind {post : β → Conn → Prop} {p : Sql α} {f : α → Sql β} {conn : Conn} :
    SafeSql rely guar post (p >>= f) conn ↔
      SafeSql rely guar (fun a conn => SafeSql rely guar post (f a) conn) p conn :=
  Prog.safe_bind post p f conn

theorem safeSql_map {post : β → Conn → Prop} {p : Sql α} {f : α → β} {conn : Conn} :
    SafeSql rely guar post (f <$> p) conn ↔
      SafeSql rely guar (fun a conn => post (f a) conn) p conn :=
  Prog.safe_bind post p (fun a => .ret (f a)) conn

theorem safeSql_sql {post : α → Conn → Prop} {e : SqlCall α} {conn : Conn} :
    SafeSql rely guar post (sql e) conn ↔ ∀ conn', rely e conn conn' → ∀ now,
      guar e conn' (conn'.exec now e).2 ∧ post (conn'.exec now e).1 (conn'.exec now e).2 :=
  Iff.rfl

theorem safeSql_select {post : α → Conn → Prop} {q : Query α} {conn : Conn} :
    SafeSql rely guar post (select q) conn ↔ ∀ conn', rely (.query q) conn conn' → ∀ now,
      guar (.query q) conn' conn' ∧ post (q.eval now conn'.db) conn' := Iff.rfl

theorem safeSql_stepWrite {post : Bool → Conn → Prop} {w : Write} {conn : Conn} :
    SafeSql rely guar post (stepWrite w) conn ↔ ∀ conn', rely (.write w) conn conn' → ∀ now,
      guar (.write w) conn' (conn'.write now w).2 ∧
        post (conn'.write now w).1 (conn'.write now w).2 := Iff.rfl

theorem SafeSql.mono {post post' : α → Conn → Prop} {p : Sql α} {conn : Conn}
    (h : SafeSql rely guar post p conn) (hpost : ∀ a conn, post a conn → post' a conn) :
    SafeSql rely guar post' p conn := Prog.Safe.mono h hpost

theorem safeSql_courseById {post : Option Course → Conn → Prop} {id : Int} {conn : Conn} :
    SafeSql rely guar post (CourseRepository.findById id) conn ↔
      ∀ conn', rely (.query (.courseById id)) conn conn' →
        guar (.query (.courseById id)) conn' conn' ∧
          post ((conn'.db.findCourse id).map fun row => rowToCourse (conn'.db.join row)) conn' := by
  have hmap : ∀ conn' : Conn, ((conn'.db.findCourse id).map conn'.db.join).map rowToCourse =
      (conn'.db.findCourse id).map fun row => rowToCourse (conn'.db.join row) :=
    fun _ => Option.map_map ..
  simp only [CourseRepository.findById, safeSql_bind, safeSql_select, Query.eval, safeSql_pure,
    hmap, forall_const]

theorem safeSql_exists' {post : Bool → Conn → Prop} {s c : Int} {conn : Conn} :
    SafeSql rely guar post (RegistrationRepository.exists' s c) conn ↔
      ∀ conn', rely (.query (.registrationExists s c)) conn conn' →
        guar (.query (.registrationExists s c)) conn' conn' ∧
          post (conn'.db.enrolledIn s c) conn' := by
  have hpos : ∀ conn' : Conn, decide
      (((conn'.db.registrations.countP (RegistrationRow.activePair s c) : Nat) : Int) > 0) =
        conn'.db.enrolledIn s c := fun _ => by simp [Db.enrolledIn]
  refine ⟨fun h conn' hr => ?_, fun h conn' hr _ => ?_⟩
  · rw [← hpos]
    exact h conn' hr 0
  · have hc := h conn' hr
    rw [← hpos] at hc
    exact hc

theorem safeSql_getEnrolledCount {post : Int → Conn → Prop} {c : Int} {conn : Conn} :
    SafeSql rely guar post (CourseRepository.getEnrolledCount c) conn ↔
      ∀ conn', rely (.query (.enrolledCount c)) conn conn' →
        guar (.query (.enrolledCount c)) conn' conn' ∧ post (conn'.db.active c) conn' := by
  simp only [CourseRepository.getEnrolledCount, safeSql_select, Query.eval, forall_const]

@[simp] theorem safeExcept_pure {post : Except Exn α → Conn → Prop} {a : α} {conn : Conn} :
    SafeExcept rely guar post (pure a) conn ↔ post (.ok a) conn := Iff.rfl

@[simp] theorem safeExcept_throw {post : Except Exn α → Conn → Prop} {e : Exn} {conn : Conn} :
    SafeExcept rely guar post (throw e) conn ↔ post (.error e) conn := Iff.rfl

theorem safeExcept_lift {post : Except Exn α → Conn → Prop} {p : Sql α} {conn : Conn} :
    SafeExcept rely guar post (liftM p) conn ↔
      SafeSql rely guar (fun a conn => post (.ok a) conn) p conn :=
  Prog.safe_bind post p (fun a => .ret (.ok a)) conn

theorem safeExcept_bind {post : Except Exn β → Conn → Prop} {p : SqlExcept α}
    {f : α → SqlExcept β} {conn : Conn} :
    SafeExcept rely guar post (p >>= f) conn ↔
      SafeExcept rely guar (fun
        | .ok a, conn => SafeExcept rely guar post (f a) conn
        | .error e, conn => post (.error e) conn) p conn := by
  rw [SafeExcept, ExceptT.run_bind, safeSql_bind, SafeExcept]
  refine iff_of_eq (congrArg (fun q => SafeSql rely guar q p.run conn) ?_)
  funext r conn
  cases r <;> rfl

theorem SafeExcept.mono {post post' : Except Exn α → Conn → Prop} {p : SqlExcept α} {conn : Conn}
    (h : SafeExcept rely guar post p conn) (hpost : ∀ a conn, post a conn → post' a conn) :
    SafeExcept rely guar post' p conn := Prog.Safe.mono h hpost

/-- The rule of `transaction`. It assumes of the function that it ends with a transaction
open, and may assume that it starts with one. -/
theorem safe_transaction {post : Except Exn α → Conn → Prop} {func : SqlExcept α} {conn : Conn}
    (hbusy : ∀ conn' d err, rely .beginImmediate conn conn' → conn'.saved = some d →
      guar .beginImmediate conn' conn' ∧ post (.error err) conn')
    (hbody : ∀ conn', rely .beginImmediate conn conn' → conn'.saved = none →
      guar .beginImmediate conn' conn'.begun ∧ SafeExcept rely guar (fun
        | .ok a, c => ∀ c', rely .commit c c' → ∃ d, c'.saved = some d ∧
            guar .commit c' { c' with saved := none } ∧ post (.ok a) { c' with saved := none }
        | .error e, c => ∀ c', rely .rollback c c' → ∃ d, c'.saved = some d ∧
            guar .rollback c' { c' with db := d, saved := none } ∧
            post (.error e) { c' with db := d, saved := none }) func conn'.begun) :
    SafeExcept rely guar post (Database.transaction func) conn := by
  intro conn' hrely now
  cases hs : conn'.saved with
  | some d =>
    obtain ⟨hg, hp⟩ := hbusy conn' d _ hrely hs
    simp only [Conn.exec, hs]
    exact ⟨hg, hp⟩
  | none =>
    obtain ⟨hg, hfunc⟩ := hbody conn' hrely hs
    simp only [Conn.exec, hs]
    refine ⟨hg, ?_⟩
    show SafeExcept rely guar post (tryCatch
      (do
        let result ← func
        Database.commit
        return result)
      (fun e => do
        Database.rollback
        throw e) : SqlExcept α) conn'.begun
    rw [SafeExcept, ExceptT.run_tryCatch, ExceptT.run_bind, bind_assoc, safeSql_bind]
    refine SafeSql.mono hfunc ?_
    rintro (e | a) c hc c' hrely' now'
    · obtain ⟨d, hd, hg', hp⟩ := hc c' hrely'
      simp only [Conn.exec, hd]
      exact ⟨hg', hp⟩
    · obtain ⟨d, hd, hg', hp⟩ := hc c' hrely'
      simp only [Conn.exec, hd]
      exact ⟨hg', hp⟩

end Rules

end AcademiaCr.Backend
