import AcademiaCr.Backend.Locks
import AcademiaCr.Backend.Registration

/-!
# Who owns the open transaction

Every request brackets its statements properly: it commits or rolls back the transaction
it began and no other. While a transaction is open, therefore, exactly one thread is inside
its brackets, and no other thread can close it.

## Main definitions

- `Bracketed`: the proper use of transactions by a program
- `Server.Owned`: a transaction is open if and only if one thread is inside its brackets
-/

namespace AcademiaCr.Backend

open Resumption

/-- A program that is inside a transaction of its own (`true`) or not (`false`) closes what
it opens, opens nothing twice and closes nothing else. A confined one makes no other calls
outside of it. A failed `BEGIN` opens nothing; a failed `COMMIT` or `ROLLBACK` is not
considered, since it fails only without a transaction. -/
def Bracketed {α : Type} (confined : Bool) : Bool → Sql α → Prop
  | inside, .ret _ => inside = false
  | inside, .call .beginImmediate next =>
    inside = false ∧ Bracketed confined true (next none) ∧
      ∀ err, Bracketed confined false (next (some err))
  | inside, .call .commit next => inside = true ∧ Bracketed confined false (next none)
  | inside, .call .rollback next => inside = true ∧ Bracketed confined false (next none)
  | inside, .call (.query _) next =>
    (confined = true → inside = true) ∧ ∀ r, Bracketed confined inside (next r)
  | inside, .call (.write _) next =>
    (confined = true → inside = true) ∧ ∀ r, Bracketed confined inside (next r)
  | inside, .call .changes next =>
    (confined = true → inside = true) ∧ ∀ r, Bracketed confined inside (next r)
  | inside, .call .lastInsertRowid next =>
    (confined = true → inside = true) ∧ ∀ r, Bracketed confined inside (next r)

section Rules

variable {α β : Type} {W : Write → Prop} {confined : Bool}

/-- Statements alone never change sides. -/
theorem Within.bracketed_bind {inside : Bool} (hi : confined = true → inside = true) {p : Sql α}
    {f : α → Sql β} (hp : Within W p) (hf : ∀ a, Bracketed confined inside (f a)) :
    Bracketed confined inside (p.bind f) := by
  induction p with
  | ret a => exact hf a
  | call e next ih =>
    have he := hp.1
    cases e with
    | beginImmediate | commit | rollback => exact he.elim
    | query | write | changes | lastInsertRowid => exact ⟨hi, fun r => ih r (hp.2 r)⟩

theorem Within.bracketed {p : Sql α} (hp : Within W p) : Bracketed false false p := by
  rw [← Prog.bind_ret p]
  exact Within.bracketed_bind (fun h => h) hp fun _ => rfl

/-- A program that has closed its brackets can be followed by a return. -/
theorem bracketed_map {inside : Bool} {p : Sql α} (hp : Bracketed confined inside p)
    (f : α → β) : Bracketed confined inside (f <$> p) := by
  induction p generalizing inside with
  | ret a => exact hp
  | call e next ih =>
    cases e with
    | beginImmediate => exact ⟨hp.1, ih _ hp.2.1, fun err => ih _ (hp.2.2 err)⟩
    | commit | rollback => exact ⟨hp.1, ih _ hp.2⟩
    | query | write | changes | lastInsertRowid => exact ⟨hp.1, fun r => ih r (hp.2 r)⟩

/-- The same where the return depends on a case analysis. -/
theorem bracketed_answer {inside : Bool} {p : Sql α} {f : α → Sql β}
    (hp : Bracketed confined inside p) (hf : ∀ a, ∃ b, f a = .ret b) :
    Bracketed confined inside (p.bind f) := by
  choose g hg using hf
  have hmap : p.bind f = g <$> p := by
    rw [Prog.map_eq]
    exact congrArg p.bind (funext hg)
  rw [hmap]
  exact bracketed_map hp g

theorem bracketed_transaction {func : SqlExcept α} (hf : WithinExcept W func) :
    Bracketed true false (Database.transaction func).run := by
  have hbody : Bracketed true true (tryCatch
      (do
        let result ← func
        Database.commit
        return result)
      (fun e => do
        Database.rollback
        throw e) : SqlExcept α).run := by
    rw [ExceptT.run_tryCatch, ExceptT.run_bind, bind_assoc]
    refine Within.bracketed_bind (fun h => h) hf ?_
    rintro (e | a)
    · exact ⟨rfl, rfl⟩
    · exact ⟨rfl, rfl⟩
  rw [Database.transaction, ExceptT.run_bind]
  exact ⟨rfl, hbody, fun err => rfl⟩

/-- The handlers have no transaction of their own. -/
theorem within_handler (request : HttpRequest) :
    Within (fun _ => True) request.handler.run := by
  cases request with
  | postCourses authHeader body => exact within_postCourses fun _ _ _ _ _ _ => trivial
  | putCourse authHeader id body => exact within_putCourse fun _ _ _ _ _ => trivial
  | deleteCourse authHeader id => exact within_deleteCourseHandler trivial
  | postUsers authHeader body => exact within_postUsers fun _ _ _ _ _ _ => trivial
  | putUser authHeader id body =>
    exact within_putUser (fun _ _ _ _ => trivial) fun _ => trivial
  | deleteUser authHeader id => exact within_deleteUser trivial
  | postLogin body generated => exact within_postLogin fun _ => trivial
  | postLogout authHeader => exact within_postLogout fun _ => trivial

/-- Every request brackets its transaction; those with a mutex make all calls inside. -/
theorem bracketed_body (r : Request) : Bracketed r.course.isSome false r.body := by
  cases r with
  | registerStudent s c =>
    have hbody : WithinExcept (fun _ => True) (RegistrationService.registerTransaction s c) :=
      within_registerTransaction trivial trivial
    refine bracketed_map (bracketed_answer (bracketed_transaction hbody) ?_) _
    rintro (e | a) <;> exact ⟨_, rfl⟩
  | dropStudent s c =>
    have hbody : WithinExcept (fun _ => True) (RegistrationService.dropTransaction s c) :=
      within_dropTransaction trivial
    refine bracketed_map (bracketed_answer (bracketed_transaction hbody) ?_) _
    rintro (e | a) <;> exact ⟨_, rfl⟩
  | updateCourse course requester =>
    have hbody : Within (fun _ => True) (CourseService.updateCourse course requester) :=
      within_updateCourse trivial
    exact bracketed_map hbody.bracketed _
  | http request => exact bracketed_map (within_handler request).bracketed _

end Rules

/-! ## The thread that owns the open transaction -/

section Exec

variable {α β : Type} {confined : Bool} {e : SqlCall β} {next : β → Sql α} {conn : Conn}

/-- The owner of the open transaction, or any thread when there is none, follows what its
calls do to it. -/
theorem Bracketed.exec_owner (h : Bracketed confined conn.saved.isSome (.call e next))
    (now : Int) :
    Bracketed confined (conn.exec now e).2.saved.isSome (next (conn.exec now e).1) := by
  cases e with
  | beginImmediate =>
    obtain ⟨hs, hok, -⟩ := h
    have hnone : conn.saved = none := by simpa using hs
    simpa [Conn.exec, hnone] using hok
  | commit | rollback =>
    obtain ⟨hs, hok⟩ := h
    obtain ⟨d, hd⟩ := Option.isSome_iff_exists.mp hs
    simpa [Conn.exec, hd] using hok
  | query | changes | lastInsertRowid => exact h.2 _
  | write w =>
    simp only [Conn.exec, Conn.write_saved]
    exact h.2 _

/-- A thread outside its brackets leaves the open transaction of another alone. -/
theorem Bracketed.exec_other (h : Bracketed confined false (.call e next)) {d : Db}
    (hs : conn.saved = some d) (now : Int) :
    (conn.exec now e).2.saved = some d ∧
      Bracketed confined false (next (conn.exec now e).1) := by
  cases e with
  | beginImmediate =>
    simp only [Conn.exec, hs]
    exact ⟨trivial, h.2.2 _⟩
  | commit | rollback => exact absurd h.1 Bool.false_ne_true
  | query | changes | lastInsertRowid => exact ⟨hs, h.2 _⟩
  | write w => exact ⟨by simp only [Conn.exec, Conn.write_saved, hs], h.2 _⟩

end Exec

/-- Whether the thread can be at this point inside its brackets, or outside of them. -/
def Phase.Inside (inside : Bool) : Phase → Prop
  | body r _ rest => Bracketed r.course.isSome inside rest
  | _ => inside = false

theorem Phase.inside_enter (r : Request) : r.enter.Inside false := by
  have hbody := bracketed_body r
  unfold Request.enter
  cases hr : r.course with
  | none => exact hbody
  | some c => rfl

namespace Server

variable {ι : Type} [DecidableEq ι]

/-- A transaction is open if and only if some thread is inside its brackets, and then only
that one. -/
def Owned (s : Server ι) : Prop :=
  ∃ o : Option ι, s.conn.saved.isSome = o.isSome ∧ ∀ j, (s.threads j).phase.Inside (o = some j)

namespace Owned

theorem start {conn : Conn} (hs : conn.saved = none) (todo : ι → List Request) :
    (Server.start conn todo).Owned :=
  ⟨none, by simp [Server.start, hs], fun j => by simp [Server.start, Phase.Inside]⟩

variable {s : Server ι} {i : ι}

/-- A thread that moves between points outside its brackets. -/
theorem setThread (h : s.Owned) {t : Thread} (hout : ∀ b, (s.threads i).phase.Inside b → b = false)
    (ht : t.phase.Inside false) : (s.setThread i t).Owned := by
  obtain ⟨o, ho, hin⟩ := h
  refine ⟨o, ho, fun j => ?_⟩
  by_cases hj : j = i
  · subst hj
    rw [setThread_self, hout _ (hin j)]
    exact ht
  · rw [setThread_ne _ _ _ hj]
    exact hin j

theorem moves (h : s.Owned) {now : Int} {s' : Server ι} (hm : Moves s i now s') : s'.Owned := by
  cases hm with
  | start hp ht => exact h.setThread (fun b hb => by rwa [hp] at hb) (Phase.inside_enter _)
  | found hp hmutex =>
    rcases hp with hp | hp <;> exact h.setThread (fun b hb => by rwa [hp] at hb) rfl
  | missing hp hmutex => exact h.setThread (fun b hb => by rwa [hp] at hb) rfl
  | create hp hmutex =>
    exact setThread (s := { s with courseMutexes := _ }) h (fun b hb => by
      simp only [hp] at hb
      exact hb) rfl
  | acquire hp ho =>
    exact setThread (s := s.setOwner _ _) h (fun b hb => by
      simp only [setOwner_threads, hp] at hb
      exact hb) (bracketed_body _)
  | @call r held β e next hp =>
    obtain ⟨o, ho, hin⟩ := h
    have hi := hin i
    rw [hp] at hi
    -- either the transaction is the thread's own (or none is open) or another thread's
    by_cases hown : o = none ∨ o = some i
    · have hb : Bracketed r.course.isSome s.conn.saved.isSome (.call e next) := by
        rw [ho]
        obtain rfl | rfl := hown
        · exact hi
        · rw [decide_eq_true rfl] at hi
          exact hi
      have hnext := hb.exec_owner now
      refine ⟨if (s.conn.exec now e).2.saved.isSome then some i else none, ?_, fun j => ?_⟩
      · rw [setPhase_conn]
        split <;> simp_all
      · by_cases hj : j = i
        · subst hj
          rw [setPhase_self]
          simp only [Phase.Inside]
          split <;> simp_all
        · rw [setPhase_ne _ _ _ hj]
          have hjin := hin j
          have hne : ¬ o = some j := by
            rcases hown with rfl | rfl <;> simp [Ne.symm hj]
          rw [decide_eq_false hne] at hjin
          have hne' : ¬ (if (s.conn.exec now e).2.saved.isSome then some i else none) = some j := by
            split <;> simp [Ne.symm hj]
          rw [decide_eq_false hne']
          exact hjin
    · obtain ⟨k, rfl⟩ : ∃ k, o = some k := Option.ne_none_iff_exists'.mp fun h => hown (Or.inl h)
      have hki : ¬ some k = some i := fun h => hown (Or.inr h)
      rw [decide_eq_false hki] at hi
      obtain ⟨d, hd⟩ := Option.isSome_iff_exists.mp (ho.trans rfl)
      obtain ⟨hsaved, hnext⟩ := Bracketed.exec_other hi hd now
      refine ⟨some k, ?_, fun j => ?_⟩
      · rw [setPhase_conn, hsaved]
        rfl
      · by_cases hj : j = i
        · subst hj
          rw [setPhase_self, decide_eq_false hki]
          exact hnext
        · rw [setPhase_ne _ _ _ hj]
          exact hin j
  | done hp => exact h.setThread (fun b hb => by rwa [hp] at hb) rfl
  | leave hp => exact h.setThread (fun b hb => by rwa [hp] at hb) rfl
  | release hp =>
    exact setThread (s := s.setOwner _ _) h (fun b hb => by
      simp only [setOwner_threads, hp] at hb
      exact hb) rfl

end Owned

end Server

end AcademiaCr.Backend
