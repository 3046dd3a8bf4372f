import AcademiaCr.Library.Sequential
import AcademiaCr.Backend.RelyGuarantee
import AcademiaCr.Backend.Timeless

/-!
# Registrations and drops one after another

As long as every `BEGIN IMMEDIATE` finds no open transaction, the transactions of a run do
not overlap. Registrations and drops then have the replies and the effect that they would
have if they were executed one after another, in the order of their transactions.

## Main definitions

- `Opens`, `Closing`: programs at the start of and inside their only transaction
- `transactionOrder`: the calls of a run in the order of their transactions
- `serial`: their execution one after another
- `Serialized`: the invariant that relates the two
-/

namespace AcademiaCr.Backend

open Resumption Transition

/-! ## One transaction for each request -/

/-- The program is inside a transaction and returns when it has closed it. -/
def Closing {α : Type} : Sql α → Prop
  | .ret _ => False
  | .call .beginImmediate _ => False
  | .call .commit next => ∃ a, next none = .ret a
  | .call .rollback next => ∃ a, next none = .ret a
  | .call (.query _) next => ∀ r, Closing (next r)
  | .call (.write _) next => ∀ r, Closing (next r)
  | .call .changes next => ∀ r, Closing (next r)
  | .call .lastInsertRowid next => ∀ r, Closing (next r)

/-- The program is about to open its only transaction. -/
def Opens {α : Type} (p : Sql α) : Prop :=
  ∃ next, p = .call .beginImmediate next ∧ Closing (next none)

section Shape

variable {α β : Type} {W : Write → Prop}

theorem Within.closing_bind {p : Sql α} {f : α → Sql β} (hp : Within W p)
    (hf : ∀ a, Closing (f a)) : Closing (p.bind f) := by
  induction p with
  | ret a => exact hf a
  | call e next ih =>
    have he := hp.1
    cases e with
    | beginImmediate | commit | rollback => exact he.elim
    | query | write | changes | lastInsertRowid => exact fun r => ih r (hp.2 r)

theorem Closing.answer {p : Sql α} {f : α → Sql β} (hp : Closing p)
    (hf : ∀ a, ∃ b, f a = .ret b) : Closing (p.bind f) := by
  induction p with
  | ret a => exact hp.elim
  | call e next ih =>
    cases e with
    | beginImmediate => exact hp.elim
    | commit | rollback =>
      obtain ⟨a, ha⟩ := hp
      obtain ⟨b, hb⟩ := hf a
      exact ⟨b, by simp only [ha, Prog.ret_bind, hb]⟩
    | query | write | changes | lastInsertRowid => exact fun r => ih r (hp r)

theorem Opens.answer {p : Sql α} {f : α → Sql β} (hp : Opens p)
    (hf : ∀ a, ∃ b, f a = .ret b) : Opens (p.bind f) := by
  obtain ⟨next, rfl, hclosing⟩ := hp
  exact ⟨_, rfl, hclosing.answer hf⟩

theorem opens_transaction {func : SqlExcept α} (hf : WithinExcept W func) :
    Opens (Database.transaction func).run := by
  refine ⟨_, rfl, ?_⟩
  show Closing (tryCatch
    (do
      let result ← func
      Database.commit
      return result)
    (fun e => do
      Database.rollback
      throw e) : SqlExcept α).run
  rw [ExceptT.run_tryCatch, ExceptT.run_bind, bind_assoc]
  refine Within.closing_bind hf ?_
  rintro (e | a)
  · exact ⟨_, rfl⟩
  · exact ⟨_, rfl⟩

theorem Request.opens_body {r : Request} (hr : r.Confined) : Opens r.body := by
  cases r with
  | registerStudent s c =>
    have hbody : WithinExcept (fun _ => True) (RegistrationService.registerTransaction s c) :=
      within_registerTransaction trivial trivial
    refine ((opens_transaction hbody).answer ?_).answer fun a => ⟨_, rfl⟩
    rintro (e | a) <;> exact ⟨_, rfl⟩
  | dropStudent s c =>
    have hbody : WithinExcept (fun _ => True) (RegistrationService.dropTransaction s c) :=
      within_dropTransaction trivial
    refine ((opens_transaction hbody).answer ?_).answer fun a => ⟨_, rfl⟩
    rintro (e | a) <;> exact ⟨_, rfl⟩
  | updateCourse | http => cases hr

end Shape

/-! ## The order of transactions -/

section Order

variable {ι : Type}

/-- The call whose transaction the step opens. -/
def Happening.opened (e : Happening ι) : Option (ι × Request) :=
  if e.begins then (e.before.threads e.thread).phase.request.map fun r => (e.thread, r) else none

/-- The calls whose transactions were opened, the earliest first. -/
def transactionOrder (history : List (Happening ι)) : List (ι × Request) :=
  history.reverse.filterMap Happening.opened

theorem transactionOrder_cons (e : Happening ι) (history : List (Happening ι)) :
    transactionOrder (e :: history) = transactionOrder history ++ e.opened.toList := by
  rw [transactionOrder, List.reverse_cons, List.filterMap_append]
  cases h : e.opened <;> simp [transactionOrder, h]

/-- Execute the calls one after another. -/
def serial (order : List (ι × Request)) (db : Db) : List ((ι × Request) × Reply) × Db :=
  Sequential.exec (fun call db => call.2.alone db) order db

theorem map_serial (order : List (ι × Request)) (db : Db) : (serial order db).1.map (·.1) = order :=
  Sequential.map_exec _ _ _

/-- One more call executed after the others. -/
theorem serial_snoc (order : List (ι × Request)) (i : ι) (r : Request) (db : Db) :
    serial (order ++ [(i, r)]) db =
      ((serial order db).1 ++ [((i, r), (r.alone (serial order db).2).1)],
        (r.alone (serial order db).2).2) := Sequential.exec_snoc _ _ _ _

end Order

/-- The reply of a thread that has one and has not finished its call yet. -/
def Phase.answer : Phase → Option (Request × Reply)
  | body r _ (.ret reply) => some (r, reply)
  | unlock r _ reply => some (r, reply)
  | _ => none

/-- The calls of a thread that have got a reply, the earliest first. -/
def Thread.answered (t : Thread) : List (Request × Reply) :=
  t.finished.reverse ++ t.phase.answer.toList

/-- A thread that is not in a transaction has not begun its own, or has its reply. -/
def Phase.Outside : Phase → Prop
  | body r _ rest => rest = r.body ∨ ∃ reply, rest = .ret reply
  | _ => True

/-- The calls of one thread with their replies. -/
def repliesTo {ι : Type} [DecidableEq ι] (i : ι) (answers : List ((ι × Request) × Reply)) :
    List (Request × Reply) :=
  answers.filterMap fun a => if a.1.1 = i then some (a.1.2, a.2) else none

/-- Between transactions, the tables and the replies are those of the calls executed one
after another. Within a transaction, its call will add what it does on its own. -/
inductive Serialized {ι : Type} [DecidableEq ι] (db : Db) :
    List (ι × Request) → Server ι → Prop
  | between {order : List (ι × Request)} {s : Server ι} (saved : s.conn.saved = none)
      (tables : s.conn.db = (serial order db).2)
      (answered : ∀ j, (s.threads j).answered = repliesTo j (serial order db).1)
      (outside : ∀ j, (s.threads j).phase.Outside) : Serialized db order s
  | within {order : List (ι × Request)} {s : Server ι} {i : ι} {r : Request}
      {held : Option Nat} {rest : Sql Reply} (phase : (s.threads i).phase = .body r held rest)
      (saved : s.conn.saved.isSome = true) (closing : Closing rest)
      (alone : SafeAlone (fun reply conn => (reply, conn.db) = r.alone (serial order db).2 ∧
        conn.saved = none) rest s.conn)
      (answered : ∀ j, (s.threads j).answered = repliesTo j (serial order db).1)
      (outside : ∀ j, j ≠ i → (s.threads j).phase.Outside) :
      Serialized db (order ++ [(i, r)]) s

/-! ## The invariant -/

section Invariant

variable {ι : Type} [DecidableEq ι] {s s' : Server ι} {i : ι} {now : Int} {db : Db}
  {order : List (ι × Request)}

theorem Request.answer_body {r : Request} (hr : r.Confined) (held : Option Nat) :
    (Phase.body r held r.body).answer = none := by
  obtain ⟨next, hbody, -⟩ := r.opens_body hr
  rw [hbody]
  rfl

theorem Request.enter_eq {r : Request} (hr : r.Confined) : ∃ c, r.enter = .find r c := by
  obtain ⟨c, hc⟩ := Option.isSome_iff_exists.mp hr
  exact ⟨c, by rw [Request.enter, hc]⟩

theorem Closing.answer_eq {rest : Sql Reply} (h : Closing rest) (r : Request)
    (held : Option Nat) : (Phase.body r held rest).answer = none := by
  cases rest with
  | ret reply => exact h.elim
  | call e next => rfl

/-- A thread outside its transaction whose next step is a call is about to begin one. -/
theorem Phase.Outside.begins {r : Request} {held : Option Nat} {β : Type} {e : SqlCall β}
    {next : β → Sql Reply} (h : (body r held (.call e next)).Outside) (hr : r.Confined) :
    ∃ next', Prog.call e next = .call .beginImmediate next' ∧ r.body = .call e next ∧
      Closing (next' none) := by
  obtain hbody | ⟨reply, hret⟩ := h
  · obtain ⟨next', hbegin, hclosing⟩ := r.opens_body hr
    exact ⟨next', hbody.trans hbegin, hbody.symm, hclosing⟩
  · cases hret

/-- A step that makes no call changes neither the tables nor the replies. -/
theorem Server.Moves.quiet (hm : Server.Moves s i now s') (honly : s.Only Request.Confined)
    (hcall : s.nextCall i = none) : s'.conn = s.conn ∧
      (∀ j, (s'.threads j).answered = (s.threads j).answered) ∧
      (s'.threads i).phase.Outside := by
  suffices hi : s'.conn = s.conn ∧ (s'.threads i).answered = (s.threads i).answered ∧
      (s'.threads i).phase.Outside by
    refine ⟨hi.1, fun j => ?_, hi.2.2⟩
    by_cases hj : j = i
    · rw [hj]
      exact hi.2.1
    · rw [hm.threads_ne hj]
  cases hm with
  | @start r rest hp ht =>
    obtain ⟨c, hc⟩ := r.enter_eq (honly.todo i r (by rw [ht]; exact List.mem_cons_self))
    refine ⟨rfl, ?_, ?_⟩
    · simp [Thread.answered, hc, hp, Phase.answer]
    · rw [Server.setThread_self, hc]
      trivial
  | found hp hmutex =>
    refine ⟨rfl, ?_, ?_⟩
    · rcases hp with hp | hp <;> simp [Thread.answered, hp, Phase.answer]
    · rw [Server.setPhase_self]
      trivial
  | missing hp | create hp =>
    refine ⟨rfl, ?_, ?_⟩
    · simp [Thread.answered, hp, Phase.answer]
    · rw [Server.setPhase_self]
      trivial
  | @acquire r m hp ho =>
    have hr := honly.phase i r (by rw [hp]; rfl)
    refine ⟨rfl, ?_, ?_⟩
    · have hnew := Request.answer_body hr (some m)
      have hold : (Phase.lock r m).answer = none := rfl
      simp only [Thread.answered, Server.setPhase_self, Server.setOwner_threads, hp, hnew, hold]
    · rw [Server.setPhase_self]
      exact Or.inl rfl
  | call hp => simp [Server.nextCall, hp, Phase.nextCall] at hcall
  | done hp | leave hp | release hp =>
    refine ⟨rfl, ?_, ?_⟩
    · simp [Thread.answered, hp, Phase.answer]
    · simp [Phase.Outside]

theorem repliesTo_snoc (answers : List ((ι × Request) × Reply)) (i j : ι) (r : Request)
    (reply : Reply) : repliesTo j (answers ++ [((i, r), reply)]) =
      repliesTo j answers ++ if i = j then [(r, reply)] else [] := by
  rw [repliesTo, List.filterMap_append]
  split <;> simp_all [repliesTo]

omit [DecidableEq ι] in
theorem Happening.opened_of_begins {e : Happening ι} (h : e.begins = false) : e.opened = none := by
  simp [Happening.opened, h]

/-- The steps of threads outside their transactions, with no transaction open. -/
theorem Serialized.step_between (honly : s.Only Request.Confined) (saved : s.conn.saved = none)
    (tables : s.conn.db = (serial order db).2)
    (answered : ∀ j, (s.threads j).answered = repliesTo j (serial order db).1)
    (outside : ∀ j, (s.threads j).phase.Outside) (hs : s.step (i, now) = some s') :
    Serialized db (order ++ (Happening.opened ⟨s, (i, now), s'⟩).toList) s' := by
  have hm := Server.step_moves hs
  cases hnext : s.nextCall i with
  | none =>
    obtain ⟨hconn, hans, hout⟩ := hm.quiet honly hnext
    have hopened : Happening.opened (⟨s, (i, now), s'⟩ : Happening ι) = none :=
      Happening.opened_of_begins
          (by simp [Happening.begins, Happening.call, Happening.thread, hnext])
    rw [hopened, Option.toList_none, List.append_nil]
    refine .between (by rw [hconn, saved]) (by rw [hconn, tables])
      (fun j => (hans j).trans (answered j)) fun j => ?_
    by_cases hj : j = i
    · rw [hj]
      exact hout
    · rw [hm.threads_ne hj]
      exact outside j
  | some e =>
    obtain ⟨β, e⟩ := e
    obtain ⟨r, held, next, hp⟩ := Phase.exists_of_nextCall hnext
    have hr := honly.phase i r (by rw [hp]; rfl)
    have hi := outside i
    rw [hp] at hi
    obtain ⟨next', hbegin, hbody, hclosing⟩ := hi.begins hr
    cases hbegin
    have hopened : Happening.opened (⟨s, (i, now), s'⟩ : Happening ι) = some (i, r) := by
      simp [Happening.opened, Happening.begins, Happening.call, Happening.thread, hnext, saved, hp,
        Phase.request]
    rw [hopened, Option.toList_some]
    have halone := safeAlone_body hr saved
    rw [hbody, tables] at halone
    obtain ⟨-, halone⟩ := halone s.conn rfl now
    have hexec : Conn.exec now .beginImmediate s.conn = (none, s.conn.begun) := by
      simp [Conn.exec, saved, Conn.begun]
    simp only [hexec] at halone
    -- the call is a `BEGIN IMMEDIATE` that succeeds, which opens the transaction
    have hs' : s' = ({ s with conn := s.conn.begun }).setPhase i (.body r held (next' none)) := by
      simp only [Server.step, hp, hexec] at hs
      cases hs
      rfl
    subst hs'
    have hphase : ((({ s with conn := s.conn.begun }).setPhase i
        (.body r held (next' none))).threads i).phase = .body r held (next' none) := by
      rw [Server.setPhase_self]
    refine .within hphase rfl hclosing halone (fun j => ?_) fun j hj => ?_
    · rw [← answered j]
      by_cases hj : j = i
      · subst hj
        have hold : (Phase.body r held (.call .beginImmediate next')).answer = none := rfl
        simp only [Thread.answered, Server.setPhase_self, hp, hclosing.answer_eq, hold]
      · rw [Server.setPhase_ne _ _ _ hj]
    · rw [Server.setPhase_ne _ _ _ hj]
      exact outside j

/-- The steps of the thread inside its transaction. -/
theorem Serialized.step_own {r : Request} {held : Option Nat} {rest : Sql Reply}
    (phase : (s.threads i).phase = .body r held rest) (saved : s.conn.saved.isSome = true)
    (closing : Closing rest)
    (alone : SafeAlone (fun reply conn => (reply, conn.db) = r.alone (serial order db).2 ∧
      conn.saved = none) rest s.conn)
    (answered : ∀ j, (s.threads j).answered = repliesTo j (serial order db).1)
    (outside : ∀ j, j ≠ i → (s.threads j).phase.Outside) (hs : s.step (i, now) = some s') :
    Serialized db (order ++ [(i, r)]) s' := by
  obtain ⟨d, hd⟩ := Option.isSome_iff_exists.mp saved
  have hother : ∀ (conn : Conn) (rest' : Sql Reply) j, j ≠ i →
      (({ s with conn }).setPhase i (.body r held rest')).threads j = s.threads j :=
    fun conn rest' j hj => Server.setPhase_ne _ _ _ hj
  -- the transaction is over
  have hclosed : ∀ (conn : Conn) (reply : Reply),
      (reply, conn.db) = r.alone (serial order db).2 ∧ conn.saved = none →
        Serialized db (order ++ [(i, r)])
          (({ s with conn }).setPhase i (.body r held (.ret reply))) := by
    rintro conn reply ⟨hreply, hsaved⟩
    refine .between hsaved ?_ (fun j => ?_) fun j => ?_
    · rw [serial_snoc, ← hreply]
      rfl
    · rw [serial_snoc, repliesTo_snoc, ← hreply, ← answered j]
      by_cases hj : j = i
      · subst hj
        have hnew : (Phase.body r held (.ret reply)).answer = some (r, reply) := rfl
        simp [Thread.answered, phase, closing.answer_eq, hnew]
      · rw [hother _ _ j hj, if_neg (Ne.symm hj), List.append_nil]
    · by_cases hj : j = i
      · rw [hj, Server.setPhase_self]
        exact Or.inr ⟨reply, rfl⟩
      · rw [hother _ _ j hj]
        exact outside j hj
  -- the transaction goes on
  have hopen : ∀ (conn : Conn) (rest' : Sql Reply), conn.saved.isSome = true → Closing rest' →
      SafeAlone (fun reply conn => (reply, conn.db) = r.alone (serial order db).2 ∧
        conn.saved = none) rest' conn →
      Serialized db (order ++ [(i, r)]) (({ s with conn }).setPhase i (.body r held rest')) := by
    intro conn rest' hsaved hclosing halone
    have hphase : ((({ s with conn }).setPhase i (.body r held rest')).threads i).phase =
        .body r held rest' := by rw [Server.setPhase_self]
    refine .within hphase hsaved hclosing halone (fun j => ?_) fun j hj => ?_
    · rw [← answered j]
      by_cases hj : j = i
      · subst hj
        simp [Thread.answered, phase, closing.answer_eq, hclosing.answer_eq]
      · rw [hother _ _ j hj]
    · rw [hother _ _ j hj]
      exact outside j hj
  cases rest with
  | ret reply => exact closing.elim
  | call e next =>
    obtain ⟨-, hnext⟩ := alone s.conn rfl now
    simp only [Server.step, phase] at hs
    cases hs
    cases e with
    | beginImmediate => exact closing.elim
    | commit | rollback =>
      obtain ⟨reply, hreply⟩ := closing
      simp only [Conn.exec, hd, hreply] at hnext ⊢
      exact hclosed _ reply hnext
    | query | changes | lastInsertRowid => exact hopen _ _ saved (closing _) hnext
    | write w =>
      refine hopen _ _ ?_ (closing _) hnext
      simp only [Conn.exec, Conn.write_saved, saved]

/-- A step keeps the invariant unless it is a `BEGIN IMMEDIATE` that fails. -/
theorem Serialized.step (h : Serialized db order s) (honly : s.Only Request.Confined)
    (hs : s.step (i, now) = some s')
    (hok : Happening.beginFails (⟨s, (i, now), s'⟩ : Happening ι) = false) :
    Serialized db (order ++ (Happening.opened ⟨s, (i, now), s'⟩).toList) s' := by
  cases h with
  | between saved tables answered outside =>
    exact .step_between honly saved tables answered outside hs
  | @within order _ i₀ r held rest phase saved closing alone answered outside =>
    have hbegins : Happening.begins (⟨s, (i, now), s'⟩ : Happening ι) = false := by
      obtain ⟨d, hd⟩ := Option.isSome_iff_exists.mp saved
      simp only [Happening.begins]
      split
      · simp [hd]
      · rfl
    rw [Happening.opened_of_begins hbegins, Option.toList_none, List.append_nil]
    by_cases hi : i = i₀
    · subst hi
      exact .step_own phase saved closing alone answered outside hs
    · have hm := Server.step_moves hs
      have hi₀ := hm.threads_ne (Ne.symm hi)
      cases hnext : s.nextCall i with
      | none =>
        obtain ⟨hconn, hans, hout⟩ := hm.quiet honly hnext
        refine .within (by rw [hi₀]; exact phase) (by rw [hconn, saved]) closing
          (by rw [hconn]; exact alone) (fun j => (hans j).trans (answered j)) fun j hj => ?_
        by_cases hji : j = i
        · rw [hji]
          exact hout
        · rw [hm.threads_ne hji]
          exact outside j hj
      | some e =>
        -- another thread could only fail to begin a transaction
        obtain ⟨β, e⟩ := e
        obtain ⟨r', held', next, hp⟩ := Phase.exists_of_nextCall hnext
        have hr := honly.phase i r' (by rw [hp]; rfl)
        have hout := outside i hi
        rw [hp] at hout
        obtain ⟨next', hbegin, -⟩ := hout.begins hr
        cases hbegin
        simp only [Happening.beginFails, Happening.call, Happening.thread, hnext, saved] at hok
        cases hok

/-- In every run of registrations and drops in which no `BEGIN IMMEDIATE` fails, they have the
replies and effects that they have one after another, in the order of their transactions. -/
theorem serialized_of_run {conn : Conn} {todo : ι → List Request} (hs : conn.saved = none)
    (htodo : ∀ i, ∀ r ∈ todo i, r.Confined) {history : List (Happening ι)}
    (hr : (Server.start conn todo).Runs history s) (hok : ∀ e ∈ history, e.beginFails = false) :
    s.Only Request.Confined ∧ Serialized conn.db (transactionOrder history) s := by
  induction hr with
  | start => exact ⟨.start htodo, .between hs rfl (fun j => rfl) fun j => trivial⟩
  | @snoc history s s' l hr hs ih =>
    obtain ⟨i, now⟩ := l
    obtain ⟨honly, hserial⟩ := ih fun e he => hok e (List.mem_cons_of_mem _ he)
    rw [transactionOrder_cons]
    exact ⟨honly.moves (Server.step_moves hs), hserial.step honly hs (hok _ List.mem_cons_self)⟩

end Invariant

/-! ## Program order -/

/-- The calls of a thread: finished, under way and still to come. -/
def Thread.calls (t : Thread) : List Request :=
  t.finished.reverse.map (·.1) ++ t.phase.request.toList ++ t.todo

theorem Phase.request_of_answer {phase : Phase} {a : Request × Reply}
    (h : phase.answer = some a) : phase.request = some a.1 := by
  cases phase with
  | body r held rest =>
    cases rest with
    | ret reply => cases h; rfl
    | call e next => cases h
  | unlock r m reply => cases h; rfl
  | idle | find | emplace | lock => cases h

/-- The answered calls come first. -/
theorem Thread.answered_initial (t : Thread) : t.answered.map (·.1) <+: t.calls := by
  simp only [answered, calls, List.map_append, List.append_assoc, List.prefix_append_right_inj]
  cases h : t.phase.answer with
  | none => exact List.nil_prefix
  | some a =>
    rw [Phase.request_of_answer h]
    exact List.prefix_append _ _

section ProgramOrder

variable {ι : Type} [DecidableEq ι] {s s' : Server ι} {i : ι} {now : Int} {db : Db}
  {order : List (ι × Request)}

/-- No step adds, loses or reorders calls of a thread. -/
theorem Server.Moves.calls (hm : Server.Moves s i now s') (j : ι) :
    (s'.threads j).calls = (s.threads j).calls := by
  by_cases hj : j = i
  · subst hj
    cases hm with
    | start hp ht =>
      simp only [Thread.calls, Server.setThread_self, Server.request_enter, hp, ht]
      simp [Phase.request]
    | found hp hmutex => rcases hp with hp | hp <;> simp [Thread.calls, hp, Phase.request]
    | missing hp | create hp | acquire hp | call hp | leave hp | done hp | release hp =>
      simp [Thread.calls, hp, Phase.request]
  · rw [hm.threads_ne hj]

theorem calls_of_run {conn : Conn} {todo : ι → List Request} {history : List (Happening ι)}
    (hr : (Server.start conn todo).Runs history s) (j : ι) : (s.threads j).calls = todo j := by
  induction hr with
  | start => rfl
  | @snoc history s s' l hr hs ih =>
    obtain ⟨i, now⟩ := l
    exact ((Server.step_moves hs).calls j).trans ih

/-- The calls of one thread. -/
def callsOf (i : ι) (order : List (ι × Request)) : List Request :=
  (order.filter fun o => o.1 = i).map (·.2)

theorem mem_callsOf {r : Request} : r ∈ callsOf i order ↔ (i, r) ∈ order := by
  simp [callsOf]

theorem callsOf_snoc (order : List (ι × Request)) (i j : ι) (r : Request) :
    callsOf j (order ++ [(i, r)]) = callsOf j order ++ if i = j then [r] else [] := by
  by_cases hj : i = j <;> simp [callsOf, hj]

/-- Threads with at most one call each appear at most once. -/
theorem nodup_of_callsOf (h : ∀ i, (callsOf i order).length ≤ 1) : (order.map (·.1)).Nodup := by
  refine List.nodup_iff_count_le_one.mpr fun i => ?_
  have hlength := h i
  rw [callsOf, List.length_map] at hlength
  rw [List.count, List.countP_map, List.countP_eq_length_filter]
  exact hlength

theorem map_repliesTo (i : ι) (order : List (ι × Request)) (db : Db) :
    (repliesTo i (serial order db).1).map (·.1) = callsOf i order := by
  have hmap : ∀ answers : List ((ι × Request) × Reply),
      (repliesTo i answers).map (·.1) = callsOf i (answers.map (·.1)) := by
    intro answers
    induction answers with
    | nil => rfl
    | cons a answers ih =>
      by_cases ha : a.1.1 = i <;> simp_all [repliesTo, callsOf]
  rw [hmap, map_serial]

omit [DecidableEq ι] in
/-- A thread that is done has finished its calls. -/
theorem Server.AllDone.calls (h : s.AllDone) (j : ι) :
    (s.threads j).calls = (s.threads j).finished.reverse.map (·.1) := by
  have hj := h j
  cases hp : (s.threads j).phase with
  | idle => simp [Thread.calls, hp, Phase.request, List.isEmpty_iff.mp hj.2]
  | find | emplace | lock | body | unlock => rw [hp] at hj; cases hj.1

/-- The calls of a thread appear in the order of transactions as the thread makes them. -/
theorem Serialized.order_prefix (h : Serialized db order s) (j : ι) :
    callsOf j order <+: (s.threads j).calls := by
  have hinit := (s.threads j).answered_initial
  cases h with
  | between saved tables answered outside =>
    rw [← map_repliesTo j order db, ← answered j]
    exact hinit
  | @within order _ i r held rest phase saved closing alone answered outside =>
    rw [answered j, map_repliesTo] at hinit
    rw [callsOf_snoc]
    by_cases hj : i = j
    · subst hj
      have hans : (s.threads i).answered.map (·.1) = callsOf i order := by
        rw [answered i, map_repliesTo]
      rw [Thread.answered, phase, closing.answer_eq] at hans
      simp only [Option.toList_none, List.append_nil] at hans
      rw [← hans, Thread.calls, phase]
      simp [Phase.request]
    · simpa [hj] using hinit

end ProgramOrder

end AcademiaCr.Backend
