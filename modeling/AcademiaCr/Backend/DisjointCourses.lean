import AcademiaCr.Backend.Rosters
import AcademiaCr.Backend.Serialization
import AcademiaCr.Backend.SequentialRuns

/-!
# Registrations for different courses

As long as their transactions do not overlap, calls for different courses do what each of
them does alone. On the shared connection, they can overlap.

## Main definitions

- `Request.local_alone`: a registration or a drop acts on one roster
- `NonInterfering`: calls for different courses do what each does alone
-/

namespace AcademiaCr.Backend

open Resumption Transition

/-- What a registration call tells its client, ids and seats aside. -/
def Reply.outcome : Reply → Option (Bool × String)
  | registration result => some (result.success, result.error)
  | course _ | http _ => none

/-- The course of a registration call. -/
def Request.courseId (r : Request) : Int := r.course.getD 0

/-- Executed alone, a registration or a drop acts on the roster of its course. -/
theorem Request.local_alone {ι : Type} {call : ι × Request} (hr : call.2.Confined) :
    Sequential.Local (fun (call : ι × Request) db => call.2.alone db) Db.forCourse
      (fun call => call.2.courseId) Reply.outcome call := by
  obtain ⟨i, r⟩ := call
  cases r with
  | registerStudent s c =>
    refine ⟨fun db db' (h : db.forCourse c = db'.forCourse c) => ?_,
      fun db db' (h : db.forCourse c = db'.forCourse c) => ?_, fun db k (hk : k ≠ c) => ?_⟩
    · have hcongr := Db.register_congr (s := s) h
      simp only [Prod.mk.injEq] at hcongr
      simp only [Request.alone_registerStudent, Reply.outcome, hcongr]
    · have hcongr := Db.register_congr (s := s) h
      simp only [Prod.mk.injEq] at hcongr
      simp only [Request.alone_registerStudent]
      exact hcongr.2.2
    · simp only [Request.alone_registerStudent]
      exact Db.register_other hk
  | dropStudent s c =>
    refine ⟨fun db db' (h : db.forCourse c = db'.forCourse c) => ?_,
      fun db db' (h : db.forCourse c = db'.forCourse c) => ?_, fun db k (hk : k ≠ c) => ?_⟩
    · have hcongr := Db.drop_congr (s := s) h
      simp only [Prod.mk.injEq] at hcongr
      simp only [Request.alone_dropStudent, Reply.outcome, hcongr]
    · have hcongr := Db.drop_congr (s := s) h
      simp only [Prod.mk.injEq] at hcongr
      simp only [Request.alone_dropStudent]
      exact hcongr.2.2
    · simp only [Request.alone_dropStudent]
      exact Db.drop_other hk
  | updateCourse | http => cases hr

/-! ## Runs of calls for different courses -/

section Runs

variable {ι : Type} [DecidableEq ι] {s : Server ι} {db : Db} {order : List (ι × Request)}

/-- Every call is answered as it is alone, and in the end a student is enrolled in a course if
one of the calls has this effect, or if the student was enrolled before and none of the calls
has the effect to end it. -/
structure NonInterfering (db : Db) (call : ι → Request) (s : Server ι) : Prop where
  answers : ∀ i, ∀ a ∈ (s.threads i).finished, a.2.outcome = ((call i).alone db).1.outcome
  active : s.AllDone → ∀ student c, s.conn.db.enrolledIn student c = true ↔
    (∃ i, ((call i).alone db).2.enrolledIn student c = true ∧ db.enrolledIn student c = false) ∨
      (db.enrolledIn student c = true ∧ ∀ i, ((call i).alone db).2.enrolledIn student c = true)

theorem mem_repliesTo {i : ι} {answers : List ((ι × Request) × Reply)} {a : Request × Reply}
    (h : a ∈ repliesTo i answers) : ((i, a.1), a.2) ∈ answers := by
  obtain ⟨⟨⟨j, r⟩, reply⟩, hmem, ha⟩ := List.mem_filterMap.mp h
  split at ha
  · next hj =>
    cases ha
    cases hj
    exact hmem
  · cases ha

/-- The replies of a run are among those of the serial execution. -/
theorem Serialized.mem_serial (h : Serialized db order s) {i : ι} {a : Request × Reply}
    (ha : a ∈ (s.threads i).answered) : ((i, a.1), a.2) ∈ (serial order db).1 := by
  cases h with
  | between saved tables answered outside => exact mem_repliesTo (answered i ▸ ha)
  | within phase saved closing alone answered outside =>
    rw [serial_snoc]
    exact List.mem_append_left _ (mem_repliesTo (answered i ▸ ha))

/-- When all calls are done, the tables are those of the serial execution. -/
theorem Serialized.allDone (h : Serialized db order s) (hdone : s.AllDone) :
    s.conn.db = (serial order db).2 ∧
      ∀ i, (s.threads i).finished.reverse = repliesTo i (serial order db).1 := by
  cases h with
  | between saved tables answered outside =>
    refine ⟨tables, fun i => ?_⟩
    rw [← answered i, Thread.answered]
    have hidle := (hdone i).1
    cases hp : (s.threads i).phase with
    | idle => simp [Phase.answer]
    | find | emplace | lock | body | unlock => rw [hp] at hidle; cases hidle
  | @within _ _ i r held rest phase saved closing alone answered outside =>
    have hidle := (hdone i).1
    rw [phase] at hidle
    cases hidle

/-- With one call for each thread and one thread for each course, the calls in the order of
their transactions are for pairwise different courses. -/
theorem Serialized.order_calls (h : Serialized db order s) {call : ι → Request}
    (hcalls : ∀ i, (s.threads i).calls = [call i]) :
    (∀ o ∈ order, o.2 = call o.1) ∧ (order.map (·.1)).Nodup := by
  have hinit : ∀ i, callsOf i order <+: [call i] := fun i => by
    rw [← hcalls i]
    exact h.order_prefix i
  exact ⟨fun o ho => List.mem_singleton.mp ((hinit o.1).subset (mem_callsOf.mpr ho)),
    nodup_of_callsOf fun i => (hinit i).length_le⟩

/-- Calls that are all done are in the order of transactions. -/
theorem Serialized.mem_order (h : Serialized db order s) {call : ι → Request}
    (hcalls : ∀ i, (s.threads i).calls = [call i]) (hdone : s.AllDone) (i : ι) :
    (i, call i) ∈ order := by
  have hthread := hdone.calls i
  rw [hcalls i, (h.allDone hdone).2 i, map_repliesTo] at hthread
  exact mem_callsOf.mp (hthread ▸ List.mem_singleton.mpr rfl)

omit [DecidableEq ι] in
/-- The union of effects at most one of which changes a truth value. -/
theorem union_of_effects {before final : Bool} {after : ι → Bool}
    (h : (∃ i, final = after i ∧ ∀ j, j ≠ i → after j = before) ∨
      (final = before ∧ ∀ i, after i = before)) :
    final = true ↔ (∃ i, after i = true ∧ before = false) ∨
      (before = true ∧ ∀ i, after i = true) := by
  obtain ⟨i, rfl, hrest⟩ | ⟨rfl, hrest⟩ := h
  · have hall : before = true → after i = true → ∀ j, after j = true := by
      intro hb hi j
      by_cases hj : j = i
      · rw [hj, hi]
      · rw [hrest j hj, hb]
    constructor
    · intro hi
      cases before with
      | false => exact Or.inl ⟨i, hi, rfl⟩
      | true => exact Or.inr ⟨rfl, hall rfl hi⟩
    · rintro (⟨j, hj, hb⟩ | ⟨-, hj⟩)
      · by_cases hji : j = i
        · rwa [hji] at hj
        · rw [hrest j hji, hb] at hj
          cases hj
      · exact hj i
  · cases final <;> simp [hrest]

theorem Serialized.nonInterfering (h : Serialized db order s) {call : ι → Request}
    (hconfined : ∀ i, (call i).Confined)
    (hcourses : Function.Injective fun i => (call i).courseId)
    (hcalls : ∀ i, (s.threads i).calls = [call i]) : NonInterfering db call s := by
  obtain ⟨hcall, hnodup⟩ := h.order_calls hcalls
  have hlocal : ∀ o ∈ order, Sequential.Local (fun (call : ι × Request) db => call.2.alone db)
      Db.forCourse (fun call => call.2.courseId) Reply.outcome o := fun o ho =>
    Request.local_alone (hcall o ho ▸ hconfined o.1)
  have hkeys : (order.map fun o => o.2.courseId).Nodup := by
    have hmap : order.map (fun o => o.2.courseId) =
        (order.map (·.1)).map fun i => (call i).courseId := by
      rw [List.map_map]
      exact List.map_congr_left fun o ho => by rw [Function.comp_apply, hcall o ho]
    rw [hmap]
    exact hnodup.map hcourses
  obtain ⟨hanswers, hviews⟩ := Sequential.exec_disjoint hlocal hkeys db
  constructor
  · intro i a ha
    have hmem := h.mem_serial (i := i) (List.mem_append_left _ (List.mem_reverse.mpr ha))
    rw [hanswers _ hmem]
    have ho : (i, a.1) ∈ order := by
      rw [← map_serial order db]
      exact List.mem_map_of_mem hmem
    rw [show a.1 = call i from hcall _ ho]
  · intro hdone student c
    have hall := h.mem_order hcalls hdone
    rw [(h.allDone hdone).1]
    have hother : ∀ i, c ≠ (call i).courseId →
        ((call i).alone db).2.enrolledIn student c = db.enrolledIn student c := fun i hi =>
      Db.enrolledIn_of_forCourse ((hlocal _ (hall i)).others db c hi)
    refine union_of_effects ?_
    by_cases hsome : ∃ i, c = (call i).courseId
    · obtain ⟨i, rfl⟩ := hsome
      exact Or.inl ⟨i, Db.enrolledIn_of_forCourse (hviews _ (hall i)),
        fun j hj => hother j fun heq => hj (hcourses heq.symm)⟩
    · have hnone : ∀ i, c ≠ (call i).courseId := fun i hi => hsome ⟨i, hi⟩
      refine Or.inr ⟨Db.enrolledIn_of_forCourse (Sequential.exec_others hlocal ?_ db),
        fun i => hother i (hnone i)⟩
      intro o ho
      rw [hcall o ho]
      exact hnone o.1

end Runs

/-! ## Two registrations -/

/-- Registrations of two students for two courses with free seats. -/
def twoRegistrations : Fin 2 → Request
  | 0 => .registerStudent 5 7
  | 1 => .registerStudent 6 8

/-- The two registrations on the seeded database under a schedule. -/
def twoRegistrationsRun (schedule : List (Fin 2 × Int)) :
    Option (List (Happening (Fin 2)) × Server (Fin 2)) :=
  replay Server.step [] (Server.start (startup true) fun i => [twoRegistrations i]) schedule

theorem twoRegistrations_confined : ∀ i, (twoRegistrations i).Confined := by
  intro i
  match i with
  | 0 | 1 => rfl

theorem twoRegistrations_courses :
    Function.Injective fun i => (twoRegistrations i).courseId := by
  intro i j
  match i, j with
  | 0, 0 | 1, 1 => exact fun _ => rfl
  | 0, 1 | 1, 0 => exact fun h => absurd h (by decide)

/-- In every run of registrations and drops for pairwise different courses in which no
`BEGIN IMMEDIATE` fails, they do not interfere. -/
theorem different_courses_nonInterfering {ι : Type} [DecidableEq ι] {conn : Conn}
    {call : ι → Request} (hs : conn.saved = none) (hconfined : ∀ i, (call i).Confined)
    (hcourses : Function.Injective fun i => (call i).courseId)
    {history : List (Happening ι)} {s : Server ι}
    (hr : (Server.start conn fun i => [call i]).Runs history s)
    (hok : ∀ e ∈ history, e.beginFails = false) : NonInterfering conn.db call s := by
  have htodo : ∀ i, ∀ r ∈ [call i], r.Confined := by
    intro i r hr
    rw [List.mem_singleton.mp hr]
    exact hconfined i
  exact (serialized_of_run hs htodo hr hok).2.nonInterfering hconfined hcourses
    fun i => calls_of_run hr i

/-- The two registrations one after the other. -/
theorem twoRegistrations_nonInterfering : ∃ history s,
    twoRegistrationsRun (List.replicate 15 (0, 0) ++ List.replicate 15 (1, 0)) =
      some (history, s) ∧ NonInterfering (startup true).db twoRegistrations s := by
  have hrun : ((twoRegistrationsRun (List.replicate 15 (0, 0) ++ List.replicate 15 (1, 0))).map
      fun out => decide (∀ e ∈ out.1, e.beginFails = false)) = some true := by decide +kernel
  obtain ⟨⟨history, s⟩, hout, hcheck⟩ := Option.map_eq_some_iff.mp hrun
  exact ⟨history, s, hout, different_courses_nonInterfering (startup_sound true).idle
    twoRegistrations_confined twoRegistrations_courses (replay_run .start hout)
    (of_decide_eq_true hcheck)⟩

/-- The second registration tries to begin its transaction while the first one is in its own:
it fails although course 8 has free seats. -/
theorem overlap_rejects_registration :
    ¬ ∀ (conn : Conn) (call : Fin 2 → Request) history s, conn.saved = none → conn.db.Valid →
      (∀ i, (call i).Confined) → Function.Injective (fun i => (call i).courseId) →
        (Server.start conn fun i => [call i]).Runs history s →
          NonInterfering conn.db call s := by
  intro h
  have hrun : ((twoRegistrationsRun (List.replicate 5 (0, 0) ++ List.replicate 7 (1, 0))).map
      fun out => (out.2.threads 1).finished.all fun a =>
        a.2.outcome == ((twoRegistrations 1).alone (startup true).db).1.outcome) = some false := by
    decide +kernel
  obtain ⟨⟨history, s⟩, hout, hcheck⟩ := Option.map_eq_some_iff.mp hrun
  have hsound := startup_sound true
  have hnon := h _ _ history s hsound.idle hsound.valid twoRegistrations_confined
    twoRegistrations_courses (replay_run .start hout)
  have hall : (s.threads 1).finished.all (fun a =>
      a.2.outcome == ((twoRegistrations 1).alone (startup true).db).1.outcome) = true := by
    refine List.all_eq_true.mpr fun a ha => ?_
    rw [hnon.answers 1 a ha, beq_self_eq_true]
  rw [hall] at hcheck
  cases hcheck

end AcademiaCr.Backend
