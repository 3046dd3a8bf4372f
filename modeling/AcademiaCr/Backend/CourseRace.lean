import Mathlib.Data.Finset.Card
import Mathlib.Data.Fintype.Card
import AcademiaCr.Backend.Linearizability
import AcademiaCr.Backend.LostWrites
import AcademiaCr.Backend.Rosters

/-!
# Students racing for an empty course

When `n` students who are not enrolled race for a course with `k` free seats, the serial
execution gives a seat to the first `min n k` of them and tells the others that the course is
full. So does every run on the server.

## Main definitions

- `serial_race`: the serial execution of the race
- `EmptyCourseRace`: the conditions of the race, on the requests and the first tables
- `SingleCourse`: what every run of registrations and drops on one course satisfies
-/

namespace AcademiaCr.Backend

open Resumption Transition

/-! ## The race, one student after another -/

namespace Db

variable {db : Db} {s c : Int}

/-- An existing student who is not enrolled can be given an active row. -/
theorem activate_isSome (hv : db.Valid) {course : CourseRow} (hc : db.findCourse c = some course)
    (hs : db.userExists s = true) (hno : db.enrolledIn s c = false) :
    ∃ out, db.activate s c = some out := by
  simp only [activate]
  split
  · exact ⟨_, rfl⟩
  · next hzero =>
    have hnew : db.registrations.all (fun r => !r.ofPair s c) = true := by
      refine List.all_eq_true.mpr fun r hr => ?_
      simp only [enrolledIn, decide_eq_false_iff_not, Nat.not_lt, Nat.le_zero,
        List.countP_eq_zero] at hno hzero
      have hactive := hno r hr
      have hdropped := hzero r hr
      have hstatus := hv.status r hr
      simp only [RegistrationRow.activePair, RegistrationRow.droppedPair, RegistrationRow.ofPair]
        at hactive hdropped ⊢
      grind
    have hexists : db.courseExists c = true :=
      courseExists_iff.mpr ⟨course, findCourse_mem hc, findCourse_id hc⟩
    rw [insertRegistration, if_pos ⟨hs, hexists, hnew⟩]
    exact ⟨_, rfl⟩

theorem forCourse_activate {out : Int × Db} (h : db.activate s c = some out) :
    out.2.users = db.users ∧ out.2.courses = db.courses := by
  simp only [activate] at h
  split at h
  · cases h
    exact ⟨rfl, rfl⟩
  · obtain ⟨a, ha, rfl⟩ := Option.map_eq_some_iff.mp h
    have hforCourse := forCourse_insertRegistration ha c
    simp only [forCourse, Prod.mk.injEq] at hforCourse
    exact ⟨hforCourse.1, hforCourse.2.1⟩

/-- Giving a student a row changes nothing for another student. -/
theorem enrolledIn_activate_ne {out : Int × Db} (h : db.activate s c = some out) {s' : Int}
    (hs : s' ≠ s) : out.2.enrolledIn s' c = db.enrolledIn s' c := by
  simp only [activate] at h
  split at h
  · cases h
    have hroster := forCourse_reactivated db s c c
    simp only [forCourse, Prod.mk.injEq, if_pos] at hroster
    rw [enrolledIn_eq_roster, enrolledIn_eq_roster, hroster.2.2, List.countP_map]
    congr 2
    refine List.countP_congr fun x _ => ?_
    simp only [Function.comp_apply]
    grind
  · obtain ⟨a, ha, rfl⟩ := Option.map_eq_some_iff.mp h
    have hroster := forCourse_insertRegistration ha c
    simp only [forCourse, Prod.mk.injEq, if_pos] at hroster
    rw [enrolledIn_eq_roster, enrolledIn_eq_roster, hroster.2.2, List.countP_append]
    simp [Ne.symm hs]

theorem Valid.register (hv : db.Valid) (s c : Int) : (db.register s c).2.Valid := by
  have hsaved : ({ db } : Conn).saved = none := rfl
  have h := Conn.run_registerStudent 0 s c hsaved
  rw [← h]
  exact (Conn.run_valid _ ⟨hv, fun d hd => by cases hd⟩).db

/-- A registration with a free seat takes it, and leaves everything else that matters to
another student's registration. -/
theorem register_free (hv : db.Valid) {course : CourseRow} (hc : db.findCourse c = some course)
    (hs : db.userExists s = true) (hno : db.enrolledIn s c = false)
    (hfree : (db.active c : Int) < course.capacity) :
    (db.register s c).1.success = true ∧ (db.register s c).2.active c = db.active c + 1 ∧
      (db.register s c).2.users = db.users ∧ (db.register s c).2.courses = db.courses ∧
      ∀ s', s' ≠ s → (db.register s c).2.enrolledIn s' c = db.enrolledIn s' c := by
  obtain ⟨⟨id, db'⟩, hactivate⟩ := activate_isSome hv hc hs hno
  have hforCourse := forCourse_activate hactivate
  have hactive := active_activate hv hactivate c
  have hnotFull : ¬ course.capacity - db.active c ≤ 0 := by omega
  simp only [register, hc, hno, Bool.false_eq_true, if_false, if_neg hnotFull, hactivate]
  exact ⟨trivial, by simpa using hactive, hforCourse.1, hforCourse.2,
    fun s' hs' => enrolledIn_activate_ne hactivate hs'⟩

theorem register_full {course : CourseRow} (hc : db.findCourse c = some course)
    (hno : db.enrolledIn s c = false) (hfull : course.capacity ≤ (db.active c : Int)) :
    db.register s c = ({ error := "Course is full" }, db) := by
  have hle : course.capacity - db.active c ≤ 0 := by omega
  simp only [register, hc, hno, Bool.false_eq_true, if_false, if_pos hle]

end Db

/-- The refusal of a full course. -/
def Reply.courseFull : Reply → Bool
  | registration result => !result.success && result.error = "Course is full"
  | course _ | http _ => false

/-- One after another, the first students get the free seats and the others are refused. -/
theorem serial_race {ι : Type} {students : ι → Int} {c : Int} {course : CourseRow}
    {order : List (ι × Request)} {db : Db} (hv : db.Valid) (hc : db.findCourse c = some course)
    (horder : ∀ o ∈ order, o.2 = .registerStudent (students o.1) c)
    (hexist : ∀ o ∈ order, db.userExists (students o.1) = true)
    (hno : ∀ o ∈ order, db.enrolledIn (students o.1) c = false)
    (hnodup : (order.map fun o => students o.1).Nodup) :
    ((serial order db).1.countP fun a => a.2.success) =
        min order.length (course.capacity - db.active c).toNat ∧
      ((serial order db).1.countP fun a => a.2.courseFull) =
        order.length - min order.length (course.capacity - db.active c).toNat := by
  induction order generalizing db with
  | nil => simp [serial]
  | cons o order ih =>
    have ho := horder o List.mem_cons_self
    have hrest := fun p hp => horder p (List.mem_cons_of_mem _ hp)
    have hno' := hno o List.mem_cons_self
    obtain ⟨hfirst, hnodup'⟩ := List.nodup_cons.mp hnodup
    have hne : ∀ p ∈ order, students p.1 ≠ students o.1 := fun p hp heq =>
      hfirst (List.mem_map.mpr ⟨p, hp, heq⟩)
    have hserial : ∀ q : (ι × Request) × Reply → Bool, (serial (o :: order) db).1.countP q =
        (serial order (db.register (students o.1) c).2).1.countP q +
          if q (o, .registration (db.register (students o.1) c).1) then 1 else 0 := by
      intro q
      simp only [serial, Sequential.exec_cons, ho, Request.alone_registerStudent,
        List.countP_cons]
    -- the first one takes a seat, or finds none and leaves none
    by_cases hfree : (db.active c : Int) < course.capacity
    · obtain ⟨hsuccess, hactive, husers, hcourses, henrolled⟩ :=
        Db.register_free hv hc (hexist o List.mem_cons_self) hno' hfree
      have hih := ih (hv.register (students o.1) c) (by rw [Db.findCourse, hcourses]; exact hc)
        hrest (fun p hp => by
          rw [Db.userExists, husers]
          exact hexist p (List.mem_cons_of_mem _ hp))
        (fun p hp => by
          rw [henrolled _ (hne p hp)]
          exact hno p (List.mem_cons_of_mem _ hp)) hnodup'
      rw [hserial, hserial, hih.1, hih.2, hactive]
      simp only [Reply.success, Reply.courseFull, hsuccess, Bool.not_true, Bool.false_and,
        Bool.false_eq_true, if_true, if_false, List.length_cons]
      omega
    · have hfull := Db.register_full hc hno' (by omega)
      have hih := ih hv hc hrest (fun p hp => hexist p (List.mem_cons_of_mem _ hp))
        (fun p hp => hno p (List.mem_cons_of_mem _ hp)) hnodup'
      rw [hserial, hserial, hfull, hih.1, hih.2]
      simp only [Reply.success, Reply.courseFull, Bool.not_false, Bool.true_and, decide_true,
        Bool.false_eq_true, if_true, if_false, List.length_cons]
      omega

/-! ## Counting threads by their replies -/

section Count

variable {ι : Type} [DecidableEq ι] [Fintype ι]

/-- If every thread makes at most one call, counting threads by a property of their reply is
counting the replies. -/
theorem card_repliesTo {answers : List ((ι × Request) × Reply)}
    (hn : (answers.map fun a => a.1.1).Nodup) (p : Reply → Bool) :
    (Finset.univ.filter fun i => (repliesTo i answers).any (fun a => p a.2) = true).card =
      answers.countP fun a => p a.2 := by
  have hset : (Finset.univ.filter fun i => (repliesTo i answers).any (fun a => p a.2) = true) =
      ((answers.filter fun a => p a.2).map fun a => a.1.1).toFinset := by
    ext i
    rw [Finset.mem_filter, List.mem_toFinset, List.mem_map, List.any_eq_true]
    simp only [Finset.mem_univ, true_and, List.mem_filter, repliesTo, List.mem_filterMap]
    constructor
    · rintro ⟨a, ⟨b, hb, hba⟩, ha⟩
      split at hba
      · next hi =>
        cases hba
        exact ⟨b, ⟨hb, ha⟩, hi⟩
      · cases hba
    · rintro ⟨b, ⟨hb, hp⟩, hi⟩
      exact ⟨(b.1.2, b.2), ⟨b, hb, if_pos hi⟩, hp⟩
  rw [hset, List.toFinset_card_of_nodup (hn.sublist (List.filter_sublist.map _)), List.length_map,
    List.countP_eq_length_filter]

theorem length_of_callsOf {order : List (ι × Request)} {call : ι → Request}
    (h : ∀ i, callsOf i order = [call i]) : order.length = Fintype.card ι := by
  have hnodup : (order.map (·.1)).Nodup := nodup_of_callsOf fun i => by rw [h i]; rfl
  have hall : (order.map (·.1)).toFinset = Finset.univ := by
    refine Finset.eq_univ_iff_forall.mpr fun i => ?_
    have hmem : (i, call i) ∈ order := mem_callsOf.mp (h i ▸ List.mem_singleton.mpr rfl)
    exact List.mem_toFinset.mpr (List.mem_map_of_mem hmem)
  rw [← List.length_map (f := (·.1)), ← List.toFinset_card_of_nodup hnodup, hall,
    Finset.card_univ]

end Count

/-! ## Runs -/

/-- Every thread registers a student of its own, all of them existing, for a course without
active registrations. -/
structure EmptyCourseRace {ι : Type} (db : Db) (c : Int) (todo : ι → List Request)
    (students : ι → Int) (course : CourseRow) : Prop where
  calls : ∀ i, todo i = [.registerStudent (students i) c]
  distinct : Function.Injective students
  exist : ∀ i, db.userExists (students i) = true
  course : db.findCourse c = some course
  empty : db.active c = 0

theorem EmptyCourseRace.not_enrolled {ι : Type} {db : Db} {c : Int} {todo : ι → List Request}
    {students : ι → Int} {course : CourseRow} (h : EmptyCourseRace db c todo students course)
    (s : Int) : db.enrolledIn s c = false := by
  have hle : db.registrations.countP (RegistrationRow.activePair s c) ≤ db.active c := by
    refine List.countP_mono_left fun r _ hr => ?_
    simp only [RegistrationRow.activePair, decide_eq_true_eq] at hr
    simp [RegistrationRow.activeIn, hr]
  rw [h.empty] at hle
  simp only [Db.enrolledIn, decide_eq_false_iff_not, Nat.not_lt]
  exact hle

section Runs

variable {ι : Type} [DecidableEq ι] [Fintype ι]

/-- The number of threads that have finished a call with such a reply. -/
def Server.replied (s : Server ι) (p : Reply → Bool) : Nat :=
  (Finset.univ.filter fun i => (s.threads i).finished.any (fun a => p a.2) = true).card

/-- The course is within its capacity and no student has two rows for it; the calls are
linearizable in the order in which they acquired the mutex; and a race of `n` students for
`k` seats has `min n k` winners. -/
structure SingleCourse (conn : Conn) (c : Int) (todo : ι → List Request)
    (order : List (ι × Request)) (s : Server ι) : Prop where
  capacity : s.conn.db.Covered c
  pairs : ∀ student, s.conn.db.registrations.countP (RegistrationRow.ofPair student c) ≤ 1
  linearizable : Linearizable conn.db todo order s
  race : ∀ students course, EmptyCourseRace conn.db c todo students course → s.AllDone →
    s.replied Reply.success = min (Fintype.card ι) course.capacity.toNat ∧
      s.replied Reply.courseFull =
        Fintype.card ι - min (Fintype.card ι) course.capacity.toNat

theorem Linearizable.race {db : Db} {c : Int} {todo : ι → List Request}
    {order : List (ι × Request)} {s : Server ι} (h : Linearizable db todo order s)
    (hcalls : ∀ j, (s.threads j).calls = todo j) (hv : db.Valid) {students : ι → Int}
    {course : CourseRow} (hrace : EmptyCourseRace db c todo students course) (hdone : s.AllDone) :
    s.replied Reply.success = min (Fintype.card ι) course.capacity.toNat ∧
      s.replied Reply.courseFull =
        Fintype.card ι - min (Fintype.card ι) course.capacity.toNat := by
  have hcritical : ∀ j, (s.threads j).phase.critical = none := by
    intro j
    have hj := (hdone j).1
    cases hp : (s.threads j).phase with
    | idle => rfl
    | find | emplace | lock | body | unlock => rw [hp] at hj; cases hj
  obtain ⟨-, hfinished⟩ := h.free hcritical
  -- every thread has exactly its one call in the order
  have horder : ∀ i, callsOf i order = [.registerStudent (students i) c] := by
    intro i
    rw [← map_repliesTo i order db, ← hfinished i, ← hdone.calls i, hcalls i, hrace.calls i]
  have hcall : ∀ o ∈ order, o.2 = .registerStudent (students o.1) c := fun o ho => by
    have hmem := mem_callsOf.mpr ho
    rw [horder o.1] at hmem
    exact List.mem_singleton.mp hmem
  have hnodup : (order.map (·.1)).Nodup := nodup_of_callsOf fun i => by rw [horder i]; rfl
  have hstudents : (order.map fun o => students o.1).Nodup := by
    have hmap : order.map (fun o => students o.1) = (order.map (·.1)).map students := by
      rw [List.map_map]
      rfl
    rw [hmap]
    exact hnodup.map hrace.distinct
  obtain ⟨hsuccess, hfull⟩ := serial_race hv hrace.course hcall (fun o _ => hrace.exist o.1)
    (fun o _ => hrace.not_enrolled _) hstudents
  have hcount : ∀ p : Reply → Bool, s.replied p = (serial order db).1.countP fun a => p a.2 := by
    intro p
    have hthreads : ((serial order db).1.map fun a => a.1.1).Nodup := by
      have hmap : (serial order db).1.map (fun a => a.1.1) =
          ((serial order db).1.map (·.1)).map (·.1) := by rw [List.map_map]; rfl
      rw [hmap, map_serial]
      exact hnodup
    rw [← card_repliesTo hthreads p, Server.replied]
    congr 1
    refine Finset.filter_congr fun i _ => ?_
    rw [← hfinished i, List.any_reverse]
  rw [hcount, hcount, hsuccess, hfull, length_of_callsOf horder, hrace.empty]
  simp

end Runs

/-- Two students register for course 8. -/
def twoStudents : Fin 2 → List Request
  | 0 => [.registerStudent 5 8]
  | 1 => [.registerStudent 6 8]

/-- The two registrations on the seeded database under a schedule. -/
def twoStudentsRun (schedule : List (Fin 2 × Int)) :
    Option (List (Happening (Fin 2)) × Server (Fin 2)) :=
  replay Server.step [] (Server.start (startup true) twoStudents) schedule

theorem twoStudents_registersOn : ∀ i, ∀ r ∈ twoStudents i, RegistersOn 8 r := by
  intro i r hr
  match i with
  | 0 | 1 =>
    rw [List.mem_singleton.mp hr]
    rfl

/-- From tables within the capacity, with no transaction open, every run of registrations and
drops on one course is linearizable in the order in which they acquire the mutex of the course
and stays within its capacity. -/
theorem singleCourse_of_run {c : Int} {ι : Type} [DecidableEq ι] [Fintype ι] {conn : Conn}
    {todo : ι → List Request} (hs : conn.saved = none) (hv : conn.db.Valid)
    (hc : conn.db.Covered c) (htodo : ∀ i, ∀ r ∈ todo i, RegistersOn c r)
    {history : List (Happening ι)} {s : Server ι}
    (hr : (Server.start conn todo).Runs history s) :
    SingleCourse conn c todo (acquisitionOrder history) s := by
  obtain ⟨hrace, -, hlinear⟩ := linearized_of_run hs hv hc htodo hr
  have hlinearizable := hlinear.linearizable fun j => calls_of_run hr j
  exact {
    capacity := hrace.guarded.covered
    pairs := fun student => hrace.guarded.valid.db.count_le_one student c
    linearizable := hlinearizable
    race := fun students course hempty hdone =>
      hlinearizable.race (fun j => calls_of_run hr j) hv hempty hdone }

/-- The second student waits for the mutex while the first one registers. -/
theorem singleCourse_twoStudents : ∃ history s,
    twoStudentsRun (List.replicate 4 (0, 0) ++ List.replicate 2 (1, 0) ++
      List.replicate 11 (0, 0) ++ List.replicate 12 (1, 0)) = some (history, s) ∧
      SingleCourse (startup true) 8 twoStudents (acquisitionOrder history) s := by
  have hrun : ((twoStudentsRun (List.replicate 4 (0, 0) ++ List.replicate 2 (1, 0) ++
      List.replicate 11 (0, 0) ++ List.replicate 12 (1, 0))).map
        fun out => decide out.2.AllDone) = some true := by decide +kernel
  obtain ⟨⟨history, s⟩, hout, -⟩ := Option.map_eq_some_iff.mp hrun
  have hsound := startup_sound true
  exact ⟨history, s, hout, singleCourse_of_run hsound.idle hsound.valid (by decide +kernel)
    twoStudents_registersOn (replay_run .start hout)⟩

end AcademiaCr.Backend
