import AcademiaCr.Backend.Sqlite

/-!
# The schema constraints

What `initialize_schema` has SQLite enforce, as one predicate on the tables, and that every
statement keeps it. It therefore holds in every state of every program on the connection,
whatever other programs do between its calls.
-/

namespace AcademiaCr.Backend

open Resumption

/-- The `PRIMARY KEY`, `UNIQUE`, `CHECK` and `FOREIGN KEY` constraints of the schema. -/
structure Db.Valid (db : Db) : Prop where
  userIds : (db.users.map (·.id)).Nodup
  usernames : (db.users.map (·.username)).Nodup
  userPos : ∀ u ∈ db.users, 0 < u.id
  role : ∀ u ∈ db.users, u.role ∈ ["admin", "faculty", "student"]
  courseIds : (db.courses.map (·.id)).Nodup
  courseCodes : (db.courses.map (·.courseCode)).Nodup
  capacity : ∀ c ∈ db.courses, 0 < c.capacity
  owner : ∀ c ∈ db.courses, ∀ f, c.facultyId = some f → ∃ u ∈ db.users, u.id = f
  registrationIds : (db.registrations.map (·.id)).Nodup
  registrationPos : ∀ r ∈ db.registrations, 0 < r.id
  pairs : (db.registrations.map fun r => (r.studentId, r.courseId)).Nodup
  status : ∀ r ∈ db.registrations, r.status = "active" ∨ r.status = "dropped"
  student : ∀ r ∈ db.registrations, ∃ u ∈ db.users, u.id = r.studentId
  course : ∀ r ∈ db.registrations, ∃ c ∈ db.courses, c.id = r.courseId
  sessionTokens : (db.sessions.map (·.token)).Nodup
  sessionUser : ∀ s ∈ db.sessions, ∃ u ∈ db.users, u.id = s.userId

namespace Db

theorem valid_empty : ({} : Db).Valid := by
  constructor <;> simp

theorem userExists_iff {db : Db} {id : Int} :
    db.userExists id = true ↔ ∃ u ∈ db.users, u.id = id := by
  simp [userExists]

theorem courseExists_iff {db : Db} {id : Int} :
    db.courseExists id = true ↔ ∃ c ∈ db.courses, c.id = id := by
  simp [courseExists]

/-! ## Registrations -/

/-- Rewriting the status of some rows with an admissible one keeps the constraints. -/
theorem valid_setStatus {db : Db} (h : db.Valid) (p : RegistrationRow → Bool) {st : String}
    (hst : st = "active" ∨ st = "dropped") :
    { db with registrations :=
        Table.update p (RegistrationRow.setStatus st) db.registrations }.Valid := by
  have hmem : ∀ x ∈ Table.update p (RegistrationRow.setStatus st) db.registrations,
      ∃ r ∈ db.registrations, x.id = r.id ∧ x.studentId = r.studentId ∧
        x.courseId = r.courseId ∧ (x.status = "active" ∨ x.status = "dropped") := by
    intro x hx
    obtain ⟨r, hr, rfl⟩ := Table.mem_update.mp hx
    refine ⟨r, hr, ?_⟩
    split
    · exact ⟨rfl, rfl, rfl, hst⟩
    · exact ⟨rfl, rfl, rfl, h.status r hr⟩
  refine { h with registrationIds := ?_, registrationPos := ?_, pairs := ?_, status := ?_,
                  student := ?_, course := ?_ }
  · exact Table.nodup_update_key h.registrationIds fun _ _ => rfl
  · intro x hx
    obtain ⟨r, hr, hid, -⟩ := hmem x hx
    rw [hid]
    exact h.registrationPos r hr
  · exact Table.nodup_update_key h.pairs fun _ _ => rfl
  · intro x hx
    obtain ⟨r, hr, -, -, -, hs⟩ := hmem x hx
    exact hs
  · intro x hx
    obtain ⟨r, hr, -, hs, -⟩ := hmem x hx
    rw [hs]
    exact h.student r hr
  · intro x hx
    obtain ⟨r, hr, -, -, hc, -⟩ := hmem x hx
    rw [hc]
    exact h.course r hr

theorem valid_insertRegistration {db : Db} (h : db.Valid) {s c : Int} {a : Applied}
    (ha : db.insertRegistration s c = some a) : a.db.Valid := by
  simp only [insertRegistration] at ha
  split at ha
  · next hc =>
    obtain ⟨hs, hc, hnew⟩ := hc
    cases ha
    have hfresh : ∀ x ∈ db.registrations,
        x.id ≠ Table.nextKey db.registrationSeq (db.registrations.map (·.id)) := fun x hx =>
      (Table.lt_nextKey (List.mem_map_of_mem hx)).ne
    have hpair : ∀ x ∈ db.registrations, (x.studentId, x.courseId) ≠ (s, c) := by
      intro x hx heq
      have := List.all_eq_true.mp hnew x hx
      simp only [Prod.mk.injEq] at heq
      simp [RegistrationRow.ofPair, heq] at this
    refine { h with registrationIds := ?_, registrationPos := ?_, pairs := ?_, status := ?_,
                    student := ?_, course := ?_ }
    · exact Table.nodup_append_key h.registrationIds hfresh
    · intro x hx
      obtain hx | hx := List.mem_append.mp hx
      · exact h.registrationPos x hx
      · rw [List.mem_singleton.mp hx]
        exact Table.nextKey_pos _ _
    · exact Table.nodup_append_key h.pairs hpair
    · intro x hx
      obtain hx | hx := List.mem_append.mp hx
      · exact h.status x hx
      · rw [List.mem_singleton.mp hx]
        exact Or.inl rfl
    · intro x hx
      obtain hx | hx := List.mem_append.mp hx
      · exact h.student x hx
      · rw [List.mem_singleton.mp hx]
        exact userExists_iff.mp hs
    · intro x hx
      obtain hx | hx := List.mem_append.mp hx
      · exact h.course x hx
      · rw [List.mem_singleton.mp hx]
        exact courseExists_iff.mp hc
  · cases ha

/-! ## Courses -/

theorem valid_insertCourse {db : Db} (h : db.Valid) {code name schedule : String}
    {credits facultyId capacity : Int} {a : Applied}
    (ha : db.insertCourse code name credits facultyId capacity schedule = some a) :
    a.db.Valid := by
  simp only [insertCourse] at ha
  split at ha
  · next hc =>
    obtain ⟨hcode, hcap, hf⟩ := hc
    cases ha
    refine { h with courseIds := ?_, courseCodes := ?_, capacity := ?_, owner := ?_, course := ?_ }
    · exact Table.nodup_append_key h.courseIds fun x hx =>
        (Table.lt_nextKey (List.mem_map_of_mem hx)).ne
    · refine Table.nodup_append_key h.courseCodes fun x hx => ?_
      simpa using List.all_eq_true.mp hcode x hx
    · intro x hx
      obtain hx | hx := List.mem_append.mp hx
      · exact h.capacity x hx
      · rw [List.mem_singleton.mp hx]
        exact hcap
    · intro x hx f hxf
      obtain hx | hx := List.mem_append.mp hx
      · exact h.owner x hx f hxf
      · rw [List.mem_singleton.mp hx] at hxf
        cases hxf
        exact userExists_iff.mp hf
    · intro r hr
      obtain ⟨c, hc, he⟩ := h.course r hr
      exact ⟨c, List.mem_append_left _ hc, he⟩
  · cases ha

theorem valid_updateCourse {db : Db} (h : db.Valid) {name schedule : String}
    {credits facultyId capacity id : Int} {a : Applied}
    (ha : db.updateCourse name credits facultyId capacity schedule id = some a) : a.db.Valid := by
  simp only [updateCourse] at ha
  split at ha
  · cases ha
  · next hc =>
    cases ha
    -- the new values are only checked when a row is written
    have hnew : ∀ c ∈ db.courses, c.id = id → 0 < capacity ∧ db.userExists facultyId = true := by
      intro c hmem hid
      have := courseExists_iff.mpr ⟨c, hmem, hid⟩
      tauto
    refine { h with courseIds := ?_, courseCodes := ?_, capacity := ?_, owner := ?_, course := ?_ }
    · exact Table.nodup_update_key h.courseIds fun _ _ => rfl
    · exact Table.nodup_update_key h.courseCodes fun _ _ => rfl
    · intro x hx
      obtain ⟨c, hc, rfl⟩ := Table.mem_update.mp hx
      split
      · next hid => exact (hnew c hc (by simpa using hid)).1
      · exact h.capacity c hc
    · intro x hx f hxf
      obtain ⟨c, hc, rfl⟩ := Table.mem_update.mp hx
      split at hxf
      · next hid =>
        cases hxf
        exact userExists_iff.mp (hnew c hc (by simpa using hid)).2
      · exact h.owner c hc f hxf
    · intro r hr
      obtain ⟨c, hc, he⟩ := h.course r hr
      refine ⟨_, Table.mem_update.mpr ⟨c, hc, rfl⟩, ?_⟩
      rw [← he]
      split <;> rfl

theorem valid_deleteCourse {db : Db} (h : db.Valid) (id : Int) {a : Applied}
    (ha : db.deleteCourse id = some a) : a.db.Valid := by
  cases ha
  have hregs : ∀ r, r ∈ (if db.courseExists id = true then
      db.registrations.filter fun r => r.courseId ≠ id else db.registrations) →
      r ∈ db.registrations ∧ r.courseId ≠ id := by
    intro r hr
    split at hr
    · simpa using List.mem_filter.mp hr
    · next hno =>
      refine ⟨hr, fun hid => hno (courseExists_iff.mpr ?_)⟩
      rw [← hid]
      exact h.course r hr
  refine { h with courseIds := ?_, courseCodes := ?_, capacity := ?_, owner := ?_,
                  registrationIds := ?_, registrationPos := ?_, pairs := ?_, status := ?_,
                  student := ?_, course := ?_ }
  · exact Table.nodup_filter_key h.courseIds _
  · exact Table.nodup_filter_key h.courseCodes _
  · exact fun c hc => h.capacity c (List.mem_filter.mp hc).1
  · exact fun c hc => h.owner c (List.mem_filter.mp hc).1
  · dsimp only
    split
    · exact Table.nodup_filter_key h.registrationIds _
    · exact h.registrationIds
  · exact fun r hr => h.registrationPos r (hregs r hr).1
  · dsimp only
    split
    · exact Table.nodup_filter_key h.pairs _
    · exact h.pairs
  · exact fun r hr => h.status r (hregs r hr).1
  · exact fun r hr => h.student r (hregs r hr).1
  · intro r hr
    obtain ⟨hr, hne⟩ := hregs r hr
    obtain ⟨c, hc, he⟩ := h.course r hr
    exact ⟨c, List.mem_filter.mpr ⟨hc, by simpa [he] using hne⟩, he⟩

/-! ## Users -/

theorem valid_insertUser {db : Db} (h : db.Valid) {username hash role name email : String}
    {active : Int} {a : Applied}
    (ha : db.insertUser username hash role name email active = some a) : a.db.Valid := by
  simp only [insertUser] at ha
  split at ha
  · next hc =>
    obtain ⟨hname, hrole⟩ := hc
    cases ha
    have hkeep : ∀ {k : Int}, (∃ u ∈ db.users, u.id = k) → ∀ x, ∃ u ∈ db.users ++ [x], u.id = k :=
      fun ⟨u, hu, he⟩ x => ⟨u, List.mem_append_left _ hu, he⟩
    refine { h with userIds := ?_, usernames := ?_, userPos := ?_, role := ?_, owner := ?_,
                    student := ?_, sessionUser := ?_ }
    · exact Table.nodup_append_key h.userIds fun x hx =>
        (Table.lt_nextKey (List.mem_map_of_mem hx)).ne
    · refine Table.nodup_append_key h.usernames fun x hx => ?_
      simpa using List.all_eq_true.mp hname x hx
    · intro x hx
      obtain hx | hx := List.mem_append.mp hx
      · exact h.userPos x hx
      · rw [List.mem_singleton.mp hx]
        exact Table.nextKey_pos _ _
    · intro x hx
      obtain hx | hx := List.mem_append.mp hx
      · exact h.role x hx
      · rw [List.mem_singleton.mp hx]
        exact hrole
    · exact fun c hc f hf => hkeep (h.owner c hc f hf) _
    · exact fun r hr => hkeep (h.student r hr) _
    · exact fun s hs => hkeep (h.sessionUser s hs) _
  · cases ha

/-- Rewriting columns of a user other than its keys and role keeps the constraints. -/
theorem valid_rewriteUser {db : Db} (h : db.Valid) (p : UserRow → Bool) {f : UserRow → UserRow}
    (hid : ∀ u, (f u).id = u.id) (hname : ∀ u, (f u).username = u.username)
    (hrole : ∀ u, (f u).role = u.role) :
    { db with users := Table.update p f db.users }.Valid := by
  have hkeep : ∀ {k : Int}, (∃ u ∈ db.users, u.id = k) →
      ∃ u ∈ Table.update p f db.users, u.id = k := by
    rintro k ⟨u, hu, rfl⟩
    refine ⟨_, Table.mem_update.mpr ⟨u, hu, rfl⟩, ?_⟩
    split
    · exact hid u
    · rfl
  refine { h with userIds := ?_, usernames := ?_, userPos := ?_, role := ?_, owner := ?_,
                  student := ?_, sessionUser := ?_ }
  · exact Table.nodup_update_key h.userIds fun u _ => hid u
  · exact Table.nodup_update_key h.usernames fun u _ => hname u
  · intro x hx
    obtain ⟨u, hu, rfl⟩ := Table.mem_update.mp hx
    split
    · rw [hid]
      exact h.userPos u hu
    · exact h.userPos u hu
  · intro x hx
    obtain ⟨u, hu, rfl⟩ := Table.mem_update.mp hx
    split
    · rw [hrole]
      exact h.role u hu
    · exact h.role u hu
  · exact fun c hc f hf => hkeep (h.owner c hc f hf)
  · exact fun r hr => hkeep (h.student r hr)
  · exact fun s hs => hkeep (h.sessionUser s hs)

theorem valid_deleteUser {db : Db} (h : db.Valid) (id : Int) {a : Applied}
    (ha : db.deleteUser id = some a) : a.db.Valid := by
  cases ha
  dsimp only
  split
  · -- rows of the user are deleted in cascade, courses lose their owner
    have hkeep : ∀ {k : Int}, k ≠ id → (∃ u ∈ db.users, u.id = k) →
        ∃ u ∈ db.users.filter fun u => u.id ≠ id, u.id = k := by
      rintro k hk ⟨u, hu, rfl⟩
      exact ⟨u, List.mem_filter.mpr ⟨hu, by simpa using hk⟩, rfl⟩
    have hcourses : ∀ c ∈ Table.update (fun c => c.facultyId = some id)
        (fun c => { c with facultyId := none }) db.courses, ∃ c₀ ∈ db.courses,
          c.id = c₀.id ∧ c.capacity = c₀.capacity ∧
          (∀ f, c.facultyId = some f → c₀.facultyId = some f ∧ f ≠ id) := by
      intro c hc
      obtain ⟨c₀, hc₀, rfl⟩ := Table.mem_update.mp hc
      refine ⟨c₀, hc₀, ?_⟩
      split
      · exact ⟨rfl, rfl, fun f hf => by cases hf⟩
      · next hne =>
        refine ⟨rfl, rfl, fun f hf => ⟨hf, ?_⟩⟩
        rintro rfl
        exact hne (by simpa using hf)
    exact {
      userIds := Table.nodup_filter_key h.userIds _
      usernames := Table.nodup_filter_key h.usernames _
      userPos := fun u hu => h.userPos u (List.mem_filter.mp hu).1
      role := fun u hu => h.role u (List.mem_filter.mp hu).1
      courseIds := Table.nodup_update_key h.courseIds fun _ _ => rfl
      courseCodes := Table.nodup_update_key h.courseCodes fun _ _ => rfl
      capacity := by
        intro c hc
        obtain ⟨c₀, hc₀, -, hcap, -⟩ := hcourses c hc
        rw [hcap]
        exact h.capacity c₀ hc₀
      owner := by
        intro c hc f hf
        obtain ⟨c₀, hc₀, -, -, hown⟩ := hcourses c hc
        exact hkeep (hown f hf).2 (h.owner c₀ hc₀ f (hown f hf).1)
      registrationIds := Table.nodup_filter_key h.registrationIds _
      registrationPos := fun r hr => h.registrationPos r (List.mem_filter.mp hr).1
      pairs := Table.nodup_filter_key h.pairs _
      status := fun r hr => h.status r (List.mem_filter.mp hr).1
      student := by
        intro r hr
        obtain ⟨hr, hne⟩ := List.mem_filter.mp hr
        exact hkeep (by simpa using hne) (h.student r hr)
      course := by
        intro r hr
        obtain ⟨c, hc, he⟩ := h.course r (List.mem_filter.mp hr).1
        refine ⟨_, Table.mem_update.mpr ⟨c, hc, rfl⟩, ?_⟩
        rw [← he]
        split <;> rfl
      sessionTokens := Table.nodup_filter_key h.sessionTokens _
      sessionUser := by
        intro s hs
        obtain ⟨hs, hne⟩ := List.mem_filter.mp hs
        exact hkeep (by simpa using hne) (h.sessionUser s hs) }
  · exact h

/-! ## Sessions -/

theorem valid_filterSessions {db : Db} (h : db.Valid) (p : SessionRow → Bool) :
    { db with sessions := db.sessions.filter p }.Valid :=
  { h with
    sessionTokens := Table.nodup_filter_key h.sessionTokens _
    sessionUser := fun s hs => h.sessionUser s (List.mem_filter.mp hs).1 }

theorem valid_insertSession {db : Db} (h : db.Valid) {now : Int} {token : String} {userId : Int}
    {a : Applied} (ha : db.insertSession now token userId = some a) : a.db.Valid := by
  simp only [insertSession] at ha
  split at ha
  · next hu =>
    cases ha
    refine { h with sessionTokens := ?_, sessionUser := ?_ }
    · refine Table.nodup_append_key (Table.nodup_filter_key h.sessionTokens _) fun x hx => ?_
      simpa using (List.mem_filter.mp hx).2
    · intro s hs
      obtain hs | hs := List.mem_append.mp hs
      · exact h.sessionUser s (List.mem_filter.mp hs).1
      · rw [List.mem_singleton.mp hs]
        exact userExists_iff.mp hu
  · cases ha

end Db

/-- Every statement keeps the constraints. -/
theorem Write.apply_valid {now : Int} {db : Db} (h : db.Valid) (w : Write) {a : Applied}
    (ha : w.apply now db = some a) : a.db.Valid := by
  cases w with
  | reactivateRegistration s c =>
    cases ha
    exact Db.valid_setStatus h _ (Or.inl rfl)
  | insertRegistration s c => exact Db.valid_insertRegistration h ha
  | dropRegistration s c =>
    cases ha
    exact Db.valid_setStatus h _ (Or.inr rfl)
  | insertCourse code name credits facultyId capacity schedule => exact Db.valid_insertCourse h ha
  | updateCourse name credits facultyId capacity schedule id => exact Db.valid_updateCourse h ha
  | deleteCourse id => exact Db.valid_deleteCourse h id ha
  | insertUser username hash role name email active => exact Db.valid_insertUser h ha
  | updateUser name email active id =>
    cases ha
    exact Db.valid_rewriteUser h _ (fun _ => rfl) (fun _ => rfl) fun _ => rfl
  | updatePassword hash id =>
    cases ha
    exact Db.valid_rewriteUser h _ (fun _ => rfl) (fun _ => rfl) fun _ => rfl
  | deleteUser id => exact Db.valid_deleteUser h id ha
  | insertSession token userId => exact Db.valid_insertSession h ha
  | deleteSession token =>
    cases ha
    exact Db.valid_filterSessions h _
  | cleanupSessions =>
    cases ha
    exact Db.valid_filterSessions h _

theorem Write.effect_valid {now : Int} {db : Db} (h : db.Valid) (w : Write) :
    (w.effect now db).Valid := by
  simp only [effect]
  cases ha : w.apply now db with
  | none => exact h
  | some a => exact w.apply_valid h ha

namespace Conn

/-- Both the tables in force and those a rollback would restore satisfy the constraints. -/
structure Valid (conn : Conn) : Prop where
  db : conn.db.Valid
  saved : ∀ d, conn.saved = some d → d.Valid

/-- Every call keeps the constraints. -/
theorem exec_valid (now : Int) {β : Type} (e : SqlCall β) {conn : Conn} (h : conn.Valid) :
    (conn.exec now e).2.Valid := by
  cases e with
  | beginImmediate =>
    simp only [exec]
    split
    · exact h
    · exact ⟨h.db, fun d hd => by cases hd; exact h.db⟩
  | commit =>
    simp only [exec]
    split
    · exact ⟨h.db, fun d hd => by cases hd⟩
    · exact h
  | rollback =>
    simp only [exec]
    split
    · next d hd => exact ⟨h.saved d hd, fun d hd => by cases hd⟩
    · exact h
  | query q => exact h
  | write w =>
    simp only [exec, write]
    split
    · exact ⟨h.db, h.saved⟩
    · next a ha => exact ⟨w.apply_valid h.db ha, h.saved⟩
  | changes => exact h
  | lastInsertRowid => exact h

/-- Every program keeps the constraints. -/
theorem run_valid {α : Type} {now : Int} (p : Sql α) {conn : Conn} (h : conn.Valid) :
    (conn.run now p).2.Valid := by
  induction p generalizing conn with
  | ret a => exact h
  | call e next ih => exact ih _ (exec_valid now e h)

end Conn

end AcademiaCr.Backend
