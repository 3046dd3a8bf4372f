import AcademiaCr.Library.Progress
import AcademiaCr.Library.Run
import AcademiaCr.Library.Tally

/-!
# Readers and writers

The third demonstration of `MutexDemo.cpp`: readers load `data` under a shared lock of a
`std::shared_mutex`, writers increment it under an exclusive one, and both count what they have
done. The second demonstration is the case without readers. There may be any number of threads
with any number of iterations.

## Main definitions

- `SharedMutex`, `SharedMutex.step`: the variables, the lock and the threads, one access at a time
- `SharedMutex.Inv`: who holds the lock, and what is still to come
- `sharedMutex_exact`: exclusion, and the result that is always reached
-/

namespace AcademiaCr.Systems

open Tally Transition

/-! ## The program -/

inductive Role where
  | reader
  | writer
  deriving DecidableEq

/-- Where a thread is in its iteration: the lock is taken between `outside` and `locked`. -/
inductive Place where
  | outside
  | locked
  | loaded (value : Int)
  | stored
  | counted
  deriving DecidableEq

/-- A thread with the iterations that it has not completed. -/
structure Accessor where
  role : Role
  left : Nat
  place : Place := .outside

/-- `data`, the counters, the state of `rw_mutex` and the threads. -/
structure SharedMutex (ι : Type) where
  data : Int := 0
  readCount : Int := 0
  writeCount : Int := 0
  shared : Nat := 0
  exclusive : Bool := false
  thread : ι → Accessor

/-- The thread holds the lock. -/
def Accessor.Inside (a : Accessor) : Prop := a.place ≠ .outside

/-- The steps that a thread has made in its iteration, at most. -/
def Place.rank : Place → Nat
  | .outside => 0
  | .locked => 1
  | .loaded _ => 2
  | .stored => 3
  | .counted => 4

/-- More than the steps that a thread still makes. -/
def Accessor.remaining (a : Accessor) : Nat := 5 * a.left + (4 - a.place.rank)

namespace SharedMutex

variable {ι : Type} [DecidableEq ι]

/-- The threads before their first iteration. -/
def start {ι : Type} (role : ι → Role) (iterations : ι → Nat) : SharedMutex ι where
  thread i := { role := role i, left := iterations i }

def move (s : SharedMutex ι) (i : ι) (place : Place) : SharedMutex ι :=
  { s with thread := Function.update s.thread i { s.thread i with place } }

/-- The end of an iteration. -/
def finish (s : SharedMutex ι) (i : ι) : SharedMutex ι :=
  { s with
    thread := Function.update s.thread i
      { role := (s.thread i).role, left := (s.thread i).left - 1 } }

/-- The next access of a thread. -/
def step (s : SharedMutex ι) (i : ι) : Option (SharedMutex ι) :=
  match (s.thread i).place, (s.thread i).role with
  | .outside, .reader =>
    if (s.thread i).left = 0 ∨ s.exclusive then none
    else some ({ s with shared := s.shared + 1 }.move i .locked)
  | .outside, .writer =>
    if (s.thread i).left = 0 ∨ s.exclusive ∨ s.shared ≠ 0 then none
    else some ({ s with exclusive := true }.move i .locked)
  | .locked, _ => some (s.move i (.loaded s.data))
  | .loaded _, .reader => some ({ s with readCount := s.readCount + 1 }.move i .counted)
  | .loaded value, .writer => some ({ s with data := value + 1 }.move i .stored)
  | .stored, _ => some ({ s with writeCount := s.writeCount + 1 }.move i .counted)
  | .counted, .reader => some ({ s with shared := s.shared - 1 }.finish i)
  | .counted, .writer => some ({ s with exclusive := false }.finish i)

/-- What a step does. -/
inductive Moves (s : SharedMutex ι) (i : ι) : SharedMutex ι → Prop
  | lockShared (hplace : (s.thread i).place = .outside) (hrole : (s.thread i).role = .reader)
    (hleft : (s.thread i).left ≠ 0) (hfree : s.exclusive = false) :
    Moves s i ({ s with shared := s.shared + 1 }.move i .locked)
  | lock (hplace : (s.thread i).place = .outside) (hrole : (s.thread i).role = .writer)
    (hleft : (s.thread i).left ≠ 0) (hfree : s.exclusive = false) (hshared : s.shared = 0) :
    Moves s i ({ s with exclusive := true }.move i .locked)
  | load (hplace : (s.thread i).place = .locked) : Moves s i (s.move i (.loaded s.data))
  | countRead {value : Int} (hplace : (s.thread i).place = .loaded value)
    (hrole : (s.thread i).role = .reader) :
    Moves s i ({ s with readCount := s.readCount + 1 }.move i .counted)
  | store {value : Int} (hplace : (s.thread i).place = .loaded value)
    (hrole : (s.thread i).role = .writer) :
    Moves s i ({ s with data := value + 1 }.move i .stored)
  | countWrite (hplace : (s.thread i).place = .stored) :
    Moves s i ({ s with writeCount := s.writeCount + 1 }.move i .counted)
  | unlockShared (hplace : (s.thread i).place = .counted) (hrole : (s.thread i).role = .reader) :
    Moves s i ({ s with shared := s.shared - 1 }.finish i)
  | unlock (hplace : (s.thread i).place = .counted) (hrole : (s.thread i).role = .writer) :
    Moves s i ({ s with exclusive := false }.finish i)

variable {s s' : SharedMutex ι} {i : ι}

theorem step_moves (h : s.step i = some s') : Moves s i s' := by
  rw [step] at h
  split at h
  · next hplace hrole =>
    split at h
    · cases h
    · next hfree =>
      cases h
      obtain ⟨hleft, hexclusive⟩ := not_or.mp hfree
      exact .lockShared hplace hrole hleft (Bool.eq_false_iff.mpr hexclusive)
  · next hplace hrole =>
    split at h
    · cases h
    · next hfree =>
      cases h
      obtain ⟨hleft, hfree⟩ := not_or.mp hfree
      obtain ⟨hexclusive, hshared⟩ := not_or.mp hfree
      exact .lock hplace hrole hleft (Bool.eq_false_iff.mpr hexclusive) (not_not.mp hshared)
  · next hplace => cases h; exact .load hplace
  · next hplace hrole => cases h; exact .countRead hplace hrole
  · next hplace hrole => cases h; exact .store hplace hrole
  · next hplace => cases h; exact .countWrite hplace
  · next hplace hrole => cases h; exact .unlockShared hplace hrole
  · next hplace hrole => cases h; exact .unlock hplace hrole

/-! ## Who holds the lock -/

section Fields

variable (s : SharedMutex ι) (i : ι) (place : Place)

@[simp] theorem move_self : (s.move i place).thread i = { s.thread i with place } :=
  Function.update_self ..

theorem move_ne {j : ι} (hj : j ≠ i) : (s.move i place).thread j = s.thread j :=
  Function.update_of_ne hj ..

@[simp] theorem move_role (j : ι) : ((s.move i place).thread j).role = (s.thread j).role := by
  by_cases hj : j = i
  · subst hj
    rw [move_self]
  · rw [move_ne s i place hj]

@[simp] theorem move_left (j : ι) : ((s.move i place).thread j).left = (s.thread j).left := by
  by_cases hj : j = i
  · subst hj
    rw [move_self]
  · rw [move_ne s i place hj]

@[simp] theorem finish_self :
    (s.finish i).thread i = { role := (s.thread i).role, left := (s.thread i).left - 1 } :=
  Function.update_self ..

theorem finish_ne {j : ι} (hj : j ≠ i) : (s.finish i).thread j = s.thread j :=
  Function.update_of_ne hj ..

@[simp] theorem finish_role (j : ι) : ((s.finish i).thread j).role = (s.thread j).role := by
  by_cases hj : j = i
  · subst hj
    rw [finish_self]
  · rw [finish_ne s i hj]

end Fields

/-- The threads whose accesses exclude each other. -/
structure Held (s : SharedMutex ι) : Prop where
  left_pos : ∀ i, (s.thread i).Inside → 0 < (s.thread i).left
  stored : ∀ i, (s.thread i).place = .stored → (s.thread i).role = .writer
  holder : s.exclusive = true ↔ ∃ i, (s.thread i).role = .writer ∧ (s.thread i).Inside
  alone : ∀ i j, (s.thread i).role = .writer → (s.thread i).Inside → (s.thread j).Inside → j = i

omit [DecidableEq ι] in
theorem Held.none_writing (h : s.Held) (hfree : s.exclusive = false) {i : ι}
    (hrole : (s.thread i).role = .writer) : ¬ (s.thread i).Inside := by
  intro hin
  rw [h.holder.mpr ⟨i, hrole, hin⟩] at hfree
  cases hfree

omit [DecidableEq ι] in
theorem Held.start (role : ι → Role) (iterations : ι → Nat) : (start role iterations).Held where
  left_pos _ h := absurd rfl h
  stored _ h := by cases h
  holder := ⟨nofun, fun ⟨_, _, h⟩ => absurd rfl h⟩
  alone _ _ _ h := absurd rfl h

/-- A thread that holds the lock goes on, and may change the variables. -/
theorem Held.move (h : s.Held) (place : Place) (hin : (s.thread i).Inside)
    (hplace : place ≠ .outside) (hstored : place = .stored → (s.thread i).role = .writer)
    (data readCount writeCount : Int) :
    ({ s with data, readCount, writeCount }.move i place).Held := by
  have hinside : ∀ j, (({ s with data, readCount, writeCount }.move i place).thread j).Inside ↔
      (s.thread j).Inside := by
    intro j
    by_cases hj : j = i
    · subst hj
      rw [move_self]
      exact ⟨fun _ => hin, fun _ => hplace⟩
    · rw [move_ne _ i place hj]
  constructor
  · intro j hj
    rw [move_left]
    exact h.left_pos j ((hinside j).mp hj)
  · intro j hj
    rw [move_role]
    by_cases hji : j = i
    · subst hji
      rw [move_self] at hj
      exact hstored hj
    · rw [move_ne _ i place hji] at hj
      exact h.stored j hj
  · refine h.holder.trans (exists_congr fun j => ?_)
    rw [move_role, hinside]
  · intro j k hrole hj hk
    rw [move_role] at hrole
    exact h.alone j k hrole ((hinside j).mp hj) ((hinside k).mp hk)

theorem Held.lock (h : s.Held) (hleft : (s.thread i).left ≠ 0) (shared : Nat) (exclusive : Bool)
    (hholder : exclusive = true ↔ (s.thread i).role = .writer)
    (hreader : (s.thread i).role = .reader → s.exclusive = false)
    (hwriter : (s.thread i).role = .writer → ∀ j, ¬ (s.thread j).Inside) :
    ({ s with shared, exclusive }.move i .locked).Held := by
  have hother : ∀ j, j ≠ i → ({ s with shared, exclusive }.move i .locked).thread j = s.thread j :=
    fun j hj => move_ne _ i .locked hj
  -- no writer is inside, whoever takes the lock
  have hnone : ∀ j, (s.thread j).role = .writer → ¬ (s.thread j).Inside := by
    intro j hj
    cases hi : (s.thread i).role with
    | reader => exact h.none_writing (hreader hi) hj
    | writer => exact hwriter hi j
  constructor
  · intro j hj
    rw [move_left]
    by_cases hji : j = i
    · subst hji
      exact Nat.pos_of_ne_zero hleft
    · rw [hother j hji] at hj
      exact h.left_pos j hj
  · intro j hj
    rw [move_role]
    by_cases hji : j = i
    · subst hji
      rw [move_self] at hj
      cases hj
    · rw [hother j hji] at hj
      exact h.stored j hj
  · refine hholder.trans ⟨fun hi => ⟨i, by rwa [move_role], ?_⟩, ?_⟩
    · rw [move_self]
      exact nofun
    · rintro ⟨j, hrole, hin⟩
      rw [move_role] at hrole
      by_cases hji : j = i
      · subst hji
        exact hrole
      · rw [hother j hji] at hin
        exact absurd hin (hnone j hrole)
  · intro j k hrole hj hk
    rw [move_role] at hrole
    by_cases hji : j = i
    · subst hji
      by_cases hkj : k = j
      · exact hkj
      · rw [hother k hkj] at hk
        exact absurd hk (hwriter hrole k)
    · rw [hother j hji] at hj
      exact absurd hj (hnone j hrole)

theorem Held.unlock (h : s.Held) (hin : (s.thread i).Inside) (shared : Nat) (exclusive : Bool)
    (hreader : (s.thread i).role = .reader → exclusive = s.exclusive)
    (hwriter : (s.thread i).role = .writer → exclusive = false) :
    ({ s with shared, exclusive }.finish i).Held := by
  have hother : ∀ j, j ≠ i → ({ s with shared, exclusive }.finish i).thread j = s.thread j :=
    fun j hj => finish_ne _ i hj
  have hout : ¬ (({ s with shared, exclusive }.finish i).thread i).Inside := by
    rw [finish_self]
    exact not_not.mpr rfl
  have hne : ∀ j, (({ s with shared, exclusive }.finish i).thread j).Inside →
      j ≠ i ∧ (s.thread j).Inside := by
    intro j hj
    have hji : j ≠ i := by
      rintro rfl
      exact hout hj
    rw [hother j hji] at hj
    exact ⟨hji, hj⟩
  constructor
  · intro j hj
    obtain ⟨hji, hold⟩ := hne j hj
    rw [hother j hji]
    exact h.left_pos j hold
  · intro j hj
    rw [finish_role]
    by_cases hji : j = i
    · subst hji
      rw [finish_self] at hj
      cases hj
    · rw [hother j hji] at hj
      exact h.stored j hj
  · cases hi : (s.thread i).role with
    | reader =>
      have hsame : exclusive = true ↔ s.exclusive = true := by rw [hreader hi]
      refine hsame.trans (h.holder.trans (exists_congr fun j => ?_))
      rw [finish_role]
      refine and_congr_right fun hrole => ?_
      have hji : j ≠ i := by
        rintro rfl
        rw [hi] at hrole
        cases hrole
      rw [hother j hji]
    | writer =>
      show exclusive = true ↔ _
      rw [hwriter hi]
      refine ⟨nofun, ?_⟩
      rintro ⟨j, hrole, hj⟩
      obtain ⟨hji, hold⟩ := hne j hj
      exact absurd (h.alone i j hi hin hold) hji
  · intro j k hrole hj hk
    rw [finish_role] at hrole
    exact h.alone j k hrole (hne j hj).2 (hne k hk).2

/-! ## What is still to come -/

/-- The shares of the lock that a thread holds. -/
def sharing (a : Accessor) : Int := if a.role = .reader ∧ a.place ≠ .outside then 1 else 0

/-- The loads that a thread has not counted. -/
def pendingReads (a : Accessor) : Int :=
  if a.role = .reader then a.left - (if a.place = .counted then 1 else 0) else 0

/-- The stores that a thread has not counted. -/
def pendingWrites (a : Accessor) : Int :=
  if a.role = .writer then a.left - (if a.place = .counted then 1 else 0) else 0

/-- The stores that a thread has not made. -/
def pendingStores (a : Accessor) : Int :=
  if a.role = .writer then a.left - (if a.place = .stored ∨ a.place = .counted then 1 else 0)
  else 0

/-- The lock, the variables and what the threads still do fit together; `reads` and `writes` are
the iterations of all readers and of all writers. -/
structure Inv [Fintype ι] (reads writes : Int) (s : SharedMutex ι) : Prop where
  held : s.Held
  loaded : ∀ i value, (s.thread i).place = .loaded value → value = s.data
  shared : s.shared = tally sharing s.thread
  readCount : s.readCount + tally pendingReads s.thread = reads
  writeCount : s.writeCount + tally pendingWrites s.thread = writes
  data : s.data + tally pendingStores s.thread = writes

section Invariant

variable [Fintype ι] {reads writes : Int}

theorem tally_thread (w : Accessor → Int) (a : Accessor) :
    tally w (Function.update s.thread i a) = tally w s.thread + w a - w (s.thread i) := by
  have h := tally_update w s.thread i a
  omega

omit [Fintype ι] in
/-- Unless somebody stores, what has been loaded stays the value. -/
theorem loaded_after (h : ∀ j value, (s.thread j).place = .loaded value → value = s.data)
    (hothers : ∀ j, j ≠ i → s'.thread j = s.thread j) (hdata : s'.data = s.data)
    (hi : ∀ value, (s'.thread i).place = .loaded value → value = s.data) (j : ι) (value : Int)
    (hj : (s'.thread j).place = .loaded value) : value = s'.data := by
  rw [hdata]
  by_cases hji : j = i
  · subst hji
    exact hi value hj
  · rw [hothers j hji] at hj
    exact h j value hj

/-- A thread moves: the variables and the lock change by what it contributes. -/
theorem Inv.of_thread (h : Inv reads writes s) (a : Accessor)
    (hthread : s'.thread = Function.update s.thread i a) (hheld : s'.Held)
    (hloaded : ∀ j value, (s'.thread j).place = .loaded value → value = s'.data)
    (hshared : (s'.shared : Int) - sharing a = s.shared - sharing (s.thread i))
    (hreads : s'.readCount + pendingReads a = s.readCount + pendingReads (s.thread i))
    (hwrites : s'.writeCount + pendingWrites a = s.writeCount + pendingWrites (s.thread i))
    (hstores : s'.data + pendingStores a = s.data + pendingStores (s.thread i)) :
    Inv reads writes s' := by
  have hshared' := h.shared
  have hreads' := h.readCount
  have hwrites' := h.writeCount
  have hstores' := h.data
  refine ⟨hheld, hloaded, ?_, ?_, ?_, ?_⟩ <;> rw [hthread, tally_thread] <;> omega

omit [DecidableEq ι] in
theorem Inv.shared_pos (h : Inv reads writes s) (hrole : (s.thread i).role = .reader)
    (hin : (s.thread i).Inside) : 0 < s.shared := by
  have hone : sharing (s.thread i) = 1 := if_pos ⟨hrole, hin⟩
  have hnonneg : ∀ a, 0 ≤ sharing a := by
    intro a
    rw [sharing]
    split <;> decide
  have hle : sharing (s.thread i) ≤ tally sharing s.thread :=
    Finset.single_le_sum (f := fun j => sharing (s.thread j)) (fun j _ => hnonneg _)
      (Finset.mem_univ i)
  have hshared := h.shared
  omega

theorem Inv.moves (h : Inv reads writes s) (hm : Moves s i s') : Inv reads writes s' := by
  have hheld := h.held
  have hloaded := h.loaded
  cases hm with
  | lockShared hplace hrole hleft hfree =>
    refine h.of_thread _ rfl (hheld.lock hleft _ _ ?_ (fun _ => hfree) ?_)
      (loaded_after hloaded (fun j hj => move_ne _ i _ hj) rfl ?_) ?_ ?_ ?_ ?_
    · simp only [hfree, hrole, Bool.false_eq_true, reduceCtorEq]
    · simp only [hrole, reduceCtorEq, false_imp_iff]
    · simp only [move_self, reduceCtorEq, false_imp_iff, implies_true]
    · simp [sharing, hrole, hplace, SharedMutex.move]
    · simp [pendingReads, hrole, hplace, SharedMutex.move]
    · simp [pendingWrites, hrole, SharedMutex.move]
    · simp [pendingStores, hrole, SharedMutex.move]
  | lock hplace hrole hleft hfree hshared =>
    refine h.of_thread _ rfl (hheld.lock hleft _ _ ?_ (fun _ => hfree) ?_)
      (loaded_after hloaded (fun j hj => move_ne _ i _ hj) rfl ?_) ?_ ?_ ?_ ?_
    · simp only [hrole]
    · rintro - j hin
      cases hj : (s.thread j).role with
      | reader =>
        have hpos := h.shared_pos hj hin
        omega
      | writer => exact hheld.none_writing hfree hj hin
    · simp only [move_self, reduceCtorEq, false_imp_iff, implies_true]
    · simp [sharing, hrole, SharedMutex.move]
    · simp [pendingReads, hrole, SharedMutex.move]
    · simp [pendingWrites, hrole, hplace, SharedMutex.move]
    · simp [pendingStores, hrole, hplace, SharedMutex.move]
  | load hplace =>
    have hin : (s.thread i).Inside := by simp only [Accessor.Inside, hplace, ne_eq, reduceCtorEq,
      not_false_eq_true]
    refine h.of_thread _ rfl (hheld.move (.loaded s.data) hin nofun nofun _ _ _)
      (loaded_after hloaded (fun j hj => move_ne _ i _ hj) rfl ?_) ?_ ?_ ?_ ?_
    · intro value hvalue
      rw [move_self] at hvalue
      cases hvalue
      rfl
    · simp [sharing, hplace, SharedMutex.move]
    · simp [pendingReads, hplace, SharedMutex.move]
    · simp [pendingWrites, hplace, SharedMutex.move]
    · simp [pendingStores, hplace, SharedMutex.move]
  | countRead hplace hrole =>
    have hin : (s.thread i).Inside := by simp only [Accessor.Inside, hplace, ne_eq, reduceCtorEq,
      not_false_eq_true]
    refine h.of_thread _ rfl (hheld.move .counted hin nofun nofun _ _ _)
      (loaded_after hloaded (fun j hj => move_ne _ i _ hj) rfl ?_) ?_ ?_ ?_ ?_
    · simp only [move_self, reduceCtorEq, false_imp_iff, implies_true]
    · simp [sharing, hrole, hplace, SharedMutex.move]
    · simp [pendingReads, hrole, hplace, SharedMutex.move]
    · simp [pendingWrites, hrole, SharedMutex.move]
    · simp [pendingStores, hrole, SharedMutex.move]
  | @store value hplace hrole =>
    have hin : (s.thread i).Inside := by simp only [Accessor.Inside, hplace, ne_eq, reduceCtorEq,
      not_false_eq_true]
    have hvalue := hloaded i value hplace
    refine h.of_thread _ rfl (hheld.move .stored hin nofun (fun _ => hrole) _ _ _) ?_ ?_ ?_ ?_ ?_
    · -- nobody else has loaded the value
      intro j v hj
      by_cases hji : j = i
      · subst hji
        rw [move_self] at hj
        cases hj
      · rw [move_ne _ i _ hji] at hj
        have hjin : (s.thread j).Inside := by
          rw [Accessor.Inside, hj]
          exact nofun
        exact absurd (hheld.alone i j hrole hin hjin) hji
    · simp [sharing, hrole, SharedMutex.move]
    · simp [pendingReads, hrole, SharedMutex.move]
    · simp [pendingWrites, hrole, hplace, SharedMutex.move]
    · simp [pendingStores, hrole, hplace, SharedMutex.move, hvalue]
  | countWrite hplace =>
    have hin : (s.thread i).Inside := by simp only [Accessor.Inside, hplace, ne_eq, reduceCtorEq,
      not_false_eq_true]
    have hrole := hheld.stored i hplace
    refine h.of_thread _ rfl (hheld.move .counted hin nofun nofun _ _ _)
      (loaded_after hloaded (fun j hj => move_ne _ i _ hj) rfl ?_) ?_ ?_ ?_ ?_
    · simp only [move_self, reduceCtorEq, false_imp_iff, implies_true]
    · simp [sharing, hrole, SharedMutex.move]
    · simp [pendingReads, hrole, SharedMutex.move]
    · simp [pendingWrites, hrole, hplace, SharedMutex.move]
    · simp [pendingStores, hrole, hplace, SharedMutex.move]
  | unlockShared hplace hrole =>
    have hin : (s.thread i).Inside := by simp only [Accessor.Inside, hplace, ne_eq, reduceCtorEq,
      not_false_eq_true]
    have hleft := hheld.left_pos i hin
    have hpos := h.shared_pos hrole hin
    refine h.of_thread _ rfl (hheld.unlock hin _ _ (fun _ => rfl) ?_)
      (loaded_after hloaded (fun j hj => finish_ne _ i hj) rfl ?_) ?_ ?_ ?_ ?_
    · simp only [hrole, reduceCtorEq, false_imp_iff]
    · simp only [finish_self, reduceCtorEq, false_imp_iff, implies_true]
    · simp [sharing, hrole, hplace, SharedMutex.finish]
      omega
    · simp [pendingReads, hrole, hplace, SharedMutex.finish]
      omega
    · simp [pendingWrites, hrole, SharedMutex.finish]
    · simp [pendingStores, hrole, SharedMutex.finish]
  | unlock hplace hrole =>
    have hin : (s.thread i).Inside := by simp only [Accessor.Inside, hplace, ne_eq, reduceCtorEq,
      not_false_eq_true]
    have hleft := hheld.left_pos i hin
    refine h.of_thread _ rfl (hheld.unlock hin _ _ ?_ fun _ => rfl)
      (loaded_after hloaded (fun j hj => finish_ne _ i hj) rfl ?_) ?_ ?_ ?_ ?_
    · simp only [hrole, reduceCtorEq, false_imp_iff]
    · simp only [finish_self, reduceCtorEq, false_imp_iff, implies_true]
    · simp [sharing, hrole, SharedMutex.finish]
    · simp [pendingReads, hrole, SharedMutex.finish]
    · simp [pendingWrites, hrole, hplace, SharedMutex.finish]
      omega
    · simp [pendingStores, hrole, hplace, SharedMutex.finish]
      omega

end Invariant

/-! ## The end -/

/-- Any of the threads goes on. -/
def Next (s s' : SharedMutex ι) : Prop := ∃ i, s.step i = some s'

/-- `for (auto& t : threads) t.join();` -/
def Joined (s : SharedMutex ι) : Prop := ∀ i, (s.thread i).left = 0

/-- A thread gets closer to its end with each of its steps. -/
theorem Held.remaining_lt (h : s.Held) (hm : Moves s i s') :
    (s'.thread i).remaining < (s.thread i).remaining ∧ ∀ j, j ≠ i → s'.thread j = s.thread j := by
  have hinside : ∀ {place}, (s.thread i).place = place → place ≠ .outside →
      0 < (s.thread i).left := by
    rintro place rfl hin
    exact h.left_pos i hin
  cases hm with
  | lockShared hplace =>
    refine ⟨?_, fun j hj => move_ne _ i _ hj⟩
    simp [Accessor.remaining, Place.rank, hplace]
  | lock hplace =>
    refine ⟨?_, fun j hj => move_ne _ i _ hj⟩
    simp [Accessor.remaining, Place.rank, hplace]
  | load hplace =>
    refine ⟨?_, fun j hj => move_ne _ i _ hj⟩
    simp [Accessor.remaining, Place.rank, hplace]
  | countRead hplace =>
    refine ⟨?_, fun j hj => move_ne _ i _ hj⟩
    simp [Accessor.remaining, Place.rank, hplace]
  | store hplace =>
    refine ⟨?_, fun j hj => move_ne _ i _ hj⟩
    simp [Accessor.remaining, Place.rank, hplace]
  | countWrite hplace =>
    refine ⟨?_, fun j hj => move_ne _ i _ hj⟩
    simp [Accessor.remaining, Place.rank, hplace]
  | unlockShared hplace =>
    have hleft := hinside hplace nofun
    refine ⟨?_, fun j hj => finish_ne _ i hj⟩
    simp [Accessor.remaining, Place.rank, hplace]
    omega
  | unlock hplace =>
    have hleft := hinside hplace nofun
    refine ⟨?_, fun j hj => finish_ne _ i hj⟩
    simp [Accessor.remaining, Place.rank, hplace]
    omega

/-- The threads cannot go on for ever. -/
theorem wellFounded_next [Finite ι] :
    WellFounded fun s' s : SharedMutex ι => s.Held ∧ Next s s' := by
  have hwf := wellFounded_advances (ι := ι) (measure Accessor.remaining).wf
  refine Subrelation.wf ?_ (InvImage.wf SharedMutex.thread hwf)
  rintro s' s ⟨hheld, i, hs⟩
  exact ⟨i, hheld.remaining_lt (step_moves hs)⟩

/-- A thread that holds the lock never waits. -/
theorem step_of_inside (hin : (s.thread i).Inside) : ∃ s', s.step i = some s' := by
  rw [step]
  split
  · next hplace _ => exact absurd hplace hin
  · next hplace _ => exact absurd hplace hin
  all_goals exact ⟨_, rfl⟩

theorem step_of_free (hleft : (s.thread i).left ≠ 0) (hfree : s.exclusive = false)
    (hshared : s.shared = 0) (hout : ¬ (s.thread i).Inside) : ∃ s', s.step i = some s' := by
  have hplace : (s.thread i).place = .outside := not_not.mp hout
  cases hrole : (s.thread i).role with
  | reader =>
    rw [step, hplace, hrole]
    exact ⟨_, if_neg (not_or.mpr ⟨hleft, Bool.eq_false_iff.mp hfree⟩)⟩
  | writer =>
    rw [step, hplace, hrole]
    exact ⟨_, if_neg (not_or.mpr ⟨hleft, not_or.mpr
      ⟨Bool.eq_false_iff.mp hfree, not_not.mpr hshared⟩⟩)⟩

/-- The iterations of all threads of a role. -/
def total [Fintype ι] (role : ι → Role) (iterations : ι → Nat) (r : Role) : Int :=
  ∑ i, if role i = r then (iterations i : Int) else 0

section Ending

variable [Fintype ι] {reads writes : Int}

omit [DecidableEq ι] in
theorem Inv.start (role : ι → Role) (iterations : ι → Nat) :
    Inv (total role iterations .reader) (total role iterations .writer)
      (start role iterations) where
  held := .start role iterations
  loaded _ _ h := by cases h
  shared := by
    have hnone : tally sharing (SharedMutex.start role iterations).thread = 0 :=
      tally_eq_zero fun _ => if_neg fun h => h.2 rfl
    exact hnone.symm
  readCount := by
    refine (Int.zero_add _).trans (Finset.sum_congr rfl fun j _ => ?_)
    simp [pendingReads, SharedMutex.start]
  writeCount := by
    refine (Int.zero_add _).trans (Finset.sum_congr rfl fun j _ => ?_)
    simp [pendingWrites, SharedMutex.start]
  data := by
    refine (Int.zero_add _).trans (Finset.sum_congr rfl fun j _ => ?_)
    simp [pendingStores, SharedMutex.start]

/-- Whoever waits, waits for a thread that goes on. -/
theorem Inv.next (h : Inv reads writes s) (hjoined : ¬ s.Joined) : ∃ s', Next s s' := by
  obtain ⟨i, hleft⟩ := not_forall.mp hjoined
  by_cases hin : ∃ j, (s.thread j).Inside
  · obtain ⟨j, hj⟩ := hin
    obtain ⟨s', hs⟩ := step_of_inside hj
    exact ⟨s', j, hs⟩
  · have hout : ∀ j, ¬ (s.thread j).Inside := not_exists.mp hin
    have hfree : s.exclusive = false := by
      by_contra hexclusive
      obtain ⟨j, -, hj⟩ := h.held.holder.mp (Bool.eq_true_of_not_eq_false hexclusive)
      exact hout j hj
    have hshared : s.shared = 0 := by
      have hzero : tally sharing s.thread = 0 :=
        tally_eq_zero fun j => if_neg fun hj => hout j hj.2
      have htally := h.shared
      omega
    obtain ⟨s', hs⟩ := step_of_free hleft hfree hshared (hout i)
    exact ⟨s', i, hs⟩

omit [DecidableEq ι] in
/-- What is there when all threads have joined. -/
theorem Inv.result (h : Inv reads writes s) (hjoined : s.Joined) :
    s.readCount = reads ∧ s.writeCount = writes ∧ s.data = writes := by
  have hplace : ∀ i, (s.thread i).place = .outside := by
    intro i
    by_contra hin
    have hleft := h.held.left_pos i hin
    rw [hjoined i] at hleft
    exact absurd hleft (Nat.lt_irrefl 0)
  have hreads : tally pendingReads s.thread = 0 :=
    tally_eq_zero fun i => by simp [pendingReads, hjoined i, hplace i]
  have hwrites : tally pendingWrites s.thread = 0 :=
    tally_eq_zero fun i => by simp [pendingWrites, hjoined i, hplace i]
  have hstores : tally pendingStores s.thread = 0 :=
    tally_eq_zero fun i => by simp [pendingStores, hjoined i, hplace i]
  have hreadCount := h.readCount
  have hwriteCount := h.writeCount
  have hdata := h.data
  omega

end Ending

/-- Whatever the schedule has been, a writer that holds the lock is alone with it and every value
loaded is the current one; and whatever it will be, all threads join, and the counters and `data`
are then the numbers of iterations. -/
theorem sharedMutex_exact [Fintype ι] (role : ι → Role) (iterations : ι → Nat)
    {history : List (Event (SharedMutex ι) ι)} {s : SharedMutex ι}
    (hr : Run step (start role iterations) history s) :
    (∀ i j, (s.thread i).role = .writer → (s.thread i).Inside → (s.thread j).Inside → j = i) ∧
      (∀ i value, (s.thread i).place = .loaded value → value = s.data) ∧
      Inevitable Next (fun last => last.Joined ∧
        last.readCount = total role iterations .reader ∧
        last.writeCount = total role iterations .writer ∧
        last.data = total role iterations .writer) s := by
  have hinv : Inv (total role iterations .reader) (total role iterations .writer) s :=
    hr.invariant (A := fun _ => True) (.start role iterations)
      (fun _ _ _ h hs _ => h.moves (step_moves hs)) fun _ _ => trivial
  refine ⟨hinv.held.alone, hinv.loaded, ?_⟩
  have hwf : WellFounded fun s' s : SharedMutex ι =>
      Inv (total role iterations .reader) (total role iterations .writer) s ∧ Next s s' :=
    Subrelation.wf (fun h => ⟨h.1.held, h.2⟩) (wellFounded_next (ι := ι))
  refine Inevitable.of_wellFounded hwf (fun _ _ h hs => ?_) (fun s h hgoal => ?_) hinv
  · obtain ⟨i, hs⟩ := hs
    exact h.moves (step_moves hs)
  · exact h.next fun hjoined => hgoal ⟨hjoined, h.result hjoined⟩

/-- A writer and a reader. -/
def writerAndReader (isWriter : Bool) : Role := if isWriter then .writer else .reader

/-- While the reader has the lock, the writer waits for it, and both end. -/
theorem writerAndReader_exact : ∃ history s,
    Run step (start writerAndReader fun _ => 1) history s ∧ s.shared = 1 ∧
      s.step true = none ∧ Inevitable Next (fun last => last.Joined ∧
        last.readCount = total writerAndReader (fun _ => 1) .reader ∧
        last.writeCount = total writerAndReader (fun _ => 1) .writer ∧
        last.data = total writerAndReader (fun _ => 1) .writer) s := by
  have hlock : (start writerAndReader fun _ => 1).step false = some
      ({ start writerAndReader fun _ => 1 with shared := 1 }.move false .locked) := rfl
  exact ⟨_, _, .snoc .start hlock, rfl, rfl,
    (sharedMutex_exact writerAndReader (fun _ => 1) (.snoc .start hlock)).2.2⟩

end SharedMutex

end AcademiaCr.Systems
