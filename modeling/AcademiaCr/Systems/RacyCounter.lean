import AcademiaCr.Library.Run
import Mathlib.Logic.Function.Basic

/-!
# The counter that nothing protects

The first demonstration of `MutexDemo.cpp`: two threads increment a counter `ITERATIONS` times
each, without a mutex. The data race makes the program undefined in C++; `++counter` is taken here
as one load of the value and one store of the next one, and the other thread may act between these.
Which results are possible is determined exactly: however many iterations there are, all but two
increments can be lost.

## Main definitions

- `RacyCounter`, `RacyCounter.step`: the counter and the threads, one access at a time
- `RacyCounter.Inv`: how small and how large the counter can be
- `racyCounter_iff`: the possible results
-/

namespace AcademiaCr.Systems

open Transition

/-- A thread: the iterations it has not completed, and the value it has loaded in this one. -/
structure Incrementer where
  left : Nat
  loaded : Option Int := none

/-- The counter and the threads `t1` and `t2`. -/
structure RacyCounter where
  counter : Int
  thread : Bool → Incrementer

namespace RacyCounter

def start (iterations : Nat) : RacyCounter where
  counter := 0
  thread _ := { left := iterations }

/-- A thread stores the value after the one it has loaded. -/
def store (s : RacyCounter) (t : Bool) (value : Int) : RacyCounter where
  counter := value + 1
  thread := Function.update s.thread t { left := (s.thread t).left - 1 }

/-- A thread loads the value. -/
def load (s : RacyCounter) (t : Bool) : RacyCounter where
  counter := s.counter
  thread := Function.update s.thread t { left := (s.thread t).left, loaded := some s.counter }

/-- The next access of a thread. -/
def step (s : RacyCounter) (t : Bool) : Option RacyCounter :=
  match (s.thread t).loaded with
  | some value => some (s.store t value)
  | none => if (s.thread t).left = 0 then none else some (s.load t)

/-- `t1.join(); t2.join();` -/
def Joined (s : RacyCounter) : Prop := ∀ t, (s.thread t).left = 0

/-! ## Bounds -/

/-- The stores so far. -/
def stores (iterations : Nat) (s : RacyCounter) : Int :=
  2 * iterations - (s.thread true).left - (s.thread false).left

/-- A store leaves at least 1, and at least 2 from the second iteration of a thread on: then the
thread has loaded what some store has left. -/
structure Inv (iterations : Nat) (s : RacyCounter) : Prop where
  left_le : ∀ t, (s.thread t).left ≤ iterations
  left_pos : ∀ t value, (s.thread t).loaded = some value → 0 < (s.thread t).left
  nonneg : 0 ≤ s.counter
  loaded_nonneg : ∀ t value, (s.thread t).loaded = some value → 0 ≤ value
  stored : ∀ t, (s.thread t).left < iterations → 1 ≤ s.counter
  loaded_stored : ∀ t value, (s.thread t).loaded = some value →
    (s.thread t).left < iterations → 1 ≤ value
  second : 2 ≤ iterations → 2 ≤ s.counter ∨ ∃ t, 0 < (s.thread t).left
  counter_le : s.counter ≤ s.stores iterations
  loaded_le : ∀ t value, (s.thread t).loaded = some value → value ≤ s.stores iterations

variable {iterations : Nat} {s s' : RacyCounter} {t : Bool}

theorem Inv.start (iterations : Nat) : Inv iterations (start iterations) where
  left_le _ := Nat.le_refl _
  left_pos _ _ h := by cases h
  nonneg := Int.le_refl _
  loaded_nonneg _ _ h := by cases h
  stored _ h := absurd h (Nat.lt_irrefl _)
  loaded_stored _ _ h := by cases h
  second h := Or.inr ⟨true, Nat.lt_of_lt_of_le Nat.two_pos h⟩
  counter_le := by
    show (0 : Int) ≤ 2 * iterations - iterations - iterations
    omega
  loaded_le _ _ h := by cases h

section Fields

variable (s : RacyCounter) (t : Bool) (value : Int)

@[simp] theorem store_self :
    (s.store t value).thread t = { left := (s.thread t).left - 1 } := Function.update_self ..

theorem store_ne {u : Bool} (hu : u ≠ t) : (s.store t value).thread u = s.thread u :=
  Function.update_of_ne hu ..

@[simp] theorem load_self :
    (s.load t).thread t = { left := (s.thread t).left, loaded := some s.counter } :=
  Function.update_self ..

theorem load_ne {u : Bool} (hu : u ≠ t) : (s.load t).thread u = s.thread u :=
  Function.update_of_ne hu ..

theorem load_left (u : Bool) : ((s.load t).thread u).left = (s.thread u).left := by
  by_cases hu : u = t
  · subst hu
    rw [load_self]
  · rw [load_ne s t hu]

theorem load_stores : (s.load t).stores iterations = s.stores iterations := by
  rw [stores, stores, load_left, load_left]

theorem store_stores (hleft : 0 < (s.thread t).left) :
    (s.store t value).stores iterations = s.stores iterations + 1 := by
  cases t with
  | true =>
    rw [stores, stores, store_self, store_ne s true value Bool.false_ne_true]
    dsimp only
    omega
  | false =>
    rw [stores, stores, store_self, store_ne s false value Bool.false_ne_true.symm]
    dsimp only
    omega

end Fields

theorem Inv.load (h : Inv iterations s) (hleft : (s.thread t).left ≠ 0) :
    Inv iterations (s.load t) where
  left_le u := by
    rw [load_left]
    exact h.left_le u
  left_pos u value hu := by
    rw [load_left]
    by_cases hut : u = t
    · subst hut
      exact Nat.pos_of_ne_zero hleft
    · rw [load_ne s t hut] at hu
      exact h.left_pos u value hu
  nonneg := h.nonneg
  loaded_nonneg u value hu := by
    by_cases hut : u = t
    · subst hut
      rw [load_self] at hu
      cases hu
      exact h.nonneg
    · rw [load_ne s t hut] at hu
      exact h.loaded_nonneg u value hu
  stored u hu := by
    rw [load_left] at hu
    exact h.stored u hu
  loaded_stored u value hu hless := by
    rw [load_left] at hless
    by_cases hut : u = t
    · subst hut
      rw [load_self] at hu
      cases hu
      exact h.stored u hless
    · rw [load_ne s t hut] at hu
      exact h.loaded_stored u value hu hless
  second htwo := by
    obtain hcounter | ⟨u, hu⟩ := h.second htwo
    · exact Or.inl hcounter
    · exact Or.inr ⟨u, by rwa [load_left]⟩
  counter_le := by
    rw [load_stores]
    exact h.counter_le
  loaded_le u value hu := by
    rw [load_stores]
    by_cases hut : u = t
    · subst hut
      rw [load_self] at hu
      cases hu
      exact h.counter_le
    · rw [load_ne s t hut] at hu
      exact h.loaded_le u value hu

theorem Inv.store (h : Inv iterations s) {value : Int} (ht : (s.thread t).loaded = some value) :
    Inv iterations (s.store t value) := by
  have hleft := h.left_pos t value ht
  have hnonneg := h.loaded_nonneg t value ht
  have hvalue := h.loaded_le t value ht
  have hcounter : (s.store t value).counter = value + 1 := rfl
  have hstores : (s.store t value).stores iterations = s.stores iterations + 1 :=
    store_stores s t value hleft
  constructor
  · intro u
    by_cases hut : u = t
    · subst hut
      rw [store_self]
      exact Nat.le_trans (Nat.sub_le _ _) (h.left_le u)
    · rw [store_ne s t value hut]
      exact h.left_le u
  · intro u v hu
    by_cases hut : u = t
    · subst hut
      rw [store_self] at hu
      cases hu
    · rw [store_ne s t value hut] at hu ⊢
      exact h.left_pos u v hu
  · omega
  · intro u v hu
    by_cases hut : u = t
    · subst hut
      rw [store_self] at hu
      cases hu
    · rw [store_ne s t value hut] at hu
      exact h.loaded_nonneg u v hu
  · intro u _
    omega
  · intro u v hu hless
    by_cases hut : u = t
    · subst hut
      rw [store_self] at hu
      cases hu
    · rw [store_ne s t value hut] at hu hless
      exact h.loaded_stored u v hu hless
  · intro htwo
    by_cases hfirst : (s.thread t).left < iterations
    · have hone := h.loaded_stored t value ht hfirst
      exact Or.inl (by omega)
    · refine Or.inr ⟨t, ?_⟩
      rw [store_self]
      show 0 < (s.thread t).left - 1
      omega
  · omega
  · intro u v hu
    by_cases hut : u = t
    · subst hut
      rw [store_self] at hu
      cases hu
    · rw [store_ne s t value hut] at hu
      have hv := h.loaded_le u v hu
      omega

theorem Inv.step (h : Inv iterations s) (hs : s.step t = some s') : Inv iterations s' := by
  rw [RacyCounter.step] at hs
  split at hs
  · next value ht =>
    cases hs
    exact h.store ht
  · split at hs
    · cases hs
    · next hleft =>
      cases hs
      exact h.load hleft

/-- The result is at least 2, if there are two iterations, and at most the number of all
increments. -/
theorem Inv.result (h : Inv iterations s) (hjoined : s.Joined) :
    (min 2 iterations : Nat) ≤ s.counter ∧ s.counter ≤ 2 * iterations := by
  have hle := h.counter_le
  rw [stores, hjoined true, hjoined false] at hle
  refine ⟨?_, by omega⟩
  have hnonneg := h.nonneg
  have hstored : 0 < iterations → 1 ≤ s.counter := fun hpos =>
    h.stored true (by rw [hjoined true]; exact hpos)
  have hsecond : 2 ≤ iterations → 2 ≤ s.counter := fun htwo => by
    obtain hcounter | ⟨t, ht⟩ := h.second htwo
    · exact hcounter
    · rw [hjoined t] at ht
      exact absurd ht (Nat.lt_irrefl 0)
  omega

/-! ## All of these results are possible -/

/-- The counter with `t1` and `t2` at these places. -/
def pair (counter : Int) (t1 t2 : Incrementer) : RacyCounter :=
  ⟨counter, fun t => bif t then t1 else t2⟩

/-- The threads get from one state to another one. -/
def Leads (s s' : RacyCounter) : Prop :=
  ∀ s₀ history, Run step s₀ history s → ∃ history', Run step s₀ history' s'

theorem Leads.refl (s : RacyCounter) : Leads s s := fun _ history hr => ⟨history, hr⟩

theorem Leads.trans {s₁ s₂ s₃ : RacyCounter} (h : Leads s₁ s₂) (h' : Leads s₂ s₃) :
    Leads s₁ s₃ := by
  intro s₀ history hr
  obtain ⟨history', hr'⟩ := h s₀ history hr
  exact h' s₀ history' hr'

theorem leads_step (hs : s.step t = some s') : Leads s s' := fun _ _ hr => ⟨_, hr.snoc hs⟩

section Moves

variable (counter value : Int) (left : Nat) (other : Incrementer)

theorem update_pair_true (t1 t1' t2 : Incrementer) :
    Function.update (fun t => bif t then t1 else t2) true t1' =
      fun t => bif t then t1' else t2 := by
  funext t
  cases t <;> rfl

theorem update_pair_false (t1 t2 t2' : Incrementer) :
    Function.update (fun t => bif t then t1 else t2) false t2' =
      fun t => bif t then t1 else t2' := by
  funext t
  cases t <;> rfl

theorem leads_load_true : Leads (pair counter { left := left + 1 } other)
    (pair counter { left := left + 1, loaded := some counter } other) := by
  refine leads_step (t := true) ?_
  show some (RacyCounter.mk _ _) = _
  rw [pair, update_pair_true]
  rfl

theorem leads_store_true : Leads (pair counter { left := left + 1, loaded := some value } other)
    (pair (value + 1) { left } other) := by
  refine leads_step (t := true) ?_
  show some (RacyCounter.mk _ _) = _
  rw [pair, update_pair_true]
  rfl

theorem leads_load_false : Leads (pair counter other { left := left + 1 })
    (pair counter other { left := left + 1, loaded := some counter }) := by
  refine leads_step (t := false) ?_
  show some (RacyCounter.mk _ _) = _
  rw [pair, update_pair_false]
  rfl

theorem leads_store_false : Leads (pair counter other { left := left + 1, loaded := some value })
    (pair (value + 1) other { left }) := by
  refine leads_step (t := false) ?_
  show some (RacyCounter.mk _ _) = _
  rw [pair, update_pair_false]
  rfl

/-- Iterations of one thread without the other one acting in between. -/
theorem leads_iterations_true (k : Nat) : Leads (pair counter { left := left + k } other)
    (pair (counter + k) { left } other) := by
  induction k generalizing counter with
  | zero => simpa using Leads.refl _
  | succ k ih =>
    have hone := (leads_load_true counter (left + k) other).trans
      (leads_store_true counter counter (left + k) other)
    have hcounter : counter + ((k + 1 : Nat) : Int) = counter + 1 + k := by
      push_cast
      omega
    rw [hcounter]
    exact hone.trans (ih (counter + 1))

theorem leads_iterations_false (k : Nat) : Leads (pair counter other { left := left + k })
    (pair (counter + k) other { left }) := by
  induction k generalizing counter with
  | zero => simpa using Leads.refl _
  | succ k ih =>
    have hone := (leads_load_false counter (left + k) other).trans
      (leads_store_false counter counter (left + k) other)
    have hcounter : counter + ((k + 1 : Nat) : Int) = counter + 1 + k := by
      push_cast
      omega
    rw [hcounter]
    exact hone.trans (ih (counter + 1))

end Moves

/-- `t1` overwrites `lost₂` increments of `t2` with its first one, and `t2` overwrites `lost₁`
increments of `t1` with its last one. -/
theorem leads_lossy (lost₁ kept₁ lost₂ kept₂ : Nat) (h : lost₁ + kept₁ = lost₂ + kept₂) :
    Leads (start (lost₁ + kept₁ + 1)) (pair (kept₁ + kept₂ + 2) { left := 0 } { left := 0 }) := by
  have hstart : start (lost₁ + kept₁ + 1) =
      pair 0 { left := lost₁ + kept₁ + 1 } { left := kept₂ + 1 + lost₂ } := by
    have hleft : kept₂ + 1 + lost₂ = lost₁ + kept₁ + 1 := by omega
    rw [hleft]
    exact congrArg (RacyCounter.mk 0) (funext fun t => by cases t <;> rfl)
  rw [hstart]
  refine (leads_load_true 0 (lost₁ + kept₁) _).trans ?_
  refine (leads_iterations_false 0 (kept₂ + 1) _ lost₂).trans ?_
  refine (leads_store_true _ 0 (lost₁ + kept₁) _).trans ?_
  have hkept : kept₂ + 1 = 1 + kept₂ := Nat.add_comm _ _
  rw [hkept]
  refine (leads_iterations_false _ 1 _ kept₂).trans ?_
  refine (leads_load_false _ 0 _).trans ?_
  have hlost : lost₁ + kept₁ = kept₁ + lost₁ := Nat.add_comm _ _
  rw [hlost]
  refine (leads_iterations_true _ kept₁ _ lost₁).trans ?_
  refine (leads_store_false _ _ 0 _).trans ?_
  have hzero : kept₁ = 0 + kept₁ := (Nat.zero_add _).symm
  have hcounter : (kept₁ + kept₂ + 2 : Int) = 0 + 1 + kept₂ + 1 + kept₁ := by omega
  rw [hcounter]
  have hlast := leads_iterations_true (0 + 1 + kept₂ + 1) 0 { left := 0 } kept₁
  rwa [← hzero] at hlast

/-- The results that two threads can leave in a counter that they increment without a mutex:
all from 2, or from 1 or 0 if there are no two iterations, to the number of increments. -/
theorem racyCounter_iff (iterations : Nat) (value : Int) :
    (∃ history s, Run step (start iterations) history s ∧ s.Joined ∧ s.counter = value) ↔
      (min 2 iterations : Nat) ≤ value ∧ value ≤ 2 * iterations := by
  constructor
  · rintro ⟨history, s, hr, hjoined, rfl⟩
    have hinv : Inv iterations s := hr.invariant (A := fun _ => True) (.start iterations)
      (fun _ _ _ h hs _ => h.step hs) fun _ _ => trivial
    exact hinv.result hjoined
  · rintro ⟨hlow, hhigh⟩
    have hjoined : ∀ c, (pair c { left := 0 } { left := 0 }).Joined := by
      rintro c t
      cases t <;> rfl
    obtain hzero | hone | ⟨n, hn, htwo⟩ : iterations = 0 ∨ (iterations = 1 ∧ value = 1) ∨
        ∃ n, iterations = n + 1 ∧ 2 ≤ value := by
      obtain _ | n := iterations
      · exact Or.inl rfl
      · by_cases htwo : 2 ≤ value
        · exact Or.inr (Or.inr ⟨n, rfl, htwo⟩)
        · exact Or.inr (Or.inl (by omega))
    · subst hzero
      exact ⟨[], start 0, .start, fun _ => rfl, show (0 : Int) = value by omega⟩
    · -- both threads load the 0
      obtain ⟨rfl, rfl⟩ := hone
      have hleads := ((leads_load_true 0 0 { left := 0 + 1 }).trans
        (leads_iterations_false 0 0 _ 1)).trans (leads_store_true _ 0 0 { left := 0 })
      have hstart : start 1 = pair 0 { left := 0 + 1 } { left := 0 + 1 } :=
        congrArg (RacyCounter.mk 0) (funext fun t => by cases t <;> rfl)
      rw [← hstart] at hleads
      obtain ⟨history, hr⟩ := hleads _ _ .start
      exact ⟨history, _, hr, hjoined _, rfl⟩
    · subst hn
      have hkept₁ := Nat.min_le_right (value - 2).toNat n
      have hkept₂ : (value - 2).toNat - min (value - 2).toNat n ≤ n := by omega
      have hleads := leads_lossy (n - min (value - 2).toNat n) (min (value - 2).toNat n)
        (n - ((value - 2).toNat - min (value - 2).toNat n))
        ((value - 2).toNat - min (value - 2).toNat n) (by omega)
      rw [Nat.sub_add_cancel hkept₁] at hleads
      obtain ⟨history, hr⟩ := hleads _ _ .start
      refine ⟨history, _, hr, hjoined _, ?_⟩
      show ((min (value - 2).toNat n : Nat) : Int) +
        (((value - 2).toNat - min (value - 2).toNat n : Nat) : Int) + 2 = value
      omega

end RacyCounter

end AcademiaCr.Systems
