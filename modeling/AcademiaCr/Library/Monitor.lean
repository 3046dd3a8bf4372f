import Mathlib.Data.Int.Order.Basic
import AcademiaCr.Library.Tally

/-!
# Threads that wait for conditions

Threads that share a mutex and wait on a condition variable. A thread in the waiting set is
woken by a notification or for no reason, and then acts again. What a condition variable is for
is that nothing is left to do while its threads wait: the units of work are no more than the
threads that are about to look for them.

## Main definitions

- `Thread`: what a thread does next, with its local data
- `broadcast`, `notify`: what notifications do to the waiting set
- `Signalled`: no wake-up has been lost, with a rule for each thing that can happen
- `items`: the units of work, if they are numbered
-/

namespace Monitor

open Tally

/-- A thread is about to act, in the waiting set or at its end. -/
inductive Thread (α : Type) where
  | active (a : α)
  | waiting (a : α)
  | finished
  deriving DecidableEq, Repr

namespace Thread

variable {α : Type} {t : Thread α} {a : α}

/-- The thread has left the waiting set. -/
def awake : Thread α → Thread α
  | waiting a => active a
  | t => t

@[simp] theorem awake_active : (active a).awake = active a := rfl

@[simp] theorem awake_waiting : (waiting a).awake = active a := rfl

@[simp] theorem awake_finished : (finished : Thread α).awake = finished := rfl

@[simp] theorem awake_ne_waiting : t.awake ≠ waiting a := by
  cases t <;> simp

@[simp] theorem awake_eq_finished : t.awake = finished ↔ t = finished := by
  cases t <;> simp

/-- The thread is in the waiting set. -/
def Waits (t : Thread α) : Prop := ∃ a, t = waiting a

@[simp] theorem waits_waiting : (waiting a).Waits := ⟨a, rfl⟩

@[simp] theorem not_waits_active : ¬ (active a).Waits := fun ⟨_, h⟩ => nomatch h

@[simp] theorem not_waits_finished : ¬ (finished : Thread α).Waits := fun ⟨_, h⟩ => nomatch h

@[simp] theorem not_waits_awake : ¬ t.awake.Waits := fun ⟨_, h⟩ => awake_ne_waiting h

instance : Decidable t.Waits :=
  match t with
  | active _ => .isFalse not_waits_active
  | waiting _ => .isTrue waits_waiting
  | finished => .isFalse not_waits_finished

end Thread

section

variable {ι α : Type}

/-- `notify_all`, or `pthread_cond_broadcast`. -/
def broadcast (threads : ι → Thread α) : ι → Thread α := fun i => (threads i).awake

variable [DecidableEq ι] [Fintype ι]

/-- `notify_one`, which wakes some thread of the waiting set unless the set is empty. -/
def notify (threads : ι → Thread α) : Option ι → Option (ι → Thread α)
  | some i =>
    if (threads i).Waits then some (Function.update threads i (threads i).awake) else none
  | none => if ∀ i, ¬ (threads i).Waits then some threads else none

/-- What `notify_one` can do. -/
theorem notify_cases {threads threads' : ι → Thread α} {woken : Option ι}
    (h : notify threads woken = some threads') :
    (∃ i a, threads i = .waiting a ∧ threads' = Function.update threads i (.active a)) ∨
      (threads' = threads ∧ ∀ i, ¬ (threads i).Waits) := by
  cases woken with
  | some i =>
    rw [notify] at h
    split_ifs at h with hwaits
    obtain ⟨a, ha⟩ := hwaits
    refine .inl ⟨i, a, ha, ?_⟩
    rw [← Option.some.inj h, ha, Thread.awake_waiting]
  | none =>
    rw [notify] at h
    split_ifs at h with hnone
    exact .inr ⟨(Option.some.inj h).symm, hnone⟩

/-- A thread that is notified has left the waiting set, and the others stay as they are. -/
theorem notify_apply {threads threads' : ι → Thread α} {woken : Option ι}
    (h : notify threads woken = some threads') (i : ι) :
    threads' i = threads i ∨ threads' i = (threads i).awake := by
  obtain ⟨j, a, hj, rfl⟩ | ⟨rfl, -⟩ := notify_cases h
  · by_cases hij : i = j
    · subst hij
      rw [Function.update_self, hj]
      exact .inr rfl
    · exact .inl (Function.update_of_ne hij _ _)
  · exact .inl rfl

/-- A sum to which a thread contributes alike before and after a wake-up. -/
theorem tally_notify {M : Type} [AddCommMonoid M] {weight : Thread α → M}
    (hweight : ∀ t, weight t.awake = weight t) {threads threads' : ι → Thread α}
    {woken : Option ι} (h : notify threads woken = some threads') :
    tally weight threads' = tally weight threads := by
  refine Finset.sum_congr rfl fun i _ => ?_
  rcases notify_apply h i with hi | hi <;> rw [hi]
  exact hweight _

end

/-! ## Wake-ups -/

section

variable {ι α : Type} [Fintype ι]

/-- Whether a thread is about to look for work, given which local data mean so. -/
def looks (p : α → Bool) : Thread α → Nat
  | .active a => if p a then 1 else 0
  | _ => 0

/-- While a thread waits, the units of work are no more than the threads about to look. -/
def Signalled (p : α → Bool) (work : Nat) (threads : ι → Thread α) : Prop :=
  (∃ i, (threads i).Waits) → work ≤ tally (looks p) threads

namespace Signalled

variable {p : α → Bool} {work : Nat} {threads threads' : ι → Thread α}

theorem zero (threads : ι → Thread α) : Signalled p 0 threads := fun _ => Nat.zero_le _

theorem mono (h : Signalled p work threads) {less : Nat} (hle : less ≤ work) :
    Signalled p less threads := fun hwaits => hle.trans (h hwaits)

/-- Nobody waits after `notify_all`. -/
theorem of_broadcast (threads : ι → Thread α) : Signalled p work (broadcast threads) :=
  fun ⟨_, hwaits⟩ => absurd hwaits Thread.not_waits_awake

variable [DecidableEq ι]

/-- A thread that does not go to wait brings and takes what it looks for. -/
theorem update (h : Signalled p work threads) {i : ι} {t : Thread α} (ht : ¬ t.Waits)
    {work' : Nat} (hwork : work' + looks p (threads i) ≤ work + looks p t) :
    Signalled p work' (Function.update threads i t) := by
  rintro ⟨j, hj⟩
  have hji : j ≠ i := by
    rintro rfl
    rw [Function.update_self] at hj
    exact ht hj
  rw [Function.update_of_ne hji] at hj
  have htally := tally_update (looks p) threads i t
  have hold := h ⟨j, hj⟩
  omega

/-- A spurious wake-up. -/
theorem wakeUp (h : Signalled p work threads) {i : ι} {a : α} (hi : threads i = .waiting a) :
    Signalled p work (Function.update threads i (.active a)) :=
  h.update Thread.not_waits_active (by rw [hi]; exact Nat.le_add_right _ _)

/-- A unit of work with a notification. -/
theorem of_notify (h : Signalled p work threads) {woken : Option ι}
    (hnotify : notify threads woken = some threads')
    (hlooks : ∀ i a, threads i = .waiting a → p a = true) : Signalled p (work + 1) threads' := by
  obtain ⟨i, a, hi, rfl⟩ | ⟨rfl, hnone⟩ := notify_cases hnotify
  · refine h.update Thread.not_waits_active ?_
    show work + 1 + looks p (threads i) ≤ work + if p a then 1 else 0
    rw [hi, if_pos (hlooks i a hi)]
    exact Nat.le_refl _
  · exact fun ⟨i, hi⟩ => absurd hi (hnone i)

end Signalled

/-- If all threads wait or have finished and one waits, there is no work. -/
theorem Signalled.eq_zero {p : α → Bool} {work : Nat} {threads : ι → Thread α}
    (h : Signalled p work threads) (hrest : ∀ i, threads i = .finished ∨ (threads i).Waits)
    (hwaits : ∃ i, (threads i).Waits) : work = 0 := by
  have hlooks : tally (looks p) threads = 0 := by
    refine tally_eq_zero fun i => ?_
    rcases hrest i with hi | ⟨a, hi⟩ <;> rw [hi] <;> rfl
  exact Nat.le_zero.mp (hlooks ▸ h hwaits)

end

/-! ## Numbered work -/

/-- The items `0`, …, `n - 1`. -/
def items (n : Int) : List Int := (List.range n.toNat).map Int.ofNat

theorem items_succ {n : Int} (h : 0 ≤ n) : items (n + 1) = items n ++ [n] := by
  have hsucc : (n + 1).toNat = n.toNat + 1 := by omega
  have hlast : Int.ofNat n.toNat = n := Int.toNat_of_nonneg h
  rw [items, hsucc, List.range_succ, List.map_append, List.map_singleton, hlast]
  rfl

theorem items_nodup (n : Int) : (items n).Nodup :=
  List.nodup_range.map fun _ _ => Int.ofNat.inj

end Monitor
