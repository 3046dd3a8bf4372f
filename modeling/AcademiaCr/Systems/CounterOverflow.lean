import AcademiaCr.Systems.BufferWakeups

/-!
# A counter of items that wraps around

Every producer fetches one number beyond the items. With as many items as an `int` can count, the
first such number is followed by negative ones, which a producer takes for items. The last of
them is the end marker.

## Main definitions

- `BoundedBuffer.Between`: the buffer is empty and nobody waits
- `pass_items`: items that are produced and consumed one after another
- `counter_wraps`: a run that gets stuck
-/

namespace AcademiaCr.Systems

open Monitor Transition BoundedBuffer

variable {numProducers numConsumers : Nat}

/-- A producer and a consumer are at the start of their loops, the buffer is empty and nobody
waits. -/
structure BoundedBuffer.Between (s : BoundedBuffer numProducers numConsumers)
    (p : Fin numProducers) (c : Fin numConsumers) : Prop where
  empty : s.buffer = []
  room : 0 < s.capacity
  producing : s.producer p = .active none
  consuming : s.consumer c = .active ()
  producers : ∀ q, ¬ (s.producer q).Waits
  consumers : ∀ d, ¬ (s.consumer d).Waits

section

variable {totalItems : Int} {capacity : Nat} {s : BoundedBuffer numProducers numConsumers}
  {history : List (BufferEvent numProducers numConsumers)} {p : Fin numProducers}
  {c : Fin numConsumers}

theorem fetchAdd_of_lt {n : Int} (hlo : -2 ^ 31 ≤ n) (hhi : n < 2 ^ 31 - 1) :
    fetchAdd n = n + 1 :=
  Int.bmod_eq_of_le (by omega) (by omega)

/-- One item is fetched, put and taken, and the threads are where they were. -/
theorem pass_item (h : s.Between p c) (hmore : s.nextItem < totalItems)
    (hitem : s.nextItem ≠ -1) (hr : BufferRun totalItems capacity history s) :
    ∃ history', BufferRun totalItems capacity history'
      { s with nextItem := fetchAdd s.nextItem } := by
  obtain ⟨hempty, hroom, hproducing, hconsuming, hproducers, hconsumers⟩ := h
  obtain ⟨buffer, capacity', done, item, producer, consumer, main⟩ := s
  dsimp only at hempty hroom hproducing hconsuming hproducers hconsumers hmore hitem
  subst hempty
  have hfetch : BoundedBuffer.step totalItems
      ⟨[], capacity', done, item, producer, consumer, main⟩ (.fetch p) =
        some ⟨[], capacity', done, fetchAdd item,
          Function.update producer p (.active (some item)), consumer, main⟩ := by
    rw [BoundedBuffer.step, if_pos hproducing, fetch, if_neg (Int.not_le.mpr hmore)]
    rfl
  have hput : BoundedBuffer.step totalItems
      ⟨[], capacity', done, fetchAdd item, Function.update producer p (.active (some item)),
        consumer, main⟩ (.produce p none) =
          some ⟨[item], capacity', done, fetchAdd item, producer, consumer, main⟩ := by
    have hback : Function.update (Function.update producer p (.active (some item))) p
        (.active none) = producer := by
      rw [Function.update_idem, ← hproducing, Function.update_eq_self]
    have hproduce : BoundedBuffer.step totalItems
        ⟨[], capacity', done, fetchAdd item, Function.update producer p (.active (some item)),
          consumer, main⟩ (.produce p none) =
            BoundedBuffer.produce ⟨[], capacity', done, fetchAdd item,
              Function.update producer p (.active (some item)), consumer, main⟩ p item none := by
      simp only [BoundedBuffer.step, Function.update_self]
    have hnobody : notify consumer none = some consumer := if_pos hconsumers
    rw [hproduce, produce, List.length_nil, if_pos hroom, hnobody]
    show some (BoundedBuffer.mk [item] capacity' done (fetchAdd item) (Function.update
      (Function.update producer p (.active (some item))) p (.active none)) consumer main) = _
    rw [hback]
  have htake : BoundedBuffer.step totalItems
      ⟨[item], capacity', done, fetchAdd item, producer, consumer, main⟩ (.consume c none) =
        some ⟨[], capacity', done, fetchAdd item, producer, consumer, main⟩ := by
    have hback : Function.update consumer c (.active ()) = consumer := by
      rw [← hconsuming, Function.update_eq_self]
    have hnobody : notify producer none = some producer := if_pos hproducers
    rw [BoundedBuffer.step, if_pos hconsuming, consume, if_pos (Or.inl (by simp)), hnobody]
    show some (BoundedBuffer.mk [] capacity' done (fetchAdd item) producer
      (Function.update consumer c (if item = -1 then .finished else .active ())) main) = _
    rw [if_neg hitem, hback]
  exact ⟨_, ((hr.snoc hfetch).snoc hput).snoc htake⟩

/-- Items that are fetched, put and taken one after another. -/
theorem pass_items (h : s.Between p c) {k : Nat} (hlo : -2 ^ 31 ≤ s.nextItem)
    (hhi : s.nextItem + k < 2 ^ 31) (hmore : s.nextItem + k ≤ totalItems)
    (hmarker : -1 < s.nextItem ∨ s.nextItem + k ≤ -1)
    (hr : BufferRun totalItems capacity history s) :
    ∃ history', BufferRun totalItems capacity history' { s with nextItem := s.nextItem + k } := by
  induction k with
  | zero =>
    refine ⟨history, ?_⟩
    rwa [show s.nextItem + ((0 : Nat) : Int) = s.nextItem from Int.add_zero _]
  | succ k ih =>
    obtain ⟨history', hr'⟩ := ih (by omega) (by omega) (by omega)
    have hbetween : Between { s with nextItem := s.nextItem + k } p c :=
      ⟨h.empty, h.room, h.producing, h.consuming, h.producers, h.consumers⟩
    have hnext : fetchAdd (s.nextItem + k) = s.nextItem + (k + 1 : Nat) := by
      rw [fetchAdd_of_lt (by omega) (by omega)]
      push_cast
      omega
    rw [← hnext]
    exact pass_item hbetween (show s.nextItem + k < totalItems by omega)
      (show s.nextItem + k ≠ -1 by omega) hr'

end

/-- A producer has ended at the number that follows the items, and the other one goes on. -/
def wrapped (p : Fin 2) (nextItem : Int) : BoundedBuffer 2 1 where
  buffer := []
  capacity := 1
  done := false
  nextItem
  producer := Function.update (fun _ => .active none) p .finished
  consumer _ := .active ()
  main := .joinProducers 0

/-- With as many items as an `int` can count, a buffer of one item, two producers and a consumer, a
state is reached in which all unfinished threads wait. -/
theorem counter_wraps : ∃ (history : List (BufferEvent 2 1)) (s : BoundedBuffer 2 1),
    BufferRun (2 ^ 31 - 1) 1 history s ∧ s.Stuck := by
  have hstart : (BoundedBuffer.start 2 1 1).Between 0 0 :=
    ⟨rfl, Nat.one_pos, rfl, rfl, fun _ => Thread.not_waits_active, fun _ => Thread.not_waits_active⟩
  -- the items, one after another, by the first producer
  obtain ⟨history, hitems⟩ := pass_items (k := 2147483647) hstart
    (show -2 ^ 31 ≤ (0 : Int) by omega) (show (0 : Int) + 2147483647 < 2 ^ 31 by omega)
    (show (0 : Int) + 2147483647 ≤ 2 ^ 31 - 1 by omega) (Or.inl (show -1 < (0 : Int) by omega))
    (show BufferRun (2 ^ 31 - 1) 1 [] _ from Run.start)
  -- the number that follows them, which is the largest one
  have hlast : BoundedBuffer.step (2 ^ 31 - 1)
      { BoundedBuffer.start 2 1 1 with nextItem := 0 + ((2147483647 : Nat) : Int) } (.fetch 0) =
        some (wrapped 0 (-2147483648)) := rfl
  have hwrapped : (wrapped 0 (-2147483648)).Between 1 0 :=
    ⟨rfl, Nat.one_pos, rfl, rfl,
      Fin.forall_fin_two.mpr ⟨Thread.not_waits_finished, Thread.not_waits_active⟩,
      fun _ => Thread.not_waits_active⟩
  -- the negative numbers, by the second producer
  obtain ⟨history', hnegative⟩ := pass_items (k := 2147483647) hwrapped
    (show -2 ^ 31 ≤ (-2147483648 : Int) by omega)
    (show (-2147483648 : Int) + 2147483647 < 2 ^ 31 by omega)
    (show (-2147483648 : Int) + 2147483647 ≤ 2 ^ 31 - 1 by omega)
    (Or.inr (show (-2147483648 : Int) + 2147483647 ≤ -1 by omega)) (hitems.snoc hlast)
  have hmarker : BufferRun (2 ^ 31 - 1) 1 history' (wrapped 0 (-1)) := hnegative
  have hwaits : Thread.waiting (some (1 : Int)) ≠ .finished := by decide
  -- the consumer takes the item -1 and ends, `main` joins the first producer, and the second one
  -- fills the buffer and waits
  refine ⟨_, _, replay_run hmarker
    (show replay (BoundedBuffer.step (2 ^ 31 - 1)) history' (wrapped 0 (-1))
      [.fetch 1, .produce 1 none, .consume 0 none, .fetch 1, .produce 1 none, .fetch 1,
        .produce 1 none, .join] = some _ from rfl), ?_, ?_, ?_, ?_⟩
  · exact .inl ⟨1, hwaits⟩
  · exact Fin.forall_fin_two.mpr ⟨fun hp => absurd rfl hp, fun _ => ⟨_, rfl⟩⟩
  · exact Fin.forall_fin_one.mpr fun hc => absurd rfl hc
  · exact fun _ => .inl ⟨1, rfl, hwaits⟩

end AcademiaCr.Systems
