import Mathlib.Data.Int.Order.Basic
import AcademiaCr.Library.Monitor
import AcademiaCr.Library.Run

/-!
# Producers, consumers and a bounded buffer

`ProducerConsumer.cpp`: producers fetch numbers from a counter and put them into a queue of
bounded length, consumers take them. `main` joins the producers, says that no more items come,
and joins the consumers. A section under `mutex_` is one step, with the thread that its
`notify_one` wakes.

## Main definitions

- `BoundedBuffer`: the buffer, the counter and where each thread is
- `BoundedBuffer.produce`, `consume`: the sections
- `BoundedBuffer.step`, `BoundedBuffer.Step`: the steps, and what they do
-/

namespace AcademiaCr.Systems

open Monitor Transition

/-- `fetch_add(1)` on an `atomic<int>`, which wraps around. -/
def fetchAdd (n : Int) : Int := (n + 1).bmod (2 ^ 32)

/-- Where `main` is: it has joined this many producers, or all of them and this many consumers. -/
inductive Main where
  | joinProducers (joined : Nat)
  | joinConsumers (joined : Nat)
  deriving DecidableEq, Repr

/-- The members of the class, `next_item` and the threads. A producer holds the item that it has
fetched and not put yet. -/
structure BoundedBuffer (numProducers numConsumers : Nat) where
  buffer : List Int
  capacity : Nat
  done : Bool
  nextItem : Int
  producer : Fin numProducers → Thread (Option Int)
  consumer : Fin numConsumers → Thread Unit
  main : Main

namespace BoundedBuffer

variable {numProducers numConsumers : Nat}

/-- The state when the threads have been started. -/
def start (numProducers numConsumers capacity : Nat) :
    BoundedBuffer numProducers numConsumers where
  buffer := []
  capacity
  done := false
  nextItem := 0
  producer _ := .active none
  consumer _ := .active ()
  main := .joinProducers 0

def setProducer (s : BoundedBuffer numProducers numConsumers) (p : Fin numProducers)
    (t : Thread (Option Int)) : BoundedBuffer numProducers numConsumers :=
  { s with producer := Function.update s.producer p t }

def setConsumer (s : BoundedBuffer numProducers numConsumers) (c : Fin numConsumers)
    (t : Thread Unit) : BoundedBuffer numProducers numConsumers :=
  { s with consumer := Function.update s.consumer c t }

section

variable (s : BoundedBuffer numProducers numConsumers) {p : Fin numProducers}
  {t : Thread (Option Int)} {c : Fin numConsumers} {u : Thread Unit}

@[simp] theorem setProducer_self : (s.setProducer p t).producer p = t := Function.update_self _ _ _

theorem setProducer_ne {q : Fin numProducers} (h : q ≠ p) :
    (s.setProducer p t).producer q = s.producer q := Function.update_of_ne h _ _

@[simp] theorem setConsumer_self : (s.setConsumer c u).consumer c = u := Function.update_self _ _ _

theorem setConsumer_ne {d : Fin numConsumers} (h : d ≠ c) :
    (s.setConsumer c u).consumer d = s.consumer d := Function.update_of_ne h _ _

end

section

variable (s : BoundedBuffer numProducers numConsumers)

/-- `next_item.fetch_add(1)` and the test of the item. -/
def fetch (totalItems : Int) (p : Fin numProducers) : BoundedBuffer numProducers numConsumers :=
  { s with nextItem := fetchAdd s.nextItem }.setProducer p
    (if s.nextItem ≥ totalItems then .finished else .active (some s.nextItem))

/-- The section of `produce`; its `notify_one` wakes a consumer. -/
def produce (p : Fin numProducers) (item : Int) (woken : Option (Fin numConsumers)) :
    Option (BoundedBuffer numProducers numConsumers) :=
  if s.buffer.length < s.capacity then do
    let consumer ← notify s.consumer woken
    return { s with buffer := s.buffer ++ [item], consumer }.setProducer p (.active none)
  else some (s.setProducer p (.waiting (some item)))

/-- The section of `consume` and the test of the item that it returns; its `notify_one` wakes a
producer. -/
def consume (c : Fin numConsumers) (woken : Option (Fin numProducers)) :
    Option (BoundedBuffer numProducers numConsumers) :=
  if ¬ s.buffer.isEmpty ∨ s.done then
    match s.buffer with
    | [] => some (s.setConsumer c .finished)
    | item :: rest => do
      let producer ← notify s.producer woken
      return { s with buffer := rest, producer }.setConsumer c
        (if item = -1 then .finished else .active ())
  else some (s.setConsumer c (.waiting ()))

/-- `mark_done`. -/
def markDone : BoundedBuffer numProducers numConsumers :=
  { s with done := true, consumer := broadcast s.consumer, main := .joinConsumers 0 }

end

/-! ## Steps -/

/-- What may happen next. -/
inductive Action (numProducers numConsumers : Nat) where
  | fetch (p : Fin numProducers)
  | produce (p : Fin numProducers) (woken : Option (Fin numConsumers))
  | consume (c : Fin numConsumers) (woken : Option (Fin numProducers))
  /-- Spurious wake-ups. -/
  | wakeProducer (p : Fin numProducers)
  | wakeConsumer (c : Fin numConsumers)
  /-- `t.join()` of the next thread returns. -/
  | join
  | markDone
  deriving DecidableEq

/-- One step, if the thread is where it begins. -/
def step (totalItems : Int) (s : BoundedBuffer numProducers numConsumers) :
    Action numProducers numConsumers → Option (BoundedBuffer numProducers numConsumers)
  | .fetch p => if s.producer p = .active none then some (s.fetch totalItems p) else none
  | .produce p woken =>
    match s.producer p with
    | .active (some item) => s.produce p item woken
    | _ => none
  | .consume c woken => if s.consumer c = .active () then s.consume c woken else none
  | .wakeProducer p =>
    match s.producer p with
    | .waiting held => some (s.setProducer p (.active held))
    | _ => none
  | .wakeConsumer c =>
    if s.consumer c = .waiting () then some (s.setConsumer c (.active ())) else none
  | .join =>
    match s.main with
    | .joinProducers joined =>
      if h : joined < numProducers then
        if s.producer ⟨joined, h⟩ = .finished then
          some { s with main := .joinProducers (joined + 1) }
        else none
      else none
    | .joinConsumers joined =>
      if h : joined < numConsumers then
        if s.consumer ⟨joined, h⟩ = .finished then
          some { s with main := .joinConsumers (joined + 1) }
        else none
      else none
  | .markDone => if s.main = .joinProducers numProducers then some s.markDone else none

/-- What a step can do. -/
inductive Step (totalItems : Int) (s : BoundedBuffer numProducers numConsumers) :
    Action numProducers numConsumers → BoundedBuffer numProducers numConsumers → Prop
  | fetched {p : Fin numProducers} (hp : s.producer p = .active none)
    (hmore : s.nextItem < totalItems) :
    Step totalItems s (.fetch p)
      ({ s with nextItem := fetchAdd s.nextItem }.setProducer p (.active (some s.nextItem)))
  | exhausted {p : Fin numProducers} (hp : s.producer p = .active none)
    (hdone : totalItems ≤ s.nextItem) :
    Step totalItems s (.fetch p)
      ({ s with nextItem := fetchAdd s.nextItem }.setProducer p .finished)
  | put {p : Fin numProducers} {item : Int} {woken : Option (Fin numConsumers)}
    {consumer : Fin numConsumers → Thread Unit} (hp : s.producer p = .active (some item))
    (hroom : s.buffer.length < s.capacity) (hnotify : notify s.consumer woken = some consumer) :
    Step totalItems s (.produce p woken)
      ({ s with buffer := s.buffer ++ [item], consumer }.setProducer p (.active none))
  | full {p : Fin numProducers} {item : Int} {woken : Option (Fin numConsumers)}
    (hp : s.producer p = .active (some item)) (hfull : s.capacity ≤ s.buffer.length) :
    Step totalItems s (.produce p woken) (s.setProducer p (.waiting (some item)))
  | take {c : Fin numConsumers} {item : Int} {rest : List Int}
    {woken : Option (Fin numProducers)} {producer : Fin numProducers → Thread (Option Int)}
    (hc : s.consumer c = .active ()) (hbuffer : s.buffer = item :: rest)
    (hnotify : notify s.producer woken = some producer) :
    Step totalItems s (.consume c woken) ({ s with buffer := rest, producer }.setConsumer c
      (if item = -1 then .finished else .active ()))
  | stop {c : Fin numConsumers} {woken : Option (Fin numProducers)}
    (hc : s.consumer c = .active ()) (hempty : s.buffer = []) (hdone : s.done = true) :
    Step totalItems s (.consume c woken) (s.setConsumer c .finished)
  | empty {c : Fin numConsumers} {woken : Option (Fin numProducers)}
    (hc : s.consumer c = .active ()) (hempty : s.buffer = []) (hdone : s.done = false) :
    Step totalItems s (.consume c woken) (s.setConsumer c (.waiting ()))
  | wakeProducer {p : Fin numProducers} {held : Option Int} (hp : s.producer p = .waiting held) :
    Step totalItems s (.wakeProducer p) (s.setProducer p (.active held))
  | wakeConsumer {c : Fin numConsumers} (hc : s.consumer c = .waiting ()) :
    Step totalItems s (.wakeConsumer c) (s.setConsumer c (.active ()))
  | joinProducer {p : Fin numProducers} (hmain : s.main = .joinProducers p)
    (hp : s.producer p = .finished) :
    Step totalItems s .join { s with main := .joinProducers (p + 1) }
  | joinConsumer {c : Fin numConsumers} (hmain : s.main = .joinConsumers c)
    (hc : s.consumer c = .finished) :
    Step totalItems s .join { s with main := .joinConsumers (c + 1) }
  | markDone (hmain : s.main = .joinProducers numProducers) :
    Step totalItems s .markDone s.markDone

theorem step_cases {totalItems : Int} {s s' : BoundedBuffer numProducers numConsumers}
    {action : Action numProducers numConsumers} (h : s.step totalItems action = some s') :
    s.Step totalItems action s' := by
  cases action with
  | fetch p =>
    simp only [step] at h
    split_ifs at h with hp
    cases h
    rw [fetch]
    split_ifs with hdone
    · exact .exhausted hp hdone
    · exact .fetched hp (Int.lt_of_not_ge hdone)
  | produce p woken =>
    simp only [step] at h
    split at h
    · next item hp =>
      rw [produce] at h
      split_ifs at h with hroom
      · obtain ⟨consumer, hnotify, hs'⟩ := Option.bind_eq_some_iff.mp h
        cases hs'
        exact .put hp hroom hnotify
      · cases h
        exact .full hp (Nat.le_of_not_lt hroom)
    · cases h
  | consume c woken =>
    -- the section of a consumer: wait, return -1 or take the first item
    simp only [step] at h
    split_ifs at h with hc
    rw [consume] at h
    cases hbuffer : s.buffer with
    | nil =>
      cases hdone : s.done with
      | false =>
        rw [hbuffer, hdone, if_neg (by simp)] at h
        cases h
        exact .empty hc hbuffer hdone
      | true =>
        rw [hbuffer, hdone, if_pos (by simp)] at h
        cases h
        exact .stop hc hbuffer hdone
    | cons item rest =>
      rw [hbuffer, if_pos (Or.inl (by simp))] at h
      obtain ⟨producer, hnotify, hs'⟩ := Option.bind_eq_some_iff.mp h
      cases hs'
      exact .take hc hbuffer hnotify
  | wakeProducer p =>
    simp only [step] at h
    split at h
    · next held hp =>
      cases h
      exact .wakeProducer hp
    · cases h
  | wakeConsumer c =>
    simp only [step] at h
    split_ifs at h with hc
    cases h
    exact .wakeConsumer hc
  | join =>
    simp only [step] at h
    split at h
    · next joined hmain =>
      split_ifs at h with hlt hp
      cases h
      exact Step.joinProducer (p := ⟨joined, hlt⟩) hmain hp
    · next joined hmain =>
      split_ifs at h with hlt hc
      cases h
      exact Step.joinConsumer (c := ⟨joined, hlt⟩) hmain hc
  | markDone =>
    simp only [step] at h
    split_ifs at h with hmain
    cases h
    exact .markDone hmain

end BoundedBuffer

end AcademiaCr.Systems
