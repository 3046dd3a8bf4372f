import AcademiaCr.Systems.BoundedBuffer

/-!
# What a run of the bounded buffer does with its items

Items are taken in the order in which they are put, and never more than the capacity are in
between. As long as the counter does not wrap around, the items put and those that producers hold
are the first ones.

## Main definitions

- `BufferRun`: the runs of the program
- `BoundedBuffer.itemsPut`, `itemsTaken`: the items, oldest first, to which this has happened
- `BoundedBuffer.Counted`: what the counter says about the items
-/

namespace AcademiaCr.Systems

open Monitor Tally Transition BoundedBuffer

variable {numProducers numConsumers : Nat}

/-- A step of the program. -/
abbrev BufferEvent (numProducers numConsumers : Nat) :=
  Event (BoundedBuffer numProducers numConsumers) (BoundedBuffer.Action numProducers numConsumers)

/-- The runs with `totalItems` items. -/
abbrev BufferRun (totalItems : Int) (capacity : Nat)
    (history : List (BufferEvent numProducers numConsumers))
    (s : BoundedBuffer numProducers numConsumers) : Prop :=
  Run (BoundedBuffer.step totalItems) (BoundedBuffer.start numProducers numConsumers capacity)
    history s

namespace BoundedBuffer

/-! ## Histories -/

/-- The item that a producer holds. -/
def heldItem : Thread (Option Int) → Option Int
  | .active held => held
  | .waiting held => held
  | .finished => none

theorem heldItem_awake (t : Thread (Option Int)) : heldItem t.awake = heldItem t := by
  cases t <;> rfl

/-- The item that a section of `produce` pushes. -/
def putBy (e : BufferEvent numProducers numConsumers) : Option Int :=
  match e.label with
  | .produce p _ =>
    if e.before.buffer.length < e.before.capacity then heldItem (e.before.producer p) else none
  | _ => none

/-- The item that a section of `consume` pops. -/
def takenBy (e : BufferEvent numProducers numConsumers) : Option Int :=
  match e.label with
  | .consume _ _ => e.before.buffer.head?
  | _ => none

def itemsPut (history : List (BufferEvent numProducers numConsumers)) : List Int :=
  (history.filterMap putBy).reverse

def itemsTaken (history : List (BufferEvent numProducers numConsumers)) : List Int :=
  (history.filterMap takenBy).reverse

section

variable (e : BufferEvent numProducers numConsumers)
  (history : List (BufferEvent numProducers numConsumers))

theorem itemsPut_cons : itemsPut (e :: history) = itemsPut history ++ (putBy e).toList := by
  rw [itemsPut, List.filterMap_cons]
  cases putBy e <;> simp [itemsPut]

theorem itemsTaken_cons : itemsTaken (e :: history) = itemsTaken history ++ (takenBy e).toList := by
  rw [itemsTaken, List.filterMap_cons]
  cases takenBy e <;> simp [itemsTaken]

end

section

variable {totalItems : Int} {s s' : BoundedBuffer numProducers numConsumers}
  {history : List (BufferEvent numProducers numConsumers)}

theorem putBy_room {p : Fin numProducers} {item : Int} {woken : Option (Fin numConsumers)}
    (hp : s.producer p = .active (some item)) (hroom : s.buffer.length < s.capacity) :
    putBy (⟨s, .produce p woken, s'⟩ : BufferEvent numProducers numConsumers) = some item :=
  (if_pos hroom).trans (congrArg heldItem hp)

theorem putBy_full {p : Fin numProducers} {woken : Option (Fin numConsumers)}
    (hfull : s.capacity ≤ s.buffer.length) :
    putBy (⟨s, .produce p woken, s'⟩ : BufferEvent numProducers numConsumers) = none :=
  if_neg (Nat.not_lt.mpr hfull)

/-- What a step does with the items: it puts the one that a producer holds, takes the first one, or
leaves them. -/
theorem Step.items_cases {action : Action numProducers numConsumers}
    (hs : s.Step totalItems action s') (history : List (BufferEvent numProducers numConsumers)) :
    (∃ p item, s.producer p = .active (some item) ∧ s.buffer.length < s.capacity ∧
      itemsPut (⟨s, action, s'⟩ :: history) = itemsPut history ++ [item] ∧
      itemsTaken (⟨s, action, s'⟩ :: history) = itemsTaken history ∧
      s'.buffer = s.buffer ++ [item]) ∨
    (∃ item rest, itemsPut (⟨s, action, s'⟩ :: history) = itemsPut history ∧
      itemsTaken (⟨s, action, s'⟩ :: history) = itemsTaken history ++ [item] ∧
      s.buffer = item :: rest ∧ s'.buffer = rest) ∨
    (itemsPut (⟨s, action, s'⟩ :: history) = itemsPut history ∧
      itemsTaken (⟨s, action, s'⟩ :: history) = itemsTaken history ∧ s'.buffer = s.buffer) := by
  rw [itemsPut_cons, itemsTaken_cons]
  cases hs with
  | @put p item woken consumer hp hroom hnotify =>
    rw [putBy_room hp hroom]
    exact .inl ⟨p, item, hp, hroom, rfl, List.append_nil _, rfl⟩
  | @take c item rest woken producer hc hbuffer hnotify =>
    have hby : ∀ s', takenBy (⟨s, .consume c woken, s'⟩ :
        BufferEvent numProducers numConsumers) = some item :=
      fun s' => congrArg List.head? hbuffer
    rw [hby]
    exact .inr (.inl ⟨item, rest, List.append_nil _, rfl, hbuffer, rfl⟩)
  | @full p item woken hp hfull =>
    rw [putBy_full hfull]
    exact .inr (.inr ⟨List.append_nil _, List.append_nil _, rfl⟩)
  | @stop c woken hc hempty | @empty c woken hc hempty =>
    have hby : ∀ s', takenBy (⟨s, .consume c woken, s'⟩ :
        BufferEvent numProducers numConsumers) = none :=
      fun s' => congrArg List.head? hempty
    rw [hby]
    exact .inr (.inr ⟨List.append_nil _, List.append_nil _, rfl⟩)
  | fetched | exhausted | wakeProducer | wakeConsumer | joinProducer | joinConsumer | markDone =>
    exact .inr (.inr ⟨List.append_nil _, List.append_nil _, rfl⟩)

/-- The items taken and those in the buffer are the items put, in their order. -/
theorem order_step (h : itemsPut history = itemsTaken history ++ s.buffer)
    {action : Action numProducers numConsumers} (hs : s.Step totalItems action s') :
    itemsPut (⟨s, action, s'⟩ :: history) =
      itemsTaken (⟨s, action, s'⟩ :: history) ++ s'.buffer := by
  obtain ⟨p, item, _, _, hput, htaken, hbuffer⟩ | ⟨item, rest, hput, htaken, hold, hbuffer⟩ |
    ⟨hput, htaken, hbuffer⟩ := hs.items_cases history
  · rw [hput, htaken, hbuffer, h, List.append_assoc]
  · rw [hput, htaken, hbuffer, h, hold, List.append_assoc]
    rfl
  · rw [hput, htaken, hbuffer, h]

/-- The buffer never holds more items than its capacity, which is constant. -/
theorem size_step (h : s.buffer.length ≤ s.capacity) {action : Action numProducers numConsumers}
    (hs : s.Step totalItems action s') :
    s'.buffer.length ≤ s'.capacity ∧ s'.capacity = s.capacity := by
  have hcapacity : s'.capacity = s.capacity := by
    cases hs <;> rfl
  rw [hcapacity]
  refine ⟨?_, rfl⟩
  obtain ⟨p, item, _, hroom, _, _, hbuffer⟩ | ⟨item, rest, _, _, hold, hbuffer⟩ |
    ⟨_, _, hbuffer⟩ := hs.items_cases []
  · rw [hbuffer, List.length_append]
    exact hroom
  · rw [hold, List.length_cons] at h
    rw [hbuffer]
    omega
  · rwa [hbuffer]

end

/-! ## The counter -/

/-- The items that producers hold. -/
def held (s : BoundedBuffer numProducers numConsumers) : Multiset Int :=
  tally (fun t => ((heldItem t).toList : Multiset Int)) s.producer

/-- Whether a producer has found the items exhausted. -/
def ended : Thread (Option Int) → Nat
  | .finished => 1
  | _ => 0

def finishedProducers (s : BoundedBuffer numProducers numConsumers) : Nat := tally ended s.producer

/-- After `n` numbers have been fetched: those that are items have been put or are held, and each
of the others has ended a producer. -/
structure Counted (totalItems : Int) (history : List (BufferEvent numProducers numConsumers))
    (s : BoundedBuffer numProducers numConsumers) (n : Nat) : Prop where
  next : s.nextItem = (n : Int).bmod (2 ^ 32)
  bound : (n : Int) ≤ totalItems + s.finishedProducers
  ledger : (itemsPut history : Multiset Int) + s.held = items (min n totalItems)
  early : ∀ p, s.producer p = .finished → totalItems ≤ n

section

variable {totalItems : Int} {s s' : BoundedBuffer numProducers numConsumers}
  {history : List (BufferEvent numProducers numConsumers)} {n : Nat}

theorem held_setProducer (s : BoundedBuffer numProducers numConsumers) (p : Fin numProducers)
    (t : Thread (Option Int)) :
    (s.setProducer p t).held + ((heldItem (s.producer p)).toList : Multiset Int) =
      s.held + ((heldItem t).toList : Multiset Int) :=
  tally_update _ _ p t

theorem held_setProducer_same {p : Fin numProducers} {t : Thread (Option Int)}
    (h : heldItem t = heldItem (s.producer p)) : (s.setProducer p t).held = s.held := by
  have htally := held_setProducer s p t
  rw [h] at htally
  exact add_right_cancel htally

theorem finishedProducers_setProducer (s : BoundedBuffer numProducers numConsumers)
    (p : Fin numProducers) (t : Thread (Option Int)) :
    (s.setProducer p t).finishedProducers + ended (s.producer p) =
      s.finishedProducers + ended t :=
  tally_update _ _ p t

/-- A producer that goes on and does not end leaves the ended ones as they are. -/
theorem Counted.goesOn (h : Counted totalItems history s n) {p : Fin numProducers}
    {t : Thread (Option Int)} (hp : s.producer p ≠ .finished) (ht : t ≠ .finished) :
    (n : Int) ≤ totalItems + (s.setProducer p t).finishedProducers ∧
      ∀ q, (s.setProducer p t).producer q = .finished → totalItems ≤ n := by
  have hended := finishedProducers_setProducer s p t
  have hbound := h.bound
  have hzero : ∀ t : Thread (Option Int), t ≠ .finished → ended t = 0 := by
    intro t ht
    cases t with
    | finished => exact absurd rfl ht
    | active | waiting => rfl
  rw [hzero _ hp, hzero _ ht] at hended
  refine ⟨by omega, fun q hq => ?_⟩
  by_cases hqp : q = p
  · subst hqp
    rw [setProducer_self] at hq
    exact absurd hq ht
  · rw [setProducer_ne _ hqp] at hq
    exact h.early q hq

/-- A producer that goes on with what it holds. -/
theorem Counted.setProducer (h : Counted totalItems history s n) {p : Fin numProducers}
    {t : Thread (Option Int)} (hp : s.producer p ≠ .finished) (ht : t ≠ .finished)
    (hheld : heldItem t = heldItem (s.producer p)) :
    Counted totalItems history (s.setProducer p t) n where
  next := h.next
  bound := (h.goesOn hp ht).1
  ledger := by
    rw [held_setProducer_same hheld]
    exact h.ledger
  early := (h.goesOn hp ht).2

/-- Producers that are woken hold what they held. -/
theorem Counted.notify (h : Counted totalItems history s n) {woken : Option (Fin numProducers)}
    {producer : Fin numProducers → Thread (Option Int)}
    (hnotify : Monitor.notify s.producer woken = some producer) :
    Counted totalItems history { s with producer } n where
  next := h.next
  bound := by
    have hended : tally ended producer = s.finishedProducers :=
      tally_notify (fun t => by cases t <;> rfl) hnotify
    show (n : Int) ≤ totalItems + (tally ended producer : Nat)
    rw [hended]
    exact h.bound
  ledger := by
    have hheld : tally (fun t => ((heldItem t).toList : Multiset Int)) producer = s.held :=
      tally_notify (fun t => by rw [heldItem_awake]) hnotify
    show (itemsPut history : Multiset Int) +
      tally (fun t => ((heldItem t).toList : Multiset Int)) producer = _
    rw [hheld]
    exact h.ledger
  early p hp := by
    have hp : producer p = .finished := hp
    refine h.early p ?_
    rcases notify_apply hnotify p with heq | heq <;> rw [heq] at hp
    · exact hp
    · exact Thread.awake_eq_finished.mp hp

/-- A counter that has not gone beyond the producers that may still end has not wrapped. -/
theorem Counted.nextItem_eq (h : Counted totalItems history s n)
    (htotal : totalItems + numProducers ≤ 2 ^ 31) {p : Fin numProducers}
    (hp : s.producer p ≠ .finished) : s.nextItem = n := by
  have hended : s.finishedProducers < numProducers := by
    have hlt : tally ended s.producer < _ := tally_lt_card (i := p)
      (fun t => by cases t <;> simp [ended]) (by
        cases hs : s.producer p with
        | finished => exact absurd hs hp
        | active | waiting => rfl)
    rwa [Fintype.card_fin] at hlt
  have hbound := h.bound
  rw [h.next, Int.bmod_eq_of_le_mul_two] <;> omega

theorem Counted.congr (h : Counted totalItems history s n)
    {history' : List (BufferEvent numProducers numConsumers)}
    (hput : itemsPut history' = itemsPut history) : Counted totalItems history' s n :=
  { h with ledger := by rw [hput]; exact h.ledger }

/-- A number that is an item is fetched, and held. -/
theorem Counted.fetched (h : Counted totalItems history s n)
    (htotal : totalItems + numProducers ≤ 2 ^ 31) {p : Fin numProducers}
    (hp : s.producer p = .active none) (hmore : s.nextItem < totalItems) :
    Counted totalItems history
      ({ s with nextItem := fetchAdd s.nextItem }.setProducer p (.active (some s.nextItem)))
      (n + 1) := by
  have hnext : s.nextItem = n := h.nextItem_eq htotal (by rw [hp]; simp)
  rw [hnext] at hmore
  have hended := finishedProducers_setProducer { s with nextItem := fetchAdd s.nextItem } p
    (.active (some s.nextItem))
  have hheld := held_setProducer { s with nextItem := fetchAdd s.nextItem } p
    (.active (some s.nextItem))
  refine ⟨?_, ?_, ?_, fun q hq => ?_⟩
  · show fetchAdd s.nextItem = _
    rw [fetchAdd, hnext]
    rfl
  · push_cast
    omega
  · have hnone : heldItem (({ s with nextItem := fetchAdd s.nextItem } :
        BoundedBuffer numProducers numConsumers).producer p) = none := congrArg heldItem hp
    have hminOld : min (n : Int) totalItems = n := by omega
    have hminNew : min ((n + 1 : Nat) : Int) totalItems = n + 1 := by omega
    have hledger := h.ledger
    rw [hminOld] at hledger
    have hsame : ({ s with nextItem := fetchAdd s.nextItem } :
        BoundedBuffer numProducers numConsumers).held = s.held := rfl
    rw [hnone, hsame] at hheld
    have hheld' : ({ s with nextItem := fetchAdd s.nextItem }.setProducer p
        (.active (some s.nextItem))).held = s.held + {(n : Int)} := by
      rw [← hnext]
      simpa [heldItem] using hheld
    rw [hheld', hminNew, items_succ (Int.natCast_nonneg n), ← add_assoc, hledger]
    rfl
  · have hqp : q ≠ p := by
      rintro rfl
      rw [setProducer_self] at hq
      cases hq
    rw [setProducer_ne _ hqp] at hq
    have hearly := h.early q hq
    omega

/-- A number beyond the items ends a producer. -/
theorem Counted.exhausted (h : Counted totalItems history s n)
    (htotal : totalItems + numProducers ≤ 2 ^ 31) {p : Fin numProducers}
    (hp : s.producer p = .active none) (hdone : totalItems ≤ s.nextItem) :
    Counted totalItems history
      ({ s with nextItem := fetchAdd s.nextItem }.setProducer p .finished) (n + 1) := by
  have hnext : s.nextItem = n := h.nextItem_eq htotal (by rw [hp]; simp)
  rw [hnext] at hdone
  have hbound := h.bound
  have hended := finishedProducers_setProducer { s with nextItem := fetchAdd s.nextItem } p
    .finished
  have hone : ended (({ s with nextItem := fetchAdd s.nextItem } :
      BoundedBuffer numProducers numConsumers).producer p) = 0 := congrArg ended hp
  have hcount : ({ s with nextItem := fetchAdd s.nextItem } :
      BoundedBuffer numProducers numConsumers).finishedProducers = s.finishedProducers := rfl
  rw [hone, hcount] at hended
  refine ⟨?_, ?_, ?_, fun q hq => ?_⟩
  · show fetchAdd s.nextItem = _
    rw [fetchAdd, hnext]
    rfl
  · have hnew : ended (.finished : Thread (Option Int)) = 1 := rfl
    push_cast
    omega
  · have hsame : ({ s with nextItem := fetchAdd s.nextItem }.setProducer p .finished).held =
        s.held := held_setProducer_same (congrArg heldItem hp).symm
    have hmin : min ((n + 1 : Nat) : Int) totalItems = min (n : Int) totalItems := by omega
    rw [hsame, hmin]
    exact h.ledger
  · push_cast
    omega

theorem Counted.step (h : Counted totalItems history s n)
    (htotal : totalItems + numProducers ≤ 2 ^ 31) {action : Action numProducers numConsumers}
    (hs : s.Step totalItems action s') :
    ∃ m, Counted totalItems (⟨s, action, s'⟩ :: history) s' m := by
  cases hs with
  | fetched hp hmore => exact ⟨n + 1, (h.fetched htotal hp hmore).congr rfl⟩
  | exhausted hp hdone => exact ⟨n + 1, (h.exhausted htotal hp hdone).congr rfl⟩
  | @put p item woken consumer hp hroom hnotify =>
    -- the item moves from the producer to the buffer
    have hmoved := h.goesOn (t := .active none) (by rw [hp]; simp) (by simp)
    refine ⟨n, h.next, hmoved.1, ?_, hmoved.2⟩
    have hheld : (s.setProducer p (.active none)).held + {item} = s.held := by
      have htally := held_setProducer s p (.active none)
      rw [hp] at htally
      simpa [heldItem] using htally
    have hledger := h.ledger
    rw [← hheld, add_comm _ ({item} : Multiset Int), ← add_assoc] at hledger
    rw [itemsPut_cons, putBy_room hp hroom]
    exact hledger
  | @full p item woken hp hfull =>
    refine ⟨n, (h.setProducer (by rw [hp]; simp) (by simp) (by rw [hp]; rfl)).congr ?_⟩
    rw [itemsPut_cons, putBy_full hfull]
    exact List.append_nil _
  | take hc hbuffer hnotify =>
    have hmid := h.notify hnotify
    exact ⟨n, ⟨hmid.next, hmid.bound, hmid.ledger, hmid.early⟩⟩
  | wakeProducer hp =>
    exact ⟨n, (h.setProducer (by rw [hp]; simp) (by simp) (by rw [hp]; rfl)).congr rfl⟩
  | stop | empty | wakeConsumer | joinProducer | joinConsumer | markDone =>
    exact ⟨n, ⟨h.next, h.bound, h.ledger, h.early⟩⟩

end

end BoundedBuffer

end AcademiaCr.Systems
