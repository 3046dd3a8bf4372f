import AcademiaCr.Systems.BufferRuns

/-!
# No thread of the bounded buffer is stuck

While a producer waits, the free slots are no more than the producers about to look at the
buffer, and while a consumer waits, the items are no more than the consumers about to look. So not
all unfinished threads wait, as long as no consumer takes an item for the end marker.

## Main definitions

- `BoundedBuffer.Draining`: when threads end, and when they wait
- `BoundedBuffer.Awaited`: no wake-up has been lost
- `BoundedBuffer.Stuck`: all unfinished threads wait
- `items_consumed`: the runs whose counter does not wrap around
-/

namespace AcademiaCr.Systems

open Monitor Tally Transition BoundedBuffer

variable {numProducers numConsumers : Nat}

namespace BoundedBuffer

/-! ## The ends of the threads -/

/-- `main` joins producers before and consumers after it has marked the end; consumers end, and do
not wait, when there is nothing left to do. -/
structure Draining (s : BoundedBuffer numProducers numConsumers) : Prop where
  before : ∀ k, s.main = .joinProducers k →
    s.done = false ∧ ∀ p : Fin numProducers, p < k → s.producer p = .finished
  after : ∀ k, s.main = .joinConsumers k → s.done = true ∧
    (∀ p, s.producer p = .finished) ∧ ∀ c : Fin numConsumers, c < k → s.consumer c = .finished
  ended : ∀ c, s.consumer c = .finished → s.done = true ∧ s.buffer = []
  asleep : ∀ c, (s.consumer c).Waits → s.done = false
  holding : ∀ p held, s.producer p = .waiting held → held.isSome = true

section

variable {totalItems : Int} {s s' : BoundedBuffer numProducers numConsumers}

theorem Draining.start (capacity : Nat) :
    Draining (BoundedBuffer.start numProducers numConsumers capacity) where
  before k hk := by
    cases hk
    exact ⟨rfl, fun p hp => absurd hp (Nat.not_lt_zero _)⟩
  after k hk := nomatch hk
  ended c hc := nomatch hc
  asleep c hc := absurd hc Thread.not_waits_active
  holding p held hp := nomatch hp

/-- After the end has been marked all producers have finished. -/
theorem Draining.producers (h : Draining s) (hdone : s.done = true) (p : Fin numProducers) :
    s.producer p = .finished := by
  cases hmain : s.main with
  | joinProducers k =>
    have hopen := (h.before k hmain).1
    rw [hdone] at hopen
    cases hopen
  | joinConsumers k => exact (h.after k hmain).2.1 p

/-- A producer that has not finished goes on. -/
theorem Draining.setProducer (h : Draining s) {p : Fin numProducers} {t : Thread (Option Int)}
    (hp : s.producer p ≠ .finished) (ht : ∀ held, t = .waiting held → held.isSome = true) :
    Draining (s.setProducer p t) where
  before k hk := by
    obtain ⟨hopen, hjoined⟩ := h.before k hk
    refine ⟨hopen, fun q hq => ?_⟩
    have hqp : q ≠ p := by
      rintro rfl
      exact hp (hjoined q hq)
    rw [setProducer_ne _ hqp]
    exact hjoined q hq
  after k hk := absurd ((h.after k hk).2.1 p) hp
  ended := h.ended
  asleep := h.asleep
  holding q held hq := by
    by_cases hqp : q = p
    · subst hqp
      rw [setProducer_self] at hq
      exact ht held hq
    · rw [setProducer_ne _ hqp] at hq
      exact h.holding q held hq

/-- A consumer that has not finished goes on. -/
theorem Draining.setConsumer (h : Draining s) {c : Fin numConsumers} {t : Thread Unit}
    (hc : s.consumer c ≠ .finished) (hended : t = .finished → s.done = true ∧ s.buffer = [])
    (hasleep : t.Waits → s.done = false) : Draining (s.setConsumer c t) where
  before := h.before
  after k hk := by
    obtain ⟨hdone, hproducers, hjoined⟩ := h.after k hk
    refine ⟨hdone, hproducers, fun d hd => ?_⟩
    have hdc : d ≠ c := by
      rintro rfl
      exact hc (hjoined d hd)
    rw [setConsumer_ne _ hdc]
    exact hjoined d hd
  ended d hd := by
    by_cases hdc : d = c
    · subst hdc
      rw [setConsumer_self] at hd
      exact hended hd
    · rw [setConsumer_ne _ hdc] at hd
      exact h.ended d hd
  asleep d hd := by
    by_cases hdc : d = c
    · subst hdc
      rw [setConsumer_self] at hd
      exact hasleep hd
    · rw [setConsumer_ne _ hdc] at hd
      exact h.asleep d hd
  holding := h.holding

/-- Producers are woken. -/
theorem Draining.notifyProducer (h : Draining s) {woken : Option (Fin numProducers)}
    {producer : Fin numProducers → Thread (Option Int)}
    (hnotify : notify s.producer woken = some producer) : Draining { s with producer } := by
  have hended : ∀ p, s.producer p = .finished → producer p = .finished := by
    intro p hp
    rcases notify_apply hnotify p with heq | heq <;> rw [heq, hp]
    rfl
  refine ⟨fun k hk => ?_, fun k hk => ?_, h.ended, h.asleep, fun p held hp => ?_⟩
  · obtain ⟨hopen, hjoined⟩ := h.before k hk
    exact ⟨hopen, fun p hp => hended p (hjoined p hp)⟩
  · obtain ⟨hdone, hproducers, hjoined⟩ := h.after k hk
    exact ⟨hdone, fun p => hended p (hproducers p), hjoined⟩
  · have hp : producer p = .waiting held := hp
    rcases notify_apply hnotify p with heq | heq <;> rw [heq] at hp
    · exact h.holding p held hp
    · exact absurd hp Thread.awake_ne_waiting

/-- An item comes before the end has been marked, and a consumer is woken. -/
theorem Draining.push (h : Draining s) (hopen : s.done = false) (item : Int)
    {woken : Option (Fin numConsumers)} {consumer : Fin numConsumers → Thread Unit}
    (hnotify : notify s.consumer woken = some consumer) :
    Draining { s with buffer := s.buffer ++ [item], consumer } := by
  have hnone : ∀ c, consumer c ≠ .finished := by
    intro c hc
    have hdone : s.consumer c = .finished := by
      rcases notify_apply hnotify c with heq | heq <;> rw [heq] at hc
      · exact hc
      · exact Thread.awake_eq_finished.mp hc
    have hclosed := (h.ended c hdone).1
    rw [hopen] at hclosed
    cases hclosed
  refine ⟨h.before, fun k hk => ?_, fun c hc => absurd hc (hnone c), fun _ _ => hopen, h.holding⟩
  have hclosed := (h.after k hk).1
  rw [hopen] at hclosed
  cases hclosed

theorem Draining.step (h : Draining s) (hitems : ∀ item ∈ s.buffer, 0 ≤ item)
    {action : Action numProducers numConsumers} (hs : s.Step totalItems action s') :
    Draining s' := by
  cases hs with
  | fetched hp =>
    have hmid : Draining { s with nextItem := fetchAdd s.nextItem } :=
      ⟨h.before, h.after, h.ended, h.asleep, h.holding⟩
    exact hmid.setProducer (by simp [hp]) (by simp)
  | exhausted hp =>
    have hmid : Draining { s with nextItem := fetchAdd s.nextItem } :=
      ⟨h.before, h.after, h.ended, h.asleep, h.holding⟩
    exact hmid.setProducer (by simp [hp]) (by simp)
  | @put p item woken consumer hp hroom hnotify =>
    -- a producer that has not finished shows that the end has not been marked
    have hopen : s.done = false := by
      cases hdone : s.done with
      | false => rfl
      | true =>
        rw [h.producers hdone p] at hp
        cases hp
    exact (h.push hopen item hnotify).setProducer (by simp [hp]) (by simp)
  | full hp => exact h.setProducer (by simp [hp]) (by simp)
  | @take c item rest woken producer hc hbuffer hnotify =>
    -- the item is not the end marker, and there was one, so that no consumer has ended
    have hitem : item ≠ -1 := by
      have hnonneg := hitems item (by rw [hbuffer]; exact List.mem_cons_self)
      omega
    have hnone : ∀ d, s.consumer d ≠ .finished := by
      intro d hd
      have hempty := (h.ended d hd).2
      rw [hbuffer] at hempty
      cases hempty
    have hwoken := h.notifyProducer hnotify
    have hmid : Draining { s with buffer := rest, producer } :=
      ⟨hwoken.before, hwoken.after, fun d hd => absurd hd (hnone d), h.asleep, hwoken.holding⟩
    rw [if_neg hitem]
    exact hmid.setConsumer (hnone c) (by simp) (by simp)
  | stop hc hempty hdone =>
    exact h.setConsumer (by simp [hc]) (fun _ => ⟨hdone, hempty⟩) (by simp)
  | empty hc hempty hdone => exact h.setConsumer (by simp [hc]) (by simp) fun _ => hdone
  | wakeProducer hp => exact h.setProducer (by simp [hp]) (by simp)
  | wakeConsumer hc => exact h.setConsumer (by simp [hc]) (by simp) (by simp)
  | @joinProducer p hmain hp =>
    refine ⟨fun k hk => ?_, fun k hk => (nomatch hk), h.ended, h.asleep, h.holding⟩
    cases hk
    obtain ⟨hopen, hjoined⟩ := h.before p hmain
    refine ⟨hopen, fun q hq => ?_⟩
    obtain hlt | heq := Nat.lt_succ_iff_lt_or_eq.mp hq
    · exact hjoined q hlt
    · rw [Fin.ext heq]
      exact hp
  | @joinConsumer c hmain hc =>
    refine ⟨fun k hk => (nomatch hk), fun k hk => ?_, h.ended, h.asleep, h.holding⟩
    cases hk
    obtain ⟨hdone, hproducers, hjoined⟩ := h.after c hmain
    refine ⟨hdone, hproducers, fun d hd => ?_⟩
    obtain hlt | heq := Nat.lt_succ_iff_lt_or_eq.mp hd
    · exact hjoined d hlt
    · rw [Fin.ext heq]
      exact hc
  | markDone hmain =>
    -- all producers have been joined, and all consumers are awake
    obtain ⟨hopen, hjoined⟩ := h.before numProducers hmain
    refine ⟨fun k hk => (nomatch hk), fun k hk => ?_, fun c hc => ?_, fun c hc => ?_, h.holding⟩
    · cases hk
      exact ⟨rfl, fun p => hjoined p p.isLt, fun d hd => absurd hd (Nat.not_lt_zero _)⟩
    · have hended := (h.ended c (Thread.awake_eq_finished.mp hc)).1
      rw [hopen] at hended
      cases hended
    · exact absurd hc Thread.not_waits_awake

end

/-! ## Wake-ups -/

/-- The free slots await producers, and the items consumers. -/
structure Awaited (s : BoundedBuffer numProducers numConsumers) : Prop where
  slots : Signalled Option.isSome (s.capacity - s.buffer.length) s.producer
  items : Signalled (fun _ => true) s.buffer.length s.consumer

section

variable {totalItems : Int} {s s' : BoundedBuffer numProducers numConsumers}

theorem Awaited.start (capacity : Nat) :
    Awaited (BoundedBuffer.start numProducers numConsumers capacity) where
  slots := fun ⟨_, hp⟩ => absurd hp Thread.not_waits_active
  items := Signalled.zero _

theorem Awaited.step (h : Awaited s) (hd : Draining s)
    {action : Action numProducers numConsumers} (hs : s.Step totalItems action s') :
    Awaited s' := by
  cases hs with
  | fetched hp =>
    exact ⟨h.slots.update (by simp) (by rw [hp]; exact Nat.le_add_right _ _), h.items⟩
  | exhausted hp => exact ⟨h.slots.update (by simp) (by rw [hp]; exact Nat.le_refl _), h.items⟩
  | @put p item woken consumer hp hroom hnotify =>
    -- one slot less and one producer less that looks; one item more, with a notification
    constructor
    · refine h.slots.update (by simp) ?_
      rw [hp]
      show s.capacity - (s.buffer ++ [item]).length + 1 ≤ s.capacity - s.buffer.length + 0
      rw [List.length_append, List.length_singleton]
      omega
    · show Signalled _ (s.buffer ++ [item]).length consumer
      rw [List.length_append]
      exact h.items.of_notify hnotify fun _ _ _ => rfl
  | full hp hfull =>
    have hnoroom : s.capacity - s.buffer.length = 0 := Nat.sub_eq_zero_of_le hfull
    refine ⟨?_, h.items⟩
    show Signalled _ (s.capacity - s.buffer.length) _
    rw [hnoroom]
    exact Signalled.zero _
  | @take c item rest woken producer hc hbuffer hnotify =>
    -- one item less and at most one consumer less that looks; one slot more, with a notification
    constructor
    · refine (h.slots.of_notify hnotify hd.holding).mono ?_
      show s.capacity - rest.length ≤ s.capacity - s.buffer.length + 1
      rw [hbuffer, List.length_cons]
      omega
    · have hold := h.items
      rw [hbuffer] at hold
      refine hold.update (by split_ifs <;> simp) ?_
      rw [hc]
      exact Nat.le_add_right _ _
  | stop hc hempty | empty hc hempty =>
    refine ⟨h.slots, ?_⟩
    show Signalled _ s.buffer.length _
    rw [hempty]
    exact Signalled.zero _
  | wakeProducer hp => exact ⟨h.slots.wakeUp hp, h.items⟩
  | wakeConsumer hc => exact ⟨h.slots, h.items.wakeUp hc⟩
  | joinProducer | joinConsumer => exact ⟨h.slots, h.items⟩
  | markDone => exact ⟨h.slots, Signalled.of_broadcast _⟩

end

/-! ## Stuck states -/

/-- `main` has joined all threads. -/
def MainFinished (s : BoundedBuffer numProducers numConsumers) : Prop :=
  s.main = .joinConsumers numConsumers

/-- `main` is in the `join` of a thread that has not finished. -/
def MainWaits (s : BoundedBuffer numProducers numConsumers) : Prop :=
  (∃ p : Fin numProducers, s.main = .joinProducers p ∧ s.producer p ≠ .finished) ∨
    ∃ c : Fin numConsumers, s.main = .joinConsumers c ∧ s.consumer c ≠ .finished

/-- There is an unfinished thread, and all unfinished threads wait. -/
def Stuck (s : BoundedBuffer numProducers numConsumers) : Prop :=
  ((∃ p, s.producer p ≠ .finished) ∨ (∃ c, s.consumer c ≠ .finished) ∨ ¬ s.MainFinished) ∧
  (∀ p, s.producer p ≠ .finished → (s.producer p).Waits) ∧
  (∀ c, s.consumer c ≠ .finished → (s.consumer c).Waits) ∧
  (¬ s.MainFinished → s.MainWaits)

theorem Awaited.not_stuck {s : BoundedBuffer numProducers numConsumers} (h : Awaited s)
    (hd : Draining s) (hcapacity : 0 < s.capacity) (hconsumers : 0 < numConsumers) :
    ¬ s.Stuck := by
  rintro ⟨hunfinished, hproducer, hconsumer, hmain⟩
  by_cases hfinished : s.MainFinished
  · obtain ⟨_, hproducers, hjoined⟩ := hd.after numConsumers hfinished
    obtain ⟨p, hp⟩ | ⟨c, hc⟩ | hmain := hunfinished
    · exact hp (hproducers p)
    · exact hc (hjoined c c.isLt)
    · exact hmain hfinished
  · obtain ⟨p, _, hp⟩ | ⟨c, hk, hc⟩ := hmain hfinished
    · -- a producer waits for a slot, so that the buffer is full, but nobody takes an item
      have hfull := h.slots.eq_zero (fun q => or_iff_not_imp_left.mpr (hproducer q))
        ⟨p, hproducer p hp⟩
      have hitems : s.buffer ≠ [] := by
        intro hempty
        rw [hempty, List.length_nil] at hfull
        omega
      have hunended : ∀ c, s.consumer c ≠ .finished := fun c hc => hitems (hd.ended c hc).2
      have hnone := h.items.eq_zero (fun c => Or.inr (hconsumer c (hunended c)))
        ⟨⟨0, hconsumers⟩, hconsumer _ (hunended _)⟩
      exact hitems (List.length_eq_zero_iff.mp hnone)
    · -- a consumer waits after the end has been marked
      have hdone := (hd.after c hk).1
      rw [hd.asleep c (hconsumer c hc)] at hdone
      cases hdone

end BoundedBuffer

/-! ## Runs -/

section

variable {totalItems : Int} {capacity : Nat} {s : BoundedBuffer numProducers numConsumers}
  {history : List (BufferEvent numProducers numConsumers)}

theorem order_of_run (hr : BufferRun totalItems capacity history s) :
    itemsPut history = itemsTaken history ++ s.buffer := by
  induction hr with
  | start => rfl
  | snoc _ hstep ih => exact order_step ih (step_cases hstep)

theorem size_of_run (hr : BufferRun totalItems capacity history s) :
    s.buffer.length ≤ s.capacity ∧ s.capacity = capacity := by
  induction hr with
  | start => exact ⟨Nat.zero_le _, rfl⟩
  | snoc _ hstep ih =>
    obtain ⟨hsize, hsame⟩ := size_step ih.1 (step_cases hstep)
    exact ⟨hsize, hsame.trans ih.2⟩

theorem counted_of_run (htotal : 0 ≤ totalItems) (hfits : totalItems + numProducers ≤ 2 ^ 31)
    (hr : BufferRun totalItems capacity history s) : ∃ n, Counted totalItems history s n := by
  induction hr with
  | start =>
    have hnone : (BoundedBuffer.start numProducers numConsumers capacity).held = 0 :=
      tally_eq_zero fun _ => rfl
    refine ⟨0, rfl, ?_, ?_, fun p hp => (nomatch hp)⟩
    · push_cast
      omega
    · have hmin : min ((0 : Nat) : Int) totalItems = 0 := by omega
      rw [hnone, hmin]
      rfl
  | snoc _ hstep ih =>
    obtain ⟨n, hn⟩ := ih
    exact hn.step hfits (step_cases hstep)

/-- No item is the end marker. -/
theorem nonneg_of_run (htotal : 0 ≤ totalItems) (hfits : totalItems + numProducers ≤ 2 ^ 31)
    (hr : BufferRun totalItems capacity history s) : ∀ item ∈ s.buffer, 0 ≤ item := by
  intro item hitem
  obtain ⟨n, hn⟩ := counted_of_run htotal hfits hr
  have hput : item ∈ itemsPut history := by
    rw [order_of_run hr]
    exact List.mem_append_right _ hitem
  have hmem : item ∈ (items (min n totalItems) : Multiset Int) := by
    rw [← hn.ledger]
    exact Multiset.mem_add.mpr (Or.inl hput)
  obtain ⟨i, _, rfl⟩ := List.mem_map.mp hmem
  exact Int.natCast_nonneg i

theorem drained_of_run (htotal : 0 ≤ totalItems) (hfits : totalItems + numProducers ≤ 2 ^ 31)
    (hr : BufferRun totalItems capacity history s) : Draining s := by
  induction hr with
  | start => exact Draining.start capacity
  | snoc hr hstep ih => exact ih.step (nonneg_of_run htotal hfits hr) (step_cases hstep)

theorem awaited_of_run (htotal : 0 ≤ totalItems) (hfits : totalItems + numProducers ≤ 2 ^ 31)
    (hr : BufferRun totalItems capacity history s) : Awaited s := by
  induction hr with
  | start => exact Awaited.start capacity
  | snoc hr hstep ih => exact ih.step (drained_of_run htotal hfits hr) (step_cases hstep)

/-- In every run in which the counter does not wrap around: the buffer is within its capacity; the
items put are those taken and those in the buffer, in their order; not all unfinished threads wait;
and when producers and consumers have finished, every item has been taken once. -/
theorem items_consumed (htotal : 0 ≤ totalItems) (hcapacity : 0 < capacity)
    (hproducers : 0 < numProducers) (hconsumers : 0 < numConsumers)
    (hfits : totalItems + numProducers ≤ 2 ^ 31) (hr : BufferRun totalItems capacity history s) :
    s.buffer.length ≤ capacity ∧ itemsTaken history ++ s.buffer = itemsPut history ∧ ¬ s.Stuck ∧
    ((∀ p, s.producer p = .finished) → (∀ c, s.consumer c = .finished) →
      (itemsTaken history).Perm (items totalItems)) := by
  obtain ⟨hsize, hsame⟩ := size_of_run hr
  have hd := drained_of_run htotal hfits hr
  have horder := order_of_run hr
  refine ⟨hsame ▸ hsize, horder.symm,
    (awaited_of_run htotal hfits hr).not_stuck hd (hsame ▸ hcapacity) hconsumers,
    fun hproducer hconsumer => ?_⟩
  obtain ⟨n, hn⟩ := counted_of_run htotal hfits hr
  have hempty : s.buffer = [] := (hd.ended ⟨0, hconsumers⟩ (hconsumer _)).2
  have hnone : s.held = 0 := by
    refine tally_eq_zero fun p => ?_
    rw [hproducer p]
    rfl
  have hall : min (n : Int) totalItems = totalItems :=
    Int.min_eq_right (hn.early ⟨0, hproducers⟩ (hproducer _))
  have hledger := hn.ledger
  rw [hnone, add_zero, hall, horder, hempty, List.append_nil] at hledger
  exact Multiset.coe_eq_coe.mp hledger

end

/-- One item, for which the consumer waits. All threads finish, and the item has been taken. -/
theorem awaitedItem_consumed : ∃ (history : List (BufferEvent 1 1)) (s : BoundedBuffer 1 1),
    BufferRun 1 1 history s ∧ s.MainFinished ∧ (itemsTaken history).Perm [0] := by
  have hr : BufferRun 1 1 _ _ := replay_run Run.start
    (show replay (BoundedBuffer.step 1) [] (BoundedBuffer.start 1 1 1)
      [.consume 0 none, .fetch 0, .produce 0 (some 0), .consume 0 none, .fetch 0, .join, .markDone,
        .consume 0 none, .join] = some _ from rfl)
  exact ⟨_, _, hr, rfl, (items_consumed (by decide) Nat.one_pos Nat.one_pos Nat.one_pos
    (by decide) hr).2.2.2 (fun | 0 => rfl) (fun | 0 => rfl)⟩

end AcademiaCr.Systems
