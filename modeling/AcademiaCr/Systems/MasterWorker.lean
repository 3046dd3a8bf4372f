import AcademiaCr.Library.CArray
import AcademiaCr.Library.Monitor
import AcademiaCr.Library.Run

/-!
# Masters and workers

`master-worker.c`: masters produce the items `0`, `1`, … into a buffer that workers empty from
its end. A section under `lock` is one step, from taking the lock, at first or after a wait, to
giving it back or to the next wait.

## Main definitions

- `MasterWorker`: the shared variables and where each thread is
- `MasterWorker.generateRequests`, `consumeRequests`: the sections, undefined outside the buffer
- `MasterWorker.step`, `MasterWorker.Step`: the steps, and what they do
- `MasterWorker.Orderly`: when threads sleep and return
-/

namespace AcademiaCr.Systems

open CLang Monitor Transition

/-! ## The program -/

/-- `item_to_produce`, `curr_buf_size`, `buffer` and the threads. -/
structure MasterWorker (numMasters numWorkers maxBufSize : Nat) where
  itemToProduce : Int
  currBufSize : Int
  buffer : CArray Int maxBufSize
  master : Fin numMasters → Thread Unit
  worker : Fin numWorkers → Thread Unit

namespace MasterWorker

variable {numMasters numWorkers maxBufSize : Nat}

/-- The state before any thread acts; `malloc` does not say what the buffer holds. -/
def start (numMasters numWorkers : Nat) (buffer : CArray Int maxBufSize) :
    MasterWorker numMasters numWorkers maxBufSize where
  itemToProduce := 0
  currBufSize := 0
  buffer
  master _ := .active ()
  worker _ := .active ()

def setMaster (s : MasterWorker numMasters numWorkers maxBufSize) (i : Fin numMasters)
    (t : Thread Unit) : MasterWorker numMasters numWorkers maxBufSize :=
  { s with master := Function.update s.master i t }

def setWorker (s : MasterWorker numMasters numWorkers maxBufSize) (i : Fin numWorkers)
    (t : Thread Unit) : MasterWorker numMasters numWorkers maxBufSize :=
  { s with worker := Function.update s.worker i t }

/-- The items in the buffer. -/
def stock (s : MasterWorker numMasters numWorkers maxBufSize) : List Int :=
  s.buffer.toList.take s.currBufSize.toNat

section

variable (s : MasterWorker numMasters numWorkers maxBufSize)

/-- A round of `generate_requests_loop`. -/
def generateRequests (totalItems : Int) (i : Fin numMasters) :
    Option (MasterWorker numMasters numWorkers maxBufSize) :=
  if s.currBufSize ≥ maxBufSize then some (s.setMaster i (.waiting ()))
  else if s.itemToProduce ≥ totalItems then
    some ({ s with master := broadcast s.master }.setMaster i .finished)
  else do
    let buffer ← s.buffer.set? s.currBufSize s.itemToProduce
    return { s with
      buffer, currBufSize := s.currBufSize + 1, itemToProduce := s.itemToProduce + 1,
      worker := broadcast s.worker }

/-- A round of `consume_requests_loop`. -/
def consumeRequests (totalItems : Int) (i : Fin numWorkers) :
    Option (MasterWorker numMasters numWorkers maxBufSize) :=
  if s.currBufSize = 0 then
    if s.itemToProduce ≥ totalItems then
      some ({ s with worker := broadcast s.worker }.setWorker i .finished)
    else some (s.setWorker i (.waiting ()))
  else do
    let _ ← s.buffer.get? (s.currBufSize - 1)
    return { s with currBufSize := s.currBufSize - 1, master := broadcast s.master }

end

/-! ## Steps -/

/-- What may happen next: the section of a thread, or a spurious wake-up. -/
inductive Action (numMasters numWorkers : Nat) where
  | generate (i : Fin numMasters)
  | consume (i : Fin numWorkers)
  | wakeMaster (i : Fin numMasters)
  | wakeWorker (i : Fin numWorkers)
  deriving DecidableEq

/-- One step, if the thread is where it begins. -/
def step (totalItems : Int) (s : MasterWorker numMasters numWorkers maxBufSize) :
    Action numMasters numWorkers → Option (MasterWorker numMasters numWorkers maxBufSize)
  | .generate i => if s.master i = .active () then s.generateRequests totalItems i else none
  | .consume i => if s.worker i = .active () then s.consumeRequests totalItems i else none
  | .wakeMaster i =>
    if s.master i = .waiting () then some (s.setMaster i (.active ())) else none
  | .wakeWorker i =>
    if s.worker i = .waiting () then some (s.setWorker i (.active ())) else none

/-- What a step can do. -/
inductive Step (totalItems : Int) (s : MasterWorker numMasters numWorkers maxBufSize) :
    Action numMasters numWorkers → MasterWorker numMasters numWorkers maxBufSize → Prop
  | full {i : Fin numMasters} (hi : s.master i = .active ())
    (hfull : (maxBufSize : Int) ≤ s.currBufSize) :
    Step totalItems s (.generate i) (s.setMaster i (.waiting ()))
  | produced {i : Fin numMasters} (hi : s.master i = .active ())
    (hroom : s.currBufSize < maxBufSize) (hdone : totalItems ≤ s.itemToProduce) :
    Step totalItems s (.generate i)
      ({ s with master := broadcast s.master }.setMaster i .finished)
  | produce {i : Fin numMasters} {buffer : CArray Int maxBufSize} (hi : s.master i = .active ())
    (hroom : s.currBufSize < maxBufSize) (hmore : s.itemToProduce < totalItems)
    (hbuffer : s.buffer.set? s.currBufSize s.itemToProduce = some buffer) :
    Step totalItems s (.generate i) { s with
      buffer, currBufSize := s.currBufSize + 1, itemToProduce := s.itemToProduce + 1,
      worker := broadcast s.worker }
  | consumed {i : Fin numWorkers} (hi : s.worker i = .active ()) (hempty : s.currBufSize = 0)
    (hdone : totalItems ≤ s.itemToProduce) :
    Step totalItems s (.consume i)
      ({ s with worker := broadcast s.worker }.setWorker i .finished)
  | empty {i : Fin numWorkers} (hi : s.worker i = .active ()) (hempty : s.currBufSize = 0)
    (hmore : s.itemToProduce < totalItems) :
    Step totalItems s (.consume i) (s.setWorker i (.waiting ()))
  | consume {i : Fin numWorkers} {ent : Int} (hi : s.worker i = .active ())
    (hstock : s.currBufSize ≠ 0) (hent : s.buffer.get? (s.currBufSize - 1) = some ent) :
    Step totalItems s (.consume i)
      { s with currBufSize := s.currBufSize - 1, master := broadcast s.master }
  | wakeMaster {i : Fin numMasters} (hi : s.master i = .waiting ()) :
    Step totalItems s (.wakeMaster i) (s.setMaster i (.active ()))
  | wakeWorker {i : Fin numWorkers} (hi : s.worker i = .waiting ()) :
    Step totalItems s (.wakeWorker i) (s.setWorker i (.active ()))

theorem step_cases {totalItems : Int} {s s' : MasterWorker numMasters numWorkers maxBufSize}
    {action : Action numMasters numWorkers} (h : s.step totalItems action = some s') :
    s.Step totalItems action s' := by
  cases action with
  | generate i =>
    simp only [step, generateRequests] at h
    split_ifs at h with hi hfull hdone
    · cases h
      exact .full hi hfull
    · cases h
      exact .produced hi (Int.lt_of_not_ge hfull) hdone
    · obtain ⟨buffer, hbuffer, hs'⟩ := Option.bind_eq_some_iff.mp h
      cases hs'
      exact .produce hi (Int.lt_of_not_ge hfull) (Int.lt_of_not_ge hdone) hbuffer
  | consume i =>
    simp only [step, consumeRequests] at h
    split_ifs at h with hi hempty hdone
    · cases h
      exact .consumed hi hempty hdone
    · cases h
      exact .empty hi hempty (Int.lt_of_not_ge hdone)
    · obtain ⟨ent, hent, hs'⟩ := Option.bind_eq_some_iff.mp h
      cases hs'
      exact .consume hi hempty hent
  | wakeMaster i =>
    simp only [step] at h
    split_ifs at h with hi
    cases h
    exact .wakeMaster hi
  | wakeWorker i =>
    simp only [step] at h
    split_ifs at h with hi
    cases h
    exact .wakeWorker hi

/-! ## Sizes and sleepers -/

/-- The counters are in range, a thread sleeps only when it has nothing to do, and it returns only
when all items have been produced. -/
structure Orderly (totalItems : Int) (s : MasterWorker numMasters numWorkers maxBufSize) :
    Prop where
  produced : 0 ≤ s.itemToProduce ∧ s.itemToProduce ≤ totalItems
  size : 0 ≤ s.currBufSize ∧ s.currBufSize ≤ maxBufSize
  masterWaits : ∀ i, (s.master i).Waits → (maxBufSize : Int) ≤ s.currBufSize
  workerWaits : ∀ i, (s.worker i).Waits → s.currBufSize = 0 ∧ s.itemToProduce < totalItems
  masterReturned : ∀ i, s.master i = .finished → totalItems ≤ s.itemToProduce
  workerReturned : ∀ i, s.worker i = .finished → s.currBufSize = 0 ∧ totalItems ≤ s.itemToProduce

section

variable {totalItems : Int} {s s' : MasterWorker numMasters numWorkers maxBufSize}

/-- A master that goes on. -/
theorem Orderly.setMaster (h : Orderly totalItems s) {i : Fin numMasters} {t : Thread Unit}
    (hwaits : t.Waits → (maxBufSize : Int) ≤ s.currBufSize)
    (hreturned : t = .finished → totalItems ≤ s.itemToProduce) :
    Orderly totalItems (s.setMaster i t) where
  produced := h.produced
  size := h.size
  masterWaits j hj := by
    by_cases hji : j = i
    · subst hji
      exact hwaits (by simpa [MasterWorker.setMaster] using hj)
    · exact h.masterWaits j (by simpa [MasterWorker.setMaster, hji] using hj)
  workerWaits := h.workerWaits
  masterReturned j hj := by
    by_cases hji : j = i
    · subst hji
      exact hreturned (by simpa [MasterWorker.setMaster] using hj)
    · exact h.masterReturned j (by simpa [MasterWorker.setMaster, hji] using hj)
  workerReturned := h.workerReturned

/-- A worker that goes on. -/
theorem Orderly.setWorker (h : Orderly totalItems s) {i : Fin numWorkers} {t : Thread Unit}
    (hwaits : t.Waits → s.currBufSize = 0 ∧ s.itemToProduce < totalItems)
    (hreturned : t = .finished → s.currBufSize = 0 ∧ totalItems ≤ s.itemToProduce) :
    Orderly totalItems (s.setWorker i t) where
  produced := h.produced
  size := h.size
  masterWaits := h.masterWaits
  workerWaits j hj := by
    by_cases hji : j = i
    · subst hji
      exact hwaits (by simpa [MasterWorker.setWorker] using hj)
    · exact h.workerWaits j (by simpa [MasterWorker.setWorker, hji] using hj)
  masterReturned := h.masterReturned
  workerReturned j hj := by
    by_cases hji : j = i
    · subst hji
      exact hreturned (by simpa [MasterWorker.setWorker] using hj)
    · exact h.workerReturned j (by simpa [MasterWorker.setWorker, hji] using hj)

theorem Orderly.start (htotal : 0 ≤ totalItems) (buffer : CArray Int maxBufSize) :
    Orderly totalItems (start numMasters numWorkers buffer) where
  produced := ⟨Int.le_refl 0, htotal⟩
  size := ⟨Int.le_refl 0, Int.natCast_nonneg _⟩
  masterWaits _ hi := absurd hi Thread.not_waits_active
  workerWaits _ hi := absurd hi Thread.not_waits_active
  masterReturned _ hi := nomatch hi
  workerReturned _ hi := nomatch hi

theorem Orderly.step (h : Orderly totalItems s) {action : Action numMasters numWorkers}
    (hs : s.Step totalItems action s') : Orderly totalItems s' := by
  obtain ⟨hitem, hitems⟩ := h.produced
  obtain ⟨hsize, hsizes⟩ := h.size
  cases hs with
  | full hi hfull => exact h.setMaster (fun _ => hfull) (fun ht => nomatch ht)
  | produced hi hroom hdone =>
    have hawake : Orderly totalItems { s with master := broadcast s.master } :=
      { h with
        masterWaits := fun j hj => absurd hj Thread.not_waits_awake
        masterReturned := fun j hj => h.masterReturned j (Thread.awake_eq_finished.mp hj) }
    exact hawake.setMaster (fun ht => absurd ht Thread.not_waits_finished) (fun _ => hdone)
  | produce hi hroom hmore hbuffer =>
    -- the workers are awake, and nobody has returned
    exact {
      produced := ⟨by show (0 : Int) ≤ s.itemToProduce + 1; omega, hmore⟩
      size := ⟨by show (0 : Int) ≤ s.currBufSize + 1; omega, hroom⟩
      masterWaits := fun j hj => by
        have hfull := h.masterWaits j hj
        omega
      workerWaits := fun j hj => absurd hj Thread.not_waits_awake
      masterReturned := fun j hj => by
        have hdone := h.masterReturned j hj
        omega
      workerReturned := fun j hj => by
        have hdone := (h.workerReturned j (Thread.awake_eq_finished.mp hj)).2
        omega }
  | consumed hi hempty hdone =>
    have hawake : Orderly totalItems { s with worker := broadcast s.worker } :=
      { h with
        workerWaits := fun j hj => absurd hj Thread.not_waits_awake
        workerReturned := fun j hj => h.workerReturned j (Thread.awake_eq_finished.mp hj) }
    exact hawake.setWorker (fun ht => absurd ht Thread.not_waits_finished)
      (fun _ => ⟨hempty, hdone⟩)
  | empty hi hempty hmore =>
    exact h.setWorker (fun _ => ⟨hempty, hmore⟩) (fun ht => nomatch ht)
  | consume hi hstock hent =>
    -- the masters are awake, and no worker sleeps or has returned while there is an item
    exact {
      produced := h.produced
      size := ⟨by show (0 : Int) ≤ s.currBufSize - 1; omega,
        by show s.currBufSize - 1 ≤ (maxBufSize : Int); omega⟩
      masterWaits := fun j hj => absurd hj Thread.not_waits_awake
      workerWaits := fun j hj => absurd (h.workerWaits j hj).1 hstock
      masterReturned := fun j hj => h.masterReturned j (Thread.awake_eq_finished.mp hj)
      workerReturned := fun j hj => absurd (h.workerReturned j hj).1 hstock }
  | wakeMaster hi =>
    exact h.setMaster (fun ht => absurd ht Thread.not_waits_active) (fun ht => nomatch ht)
  | wakeWorker hi =>
    exact h.setWorker (fun ht => absurd ht Thread.not_waits_active) (fun ht => nomatch ht)

/-- The sections access the buffer within its bounds. -/
theorem Orderly.generate_isSome (h : Orderly totalItems s) (i : Fin numMasters) :
    (s.generateRequests totalItems i).isSome := by
  rw [generateRequests]
  split_ifs with hfull hdone
  · rfl
  · rfl
  · have hindex : 0 ≤ s.currBufSize ∧ s.currBufSize < maxBufSize :=
      ⟨h.size.1, Int.lt_of_not_ge hfull⟩
    rw [CArray.set?, if_pos hindex]
    rfl

theorem Orderly.consume_isSome (h : Orderly totalItems s) (i : Fin numWorkers) :
    (s.consumeRequests totalItems i).isSome := by
  obtain ⟨hlo, hhi⟩ := h.size
  rw [consumeRequests]
  split_ifs with hempty hdone
  · rfl
  · rfl
  · have hindex : (s.currBufSize - 1).toNat < s.buffer.toList.length := by
      rw [s.buffer.length_toList]
      omega
    rw [CArray.get?, if_pos (by omega), List.getElem?_eq_getElem hindex]
    rfl

/-- Not all threads that have not returned wait. -/
theorem Orderly.not_stuck (h : Orderly totalItems s) (hmax : 0 < maxBufSize)
    (hmasters : 0 < numMasters) (hworkers : 0 < numWorkers) :
    ¬ (((∃ i, s.master i ≠ .finished) ∨ ∃ i, s.worker i ≠ .finished) ∧
      (∀ i, s.master i ≠ .finished → (s.master i).Waits) ∧
      ∀ i, s.worker i ≠ .finished → (s.worker i).Waits) := by
  rintro ⟨hunfinished, hmaster, hworker⟩
  by_cases hw : ∀ i, s.worker i = .finished
  · -- without items and workers a master would have to wait for room that there is
    have hempty := (h.workerReturned ⟨0, hworkers⟩ (hw _)).1
    obtain ⟨i, hi⟩ | ⟨i, hi⟩ := hunfinished
    · have hfull := h.masterWaits i (hmaster i hi)
      omega
    · exact hi (hw i)
  · -- a worker waits for items, so that some master has not returned, but waits for room
    obtain ⟨i, hi⟩ := not_forall.mp hw
    obtain ⟨hempty, hmore⟩ := h.workerWaits i (hworker i hi)
    by_cases hm : s.master ⟨0, hmasters⟩ = .finished
    · have hdone := h.masterReturned _ hm
      omega
    · have hfull := h.masterWaits _ (hmaster _ hm)
      omega

end

end MasterWorker

end AcademiaCr.Systems
