import AcademiaCr.Systems.MasterWorker

/-!
# What a run of masters and workers does with its items

The items produced so far are those that have been consumed and those in the buffer, each of
them once.

## Main definitions

- `MasterWorkerRun`: the runs of the program
- `consumed`: the items that workers have taken, oldest first
- `items_delivered`
-/

namespace AcademiaCr.Systems

open CLang Monitor Transition MasterWorker

variable {numMasters numWorkers maxBufSize : Nat}

/-- The runs with `totalItems` items, from any contents of the buffer. -/
abbrev MasterWorkerRun (totalItems : Int) (buffer : CArray Int maxBufSize)
    (history : List (Event (MasterWorker numMasters numWorkers maxBufSize)
      (Action numMasters numWorkers)))
    (s : MasterWorker numMasters numWorkers maxBufSize) : Prop :=
  Run (MasterWorker.step totalItems) (MasterWorker.start numMasters numWorkers buffer) history s

namespace MasterWorker

/-- The item that a section of `consume_requests_loop` takes. -/
def consumedBy (e : Event (MasterWorker numMasters numWorkers maxBufSize)
    (Action numMasters numWorkers)) : Option Int :=
  match e.label with
  | .consume _ =>
    if e.before.currBufSize = 0 then none else e.before.buffer.get? (e.before.currBufSize - 1)
  | _ => none

def consumed (history : List (Event (MasterWorker numMasters numWorkers maxBufSize)
    (Action numMasters numWorkers))) : List Int :=
  (history.filterMap consumedBy).reverse

section

variable {totalItems : Int} {s s' : MasterWorker numMasters numWorkers maxBufSize}
  {history : List (Event (MasterWorker numMasters numWorkers maxBufSize)
    (Action numMasters numWorkers))}

theorem consumed_cons (e : Event (MasterWorker numMasters numWorkers maxBufSize)
    (Action numMasters numWorkers)) :
    consumed (e :: history) = consumed history ++ (consumedBy e).toList := by
  rw [consumed, List.filterMap_cons]
  cases consumedBy e <;> simp [consumed]

/-- The items produced so far are those consumed and those in the buffer. -/
def Ledger (history : List (Event (MasterWorker numMasters numWorkers maxBufSize)
    (Action numMasters numWorkers))) (s : MasterWorker numMasters numWorkers maxBufSize) : Prop :=
  (consumed history ++ s.stock).Perm (items s.itemToProduce)

/-- An item is put at the end of the stock. -/
theorem stock_produce {buffer : CArray Int maxBufSize} (hsize : 0 ≤ s.currBufSize)
    (hbuffer : s.buffer.set? s.currBufSize s.itemToProduce = some buffer) :
    buffer.toList.take (s.currBufSize + 1).toNat = s.stock ++ [s.itemToProduce] := by
  obtain ⟨_, hlt, hlist⟩ := CArray.set?_eq_some hbuffer
  have hindex : s.currBufSize.toNat < s.buffer.toList.length := by
    rw [s.buffer.length_toList]
    omega
  have hsucc : (s.currBufSize + 1).toNat = s.currBufSize.toNat + 1 := by omega
  rw [hlist, hsucc, stock, List.take_add_one, List.take_set_of_le (Nat.le_refl _),
    List.getElem?_set_self hindex]
  rfl

/-- An item is taken from the end of the stock. -/
theorem stock_consume {ent : Int} (hsize : 0 < s.currBufSize)
    (hent : s.buffer.get? (s.currBufSize - 1) = some ent) :
    s.stock = s.buffer.toList.take (s.currBufSize - 1).toNat ++ [ent] := by
  have hsucc : s.currBufSize.toNat = (s.currBufSize - 1).toNat + 1 := by omega
  rw [CArray.get?, if_pos (by omega)] at hent
  rw [stock, hsucc, List.take_add_one, hent]
  rfl

theorem Ledger.step (h : Ledger history s) (ho : Orderly totalItems s)
    {action : Action numMasters numWorkers} (hs : s.Step totalItems action s') :
    Ledger (⟨s, action, s'⟩ :: history) s' := by
  have hsame : ∀ {action s'}, consumedBy (⟨s, action, s'⟩ : Event
      (MasterWorker numMasters numWorkers maxBufSize) _) = none →
        consumed (⟨s, action, s'⟩ :: history) = consumed history := by
    intro action s' hnone
    rw [consumed_cons, hnone]
    exact List.append_nil _
  rw [Ledger] at h ⊢
  cases hs with
  | full | produced | wakeMaster | wakeWorker =>
    rw [hsame rfl]
    exact h
  | @consumed i hi hempty | @empty i hi hempty =>
    have hnone : ∀ s', consumedBy (⟨s, .consume i, s'⟩ : Event
        (MasterWorker numMasters numWorkers maxBufSize) _) = none := fun _ => if_pos hempty
    rw [hsame (hnone _)]
    exact h
  | produce hi hroom hmore hbuffer =>
    rw [hsame rfl]
    show (consumed history ++ _).Perm (items (s.itemToProduce + 1))
    rw [stock, stock_produce ho.size.1 hbuffer, items_succ ho.produced.1, ← List.append_assoc]
    exact h.append_right _
  | @consume i ent hi hstock hent =>
    have hby : ∀ s', consumedBy (⟨s, .consume i, s'⟩ : Event
        (MasterWorker numMasters numWorkers maxBufSize) _) = some ent :=
      fun _ => (if_neg hstock).trans hent
    rw [consumed_cons, hby]
    show (consumed history ++ [ent] ++ s.buffer.toList.take (s.currBufSize - 1).toNat).Perm
      (items s.itemToProduce)
    have hpos : 0 < s.currBufSize := by
      have hsize := ho.size.1
      omega
    rw [stock_consume hpos hent] at h
    refine List.Perm.trans ?_ h
    rw [List.append_assoc]
    exact List.perm_append_comm.append_left _

end

end MasterWorker

section

variable {totalItems : Int} {buffer : CArray Int maxBufSize}
  {s : MasterWorker numMasters numWorkers maxBufSize}
  {history : List (Event (MasterWorker numMasters numWorkers maxBufSize)
    (Action numMasters numWorkers))}

theorem orderly_of_run (htotal : 0 ≤ totalItems)
    (hr : MasterWorkerRun totalItems buffer history s) : Orderly totalItems s := by
  induction hr with
  | start => exact Orderly.start htotal buffer
  | snoc _ hstep ih => exact ih.step (step_cases hstep)

theorem ledger_of_run (htotal : 0 ≤ totalItems)
    (hr : MasterWorkerRun totalItems buffer history s) : Ledger history s := by
  induction hr with
  | start => exact List.Perm.refl _
  | snoc hr hstep ih => exact ih.step (orderly_of_run htotal hr) (step_cases hstep)

/-- In every run: the sections stay within the buffer; the items produced so far, all different,
are those consumed and those in the buffer; not all threads that have not returned wait; and when
all have returned, every item has been consumed once. -/
theorem items_delivered (htotal : 0 ≤ totalItems) (hmax : 0 < maxBufSize)
    (hmasters : 0 < numMasters) (hworkers : 0 < numWorkers)
    (hr : MasterWorkerRun totalItems buffer history s) :
    ((∀ i, (s.generateRequests totalItems i).isSome) ∧
      (∀ i, (s.consumeRequests totalItems i).isSome) ∧
      0 ≤ s.currBufSize ∧ s.currBufSize ≤ maxBufSize) ∧
    ((consumed history ++ s.stock).Perm (items s.itemToProduce) ∧
      (consumed history ++ s.stock).Nodup) ∧
    ¬ (((∃ i, s.master i ≠ .finished) ∨ ∃ i, s.worker i ≠ .finished) ∧
      (∀ i, s.master i ≠ .finished → (s.master i).Waits) ∧
      ∀ i, s.worker i ≠ .finished → (s.worker i).Waits) ∧
    ((∀ i, s.master i = .finished) → (∀ i, s.worker i = .finished) →
      (consumed history).Perm (items totalItems)) := by
  have ho := orderly_of_run htotal hr
  have hd := ledger_of_run htotal hr
  refine ⟨⟨ho.generate_isSome, ho.consume_isSome, ho.size⟩,
    ⟨hd, hd.nodup_iff.mpr (items_nodup _)⟩, ho.not_stuck hmax hmasters hworkers,
    fun hmaster hworker => ?_⟩
  have hall : s.itemToProduce = totalItems :=
    Int.le_antisymm ho.produced.2 (ho.masterReturned ⟨0, hmasters⟩ (hmaster _))
  have hempty := (ho.workerReturned ⟨0, hworkers⟩ (hworker _)).1
  rw [Ledger, stock, hempty, hall] at hd
  simpa using hd

end

/-- One item for one master and one worker: the worker waits for the item and the master for
room; both return, and the item has been consumed. -/
theorem oneItem_delivered : ∃ (history : List (Event (MasterWorker 1 1 1) (Action 1 1)))
    (s : MasterWorker 1 1 1), MasterWorkerRun 1 ⟨[7], rfl⟩ history s ∧
      (consumed history).Perm [0] := by
  have hr : MasterWorkerRun 1 (⟨[7], rfl⟩ : CArray Int 1) _ _ := replay_run Run.start
    (show replay (MasterWorker.step 1) [] (MasterWorker.start 1 1 ⟨[7], rfl⟩)
      [.consume 0, .generate 0, .generate 0, .consume 0, .generate 0, .consume 0] = some _ from rfl)
  exact ⟨_, _, hr, (items_delivered (by decide) Nat.one_pos Nat.one_pos Nat.one_pos hr).2.2.2
    (fun | 0 => rfl) (fun | 0 => rfl)⟩

end AcademiaCr.Systems
