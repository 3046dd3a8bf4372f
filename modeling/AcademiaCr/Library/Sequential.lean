import Mathlib.Data.List.Nodup
import Mathlib.Tactic.Common

/-!
# Sequential execution

Operations on a state that are executed one after another, each with an answer. A
concurrent execution is compared with the sequential one in some order, and operations
that act on different components of the state do not see each other in any order.

## Main definitions

- `exec`: the answers to a list of operations and the state after them
- `Local`: an operation looks at one component only and leaves the others alone
- `exec_disjoint`: operations on different components act as if each was alone
-/

namespace Sequential

variable {O S R : Type} (run : O → S → R × S)

/-- Execute the operations in order, pairing each with its answer. -/
def exec : List O → S → List (O × R) × S
  | [], s => ([], s)
  | o :: os, s => ((o, (run o s).1) :: (exec os (run o s).2).1, (exec os (run o s).2).2)

@[simp] theorem exec_nil (s : S) : exec run [] s = ([], s) := rfl

@[simp] theorem exec_cons (o : O) (os : List O) (s : S) : exec run (o :: os) s =
    ((o, (run o s).1) :: (exec run os (run o s).2).1, (exec run os (run o s).2).2) := rfl

theorem exec_append (os ps : List O) (s : S) : exec run (os ++ ps) s =
    ((exec run os s).1 ++ (exec run ps (exec run os s).2).1,
      (exec run ps (exec run os s).2).2) := by
  induction os generalizing s with
  | nil => rfl
  | cons o os ih => simp only [List.cons_append, exec_cons, ih]

/-- One more operation is executed in the state after the others. -/
theorem exec_snoc (os : List O) (o : O) (s : S) : exec run (os ++ [o]) s =
    ((exec run os s).1 ++ [(o, (run o (exec run os s).2).1)], (run o (exec run os s).2).2) :=
  exec_append run os [o] s

@[simp] theorem map_exec (os : List O) (s : S) : (exec run os s).1.map (·.1) = os := by
  induction os generalizing s with
  | nil => rfl
  | cons o os ih => rw [exec_cons, List.map_cons, ih]

variable {run}

/-- What every operation keeps is kept by all of them. -/
theorem exec_invariant {I : S → Prop} {os : List O} (h : ∀ o ∈ os, ∀ s, I s → I (run o s).2) {s : S}
    (hs : I s) : I (exec run os s).2 := by
  induction os generalizing s with
  | nil => exact hs
  | cons o os ih =>
    exact ih (fun p hp => h p (List.mem_cons_of_mem _ hp)) (h o List.mem_cons_self s hs)

/-! ## Operations on different components -/

section Disjoint

variable {K V A : Type} {view : K → S → V} {key : O → K} {seen : R → A}

/-- The operation acts on the component with its key, and what is seen of its answer depends
on that component only. -/
structure Local (run : O → S → R × S) (view : K → S → V) (key : O → K) (seen : R → A) (o : O) :
    Prop where
  answer : ∀ s t, view (key o) s = view (key o) t → seen (run o s).1 = seen (run o t).1
  own : ∀ s t, view (key o) s = view (key o) t →
    view (key o) (run o s).2 = view (key o) (run o t).2
  others : ∀ s k, k ≠ key o → view k (run o s).2 = view k s

/-- A component that no operation acts on stays as it is. -/
theorem exec_others {os : List O} (h : ∀ o ∈ os, Local run view key seen o) {k : K}
    (hk : ∀ o ∈ os, k ≠ key o) (s : S) : view k (exec run os s).2 = view k s :=
  exec_invariant (I := fun t => view k t = view k s)
    (fun o ho t ht => ((h o ho).others t k (hk o ho)).trans ht) rfl

/-- Operations on pairwise different components are answered, and leave their components, as
if each was executed alone. -/
theorem exec_disjoint {os : List O} (h : ∀ o ∈ os, Local run view key seen o)
    (hkeys : (os.map key).Nodup) (s : S) :
    (∀ p ∈ (exec run os s).1, seen p.2 = seen (run p.1 s).1) ∧
      ∀ o ∈ os, view (key o) (exec run os s).2 = view (key o) (run o s).2 := by
  induction os generalizing s with
  | nil => simp
  | cons o os ih =>
    have ho := h o List.mem_cons_self
    have hrest := fun p hp => h p (List.mem_cons_of_mem _ hp)
    obtain ⟨hnot, hnodup⟩ := List.nodup_cons.mp hkeys
    have hne : ∀ p ∈ os, key p ≠ key o := fun p hp heq =>
      hnot (List.mem_map.mpr ⟨p, hp, heq⟩)
    obtain ⟨hanswers, hviews⟩ := ih hrest hnodup (run o s).2
    -- the first operation is out of sight of the others
    have hsame : ∀ p ∈ os, view (key p) (run o s).2 = view (key p) s :=
      fun p hp => ho.others s _ (hne p hp)
    constructor
    · intro p hp
      obtain rfl | hp := List.mem_cons.mp hp
      · rfl
      · have hmem : p.1 ∈ os := by
          rw [← map_exec run os (run o s).2]
          exact List.mem_map_of_mem hp
        rw [hanswers p hp]
        exact (hrest p.1 hmem).answer _ _ (hsame p.1 hmem)
    · intro p hp
      rw [exec_cons]
      obtain rfl | hp := List.mem_cons.mp hp
      · exact exec_others hrest (fun q hq => (hne q hq).symm) _
      · rw [hviews p hp]
        exact (hrest p hp).own _ _ (hsame p hp)

end Disjoint

end Sequential
