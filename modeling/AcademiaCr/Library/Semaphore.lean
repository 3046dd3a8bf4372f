import AcademiaCr.Library.Program
import Mathlib.Logic.Function.Basic
import Mathlib.Logic.Relation

/-!
# Programs that share a binary semaphore

A program that waits for a semaphore and posts it in turns is one that holds it exactly inside
its sections. Threads that run such programs exclude each other, and the semaphore is free
whenever none of them is inside a section.

## Main definitions

- `Prog.Moves`: from holding or not holding the semaphore, a program gets to the one or the other
- `Trace`: the semaphore operations of an execution, with any answers to the calls
- `Alternates`: waits and posts in turns
- `Threads.Step`: threads that share the semaphore
-/

namespace Resumption

universe u

/-- What a call does with the semaphore. -/
inductive SemOp where
  | wait
  | post
  deriving DecidableEq, Repr

/-- Waits and posts in turns, from a wait to a post. -/
inductive Alternates : List SemOp → Prop
  | nil : Alternates []
  | bracket {ops : List SemOp} : Alternates ops → Alternates (.wait :: .post :: ops)

variable {E : Type → Type u} {α β : Type} (semOp : ∀ {β}, E β → Option SemOp)

/-- An execution up to some call: the semaphore operations and the rest of the program. -/
inductive Trace : Prog E α → List SemOp → Prog E α → Prop
  | stop (p : Prog E α) : Trace p [] p
  | call {β : Type} {e : E β} {next : β → Prog E α} (r : β) {ops : List SemOp} {q : Prog E α} :
      Trace (next r) ops q → Trace (.call e next) ((semOp e).toList ++ ops) q

/-- Whatever the answers to its calls, a program that starts with the semaphore held or not
waits only when it does not hold it, posts only when it does, and ends as stated. -/
def Prog.Moves : Bool → Bool → Prog E α → Prop
  | start, finish, .ret _ => start = finish
  | start, finish, .call e next =>
    match semOp e with
    | none => ∀ r, (next r).Moves start finish
    | some .wait => start = false ∧ ∀ r, (next r).Moves true finish
    | some .post => start = true ∧ ∀ r, (next r).Moves false finish

namespace Prog

variable {semOp} {start finish held : Bool}

theorem moves_call {e : E β} {next : β → Prog E α} (h : semOp e = none) :
    (call e next).Moves semOp start finish ↔ ∀ r, (next r).Moves semOp start finish := by
  rw [Moves, h]

theorem moves_wait {e : E β} {next : β → Prog E α} (h : semOp e = some .wait) :
    (call e next).Moves semOp start finish ↔
      start = false ∧ ∀ r, (next r).Moves semOp true finish := by
  rw [Moves, h]

theorem moves_post {e : E β} {next : β → Prog E α} (h : semOp e = some .post) :
    (call e next).Moves semOp start finish ↔
      start = true ∧ ∀ r, (next r).Moves semOp false finish := by
  rw [Moves, h]

theorem Moves.bind {p : Prog E α} {f : α → Prog E β}
    (hp : p.Moves semOp start held) (hf : ∀ a, (f a).Moves semOp held finish) :
    (p.bind f).Moves semOp start finish := by
  induction p generalizing start with
  | ret a =>
    cases hp
    exact hf a
  | call e next ih =>
    rw [call_bind]
    cases h : semOp e with
    | none =>
      rw [moves_call h] at hp ⊢
      exact fun r => ih r (hp r)
    | some o =>
      cases o with
      | wait =>
        rw [moves_wait h] at hp ⊢
        exact ⟨hp.1, fun r => ih r (hp.2 r)⟩
      | post =>
        rw [moves_post h] at hp ⊢
        exact ⟨hp.1, fun r => ih r (hp.2 r)⟩

end Prog

/-! ## Traces -/

section Trace

variable {semOp} {held : Bool} {p q : Prog E α} {ops : List SemOp}

/-- What an execution has done with the semaphore can be completed to an alternation, by
nothing at all if the program has returned. -/
theorem Prog.Moves.trace (hp : p.Moves semOp held false) (ht : Trace semOp p ops q) :
    ∃ rest, Alternates (((if held then [.wait] else []) ++ ops) ++ rest) ∧
      ∀ a, q = .ret a → rest = [] := by
  induction ht generalizing held with
  | stop p =>
    cases held with
    | false => exact ⟨[], .nil, fun _ _ => rfl⟩
    | true =>
      refine ⟨[.post], .bracket .nil, fun a ha => ?_⟩
      rw [ha, Prog.Moves] at hp
      cases hp
  | @call β e next r ops q ht ih =>
    cases h : semOp e with
    | none =>
      rw [Prog.moves_call h] at hp
      simpa using ih (hp r)
    | some o =>
      cases o with
      | wait =>
        rw [Prog.moves_wait h] at hp
        obtain ⟨rfl, hnext⟩ := hp
        simpa using ih (hnext r)
      | post =>
        rw [Prog.moves_post h] at hp
        obtain ⟨rfl, hnext⟩ := hp
        obtain ⟨rest, halt, hend⟩ := ih (hnext r)
        exact ⟨rest, .bracket halt, hend⟩

theorem Prog.Moves.alternates (hp : p.Moves semOp false false) {a : α}
    (ht : Trace semOp p ops (.ret a)) : Alternates ops := by
  obtain ⟨rest, halt, hend⟩ := hp.trace ht
  rw [hend a rfl, List.append_nil] at halt
  exact halt

end Trace

/-! ## Threads -/

/-- Threads that share a semaphore. A thread is inside a section from a wait to the next post. -/
structure Threads (E : Type → Type u) (α ι : Type) where
  value : Nat
  rest : ι → Prog E α
  inside : ι → Bool

namespace Threads

variable {ι : Type} [DecidableEq ι]

/-- One call of one thread, with any answer; a wait needs a positive value. -/
inductive Step : Threads E α ι → Threads E α ι → Prop
  | other {s : Threads E α ι} {t : ι} {β : Type} {e : E β} {next : β → Prog E α} (r : β) :
      s.rest t = .call e next → semOp e = none →
      Step s { s with rest := Function.update s.rest t (next r) }
  | wait {s : Threads E α ι} {t : ι} {β : Type} {e : E β} {next : β → Prog E α} (r : β) {n : Nat} :
      s.rest t = .call e next → semOp e = some .wait → s.value = n + 1 →
      Step s ⟨n, Function.update s.rest t (next r), Function.update s.inside t true⟩
  | post {s : Threads E α ι} {t : ι} {β : Type} {e : E β} {next : β → Prog E α} (r : β) :
      s.rest t = .call e next → semOp e = some .post →
      Step s ⟨s.value + 1, Function.update s.rest t (next r), Function.update s.inside t false⟩

/-- Each thread holds the semaphore exactly while it is inside a section, and at most one
thread is. -/
structure Excluded (s : Threads E α ι) : Prop where
  moves : ∀ t, (s.rest t).Moves semOp (s.inside t) false
  held : ∀ t, s.inside t = true → s.value = 0
  free : (∀ t, s.inside t = false) → s.value = 1
  unique : ∀ t t', s.inside t = true → s.inside t' = true → t = t'

variable {semOp} {s s' : Threads E α ι}

omit [DecidableEq ι] in
theorem Excluded.of_programs {programs : ι → Prog E α}
    (h : ∀ t, (programs t).Moves semOp false false) :
    Excluded semOp (⟨1, programs, fun _ => false⟩ : Threads E α ι) where
  moves := h
  held t ht := by cases ht
  free _ := rfl
  unique t _ ht := by cases ht

theorem moves_update {inside : ι → Bool} {rest : ι → Prog E α} {t : ι} {p : Prog E α} {b : Bool}
    (h : ∀ u, (rest u).Moves semOp (inside u) false) (hp : p.Moves semOp b false) (u : ι) :
    (Function.update rest t p u).Moves semOp (Function.update inside t b u) false := by
  by_cases hu : u = t
  · subst hu
    rwa [Function.update_self, Function.update_self]
  · rw [Function.update_of_ne hu, Function.update_of_ne hu]
    exact h u

theorem Excluded.step (h : Excluded semOp s) (hs : Step semOp s s') : Excluded semOp s' := by
  cases hs with
  | @other t β e next r hrest hop =>
    have ht := h.moves t
    rw [hrest, Prog.moves_call hop] at ht
    refine { h with moves := fun u => ?_ }
    have hu := moves_update (t := t) h.moves (ht r) u
    rwa [Function.update_eq_self] at hu
  | @wait t β e next r n hrest hop hvalue =>
    have ht := h.moves t
    rw [hrest, Prog.moves_wait hop] at ht
    -- nobody is inside, since the value is positive
    have hnone : ∀ u, s.inside u = false := fun u => by
      cases hu : s.inside u with
      | false => rfl
      | true =>
        have hzero := h.held u hu
        omega
    have hn : n = 0 := by
      have hone := h.free hnone
      omega
    have honly : ∀ u, Function.update s.inside t true u = true → u = t := fun u hu => by
      by_contra hne
      rw [Function.update_of_ne hne, hnone u] at hu
      cases hu
    refine ⟨fun u => moves_update h.moves (ht.2 r) u, fun u _ => hn, fun hall => ?_, ?_⟩
    · have hcontra : Function.update s.inside t true t = false := hall t
      rw [Function.update_self] at hcontra
      cases hcontra
    · intro u u' hu hu'
      rw [honly u hu, honly u' hu']
  | @post t β e next r hrest hop =>
    have ht := h.moves t
    rw [hrest, Prog.moves_post hop] at ht
    -- the thread that posts was the only one inside
    have hnone : ∀ u, Function.update s.inside t false u = false := fun u => by
      by_cases hu : u = t
      · rw [hu, Function.update_self]
      · rw [Function.update_of_ne hu]
        cases hin : s.inside u with
        | false => rfl
        | true => exact absurd (h.unique u t hin ht.1) hu
    have hnotIn : ∀ u, Function.update s.inside t false u ≠ true := fun u => by
      rw [hnone u]
      exact Bool.false_ne_true
    refine ⟨fun u => moves_update h.moves (ht.2 r) u, fun u hu => absurd hu (hnotIn u),
      fun _ => ?_, fun u _ hu => absurd hu (hnotIn u)⟩
    show s.value + 1 = 1
    rw [h.held t ht.1]

theorem Excluded.reachable (h : Excluded semOp s)
    (hs : Relation.ReflTransGen (Step semOp) s s') : Excluded semOp s' := by
  induction hs with
  | refl => exact h
  | tail _ hstep ih => exact ih.step hstep

end Threads

end Resumption
