import AcademiaCr.Library.Progress

/-!
# Two programs at the ends of a connection

Each end writes pieces and reads them in the order in which the other end has written them. A
read finds what one write has written, takes as much of it as it asks for, and waits while there
is nothing; once the other end has finished it finds nothing for good. The two ends take their
steps in any order, but it makes no difference in which: where one order brings a dialogue to its
end, every order does.

## Main definitions

- `EndCall`: what an end can do
- `Dialogue`: both programs and what is on its way between them
- `Dialogue.Leads`: how a dialogue can go on
- `inevitable_of_leads`: all schedules lead where one does
-/

namespace Resumption

open Prog Transition

/-- The calls of one end of a connection. -/
inductive EndCall (γ : Type) : Type → Type where
  | read (n : Nat) : EndCall γ (List γ)
  | write (piece : List γ) : EndCall γ Unit

/-- Both ends, and the pieces that have been written to each and not been read. -/
structure Dialogue (γ α β : Type) where
  left : Prog (EndCall γ) α
  right : Prog (EndCall γ) β
  toLeft : List (List γ)
  toRight : List (List γ)

/-- The two ends. -/
inductive Side where
  | left
  | right
  deriving DecidableEq

section

variable {γ α β : Type}

/-- The pieces, where an empty one is none. -/
def pieces (piece : List γ) : List (List γ) := if piece.isEmpty then [] else [piece]

@[simp] theorem pieces_nil : pieces ([] : List γ) = [] := rfl

theorem pieces_of_ne {piece : List γ} (h : piece ≠ []) : pieces piece = [piece] :=
  if_neg fun hempty => h (List.isEmpty_iff.mp hempty)

namespace Prog

def finished : Prog (EndCall γ) α → Bool
  | ret _ => true
  | call _ _ => false

/-- The next step of an end: the rest of its program, what it leaves unread and what it
writes. A read waits for a piece unless the other end is `closed`. -/
def act (closed : Bool) : Prog (EndCall γ) α → List (List γ) →
    Option (Prog (EndCall γ) α × List (List γ) × List (List γ))
  | ret _, _ => none
  | call (.write piece) next, inbox => some (next (), inbox, pieces piece)
  | call (.read n) next, [] => if n = 0 ∨ closed then some (next [], [], []) else none
  | call (.read n) next, piece :: inbox =>
    if n = 0 then some (next [], piece :: inbox, [])
    else some (next (piece.take n), pieces (piece.drop n) ++ inbox, [])

variable {p p' : Prog (EndCall γ) α} {closed : Bool} {inbox inbox' sent : List (List γ)}

/-- Whatever else arrives, an end that need not wait takes the same step. -/
theorem act_more (h : p.act false inbox = some (p', inbox', sent)) (more : List (List γ)) :
    p.act closed (inbox ++ more) = some (p', inbox' ++ more, sent) := by
  cases p with
  | ret a => cases h
  | call e next =>
    cases e with
    | write piece =>
      cases h
      rfl
    | read n =>
      cases inbox with
      | nil =>
        simp only [act, Bool.false_eq_true, or_false, Option.ite_none_right_eq_some] at h
        obtain ⟨rfl, heq⟩ := h
        cases heq
        cases more <;> rfl
      | cons piece inbox =>
        rw [act] at h
        split at h
        · next hzero =>
          cases h
          exact if_pos hzero
        · next hpos =>
          cases h
          rw [List.append_assoc]
          exact if_neg hpos

end Prog

namespace Dialogue

/-- The dialogue before anything has been written. -/
def start (left : Prog (EndCall γ) α) (right : Prog (EndCall γ) β) : Dialogue γ α β :=
  ⟨left, right, [], []⟩

/-- The next step of one of the ends. -/
def step (d : Dialogue γ α β) : Side → Option (Dialogue γ α β)
  | .left => (d.left.act d.right.finished d.toLeft).map fun out =>
    ⟨out.1, d.right, out.2.1, d.toRight ++ out.2.2⟩
  | .right => (d.right.act d.left.finished d.toRight).map fun out =>
    ⟨d.left, out.1, d.toLeft ++ out.2.2, out.2.1⟩

/-! ## Order of the steps -/

theorem finished_of_act {p : Prog (EndCall γ) α} {closed : Bool} {inbox : List (List γ)}
    {out : Prog (EndCall γ) α × List (List γ) × List (List γ)}
    (h : p.act closed inbox = some out) : p.finished = false := by
  cases p with
  | ret a => cases h
  | call e next => rfl

/-- A step of each end: both orders come to the same. -/
theorem step_comm {d dl dr : Dialogue γ α β} (hl : d.step .left = some dl)
    (hr : d.step .right = some dr) :
    ∃ t, dl.step .right = some t ∧ dr.step .left = some t := by
  obtain ⟨⟨p, inbox, sent⟩, hp, rfl⟩ := Option.map_eq_some_iff.mp hl
  obtain ⟨⟨q, inbox', sent'⟩, hq, rfl⟩ := Option.map_eq_some_iff.mp hr
  have hleft := finished_of_act hp
  have hright := finished_of_act hq
  rw [hright] at hp
  rw [hleft] at hq
  refine ⟨⟨p, q, inbox ++ sent', inbox' ++ sent⟩, ?_, ?_⟩
  · show (d.right.act p.finished (d.toRight ++ sent)).map _ = _
    rw [act_more hq sent]
    rfl
  · show (d.left.act q.finished (d.toLeft ++ sent')).map _ = _
    rw [act_more hp sent']
    rfl

theorem commuting_step : Commuting (step : Dialogue γ α β → Side → Option (Dialogue γ α β)) := by
  intro d a b da db hne ha hb
  cases a with
  | left =>
    cases b with
    | left => exact absurd rfl hne
    | right => exact step_comm ha hb
  | right =>
    cases b with
    | left =>
      obtain ⟨t, hr, hl⟩ := step_comm hb ha
      exact ⟨t, hl, hr⟩
    | right => exact absurd rfl hne

/-- One way to go on. -/
abbrev Leads (d d' : Dialogue γ α β) : Prop := Relation.ReflTransGen (AnyStep step) d d'

/-- Where one schedule brings both ends to their end, every schedule brings them to the same
end. -/
theorem inevitable_of_leads {d : Dialogue γ α β} {a : α} {b : β} {toLeft toRight : List (List γ)}
    (h : d.Leads ⟨.ret a, .ret b, toLeft, toRight⟩) :
    Inevitable (AnyStep step) (· = ⟨.ret a, .ret b, toLeft, toRight⟩) d := by
  refine .of_path commuting_step (fun side => ?_) h
  cases side <;> rfl

/-! ## Ways to go on -/

/-- The dialogue seen from its other end. -/
def swap (d : Dialogue γ α β) : Dialogue γ β α := ⟨d.right, d.left, d.toRight, d.toLeft⟩

theorem Leads.swap {d d' : Dialogue γ α β} (h : d.Leads d') : d.swap.Leads d'.swap := by
  refine Relation.ReflTransGen.lift Dialogue.swap ?_ _ _ h
  rintro d d' ⟨side, hs⟩
  cases side with
  | left =>
    obtain ⟨out, hout, rfl⟩ := Option.map_eq_some_iff.mp hs
    exact ⟨.right, Option.map_eq_some_iff.mpr ⟨out, hout, rfl⟩⟩
  | right =>
    obtain ⟨out, hout, rfl⟩ := Option.map_eq_some_iff.mp hs
    exact ⟨.left, Option.map_eq_some_iff.mpr ⟨out, hout, rfl⟩⟩

variable {p : Unit → Prog (EndCall γ) α} {q : List γ → Prog (EndCall γ) β}
  {toLeft toRight : List (List γ)} {piece : List γ} {n : Nat}

/-- The left end writes. -/
theorem leads_write (right : Prog (EndCall γ) β) :
    Leads ⟨.call (.write piece) p, right, toLeft, toRight⟩
      ⟨p (), right, toLeft, toRight ++ pieces piece⟩ :=
  .single ⟨.left, rfl⟩

/-- The right end reads a piece as a whole. -/
theorem leads_read (left : Prog (EndCall γ) α) (hne : piece ≠ []) (hn : piece.length ≤ n) :
    Leads ⟨left, .call (.read n) q, toLeft, piece :: toRight⟩ ⟨left, q piece, toLeft, toRight⟩ := by
  have hpos : n ≠ 0 := by
    have hlength := List.length_pos_iff.mpr hne
    omega
  refine .single ⟨.right, ?_⟩
  show ((Prog.call (.read n) q).act _ (piece :: toRight)).map _ = _
  rw [act, if_neg hpos, List.take_of_length_le hn, List.drop_eq_nil_of_le hn]
  simp

/-- A piece from the left to the right end. -/
theorem leads_toRight (hne : piece ≠ []) (hn : piece.length ≤ n) :
    Leads ⟨.call (.write piece) p, .call (.read n) q, toLeft, []⟩ ⟨p (), q piece, toLeft, []⟩ := by
  have hwritten : Leads ⟨.call (.write piece) p, .call (.read n) q, toLeft, []⟩
      ⟨p (), .call (.read n) q, toLeft, [] ++ pieces piece⟩ := leads_write _
  rw [pieces_of_ne hne] at hwritten
  exact hwritten.trans (leads_read _ hne hn)

/-- A piece from the right to the left end. -/
theorem leads_toLeft (hne : piece ≠ []) (hn : piece.length ≤ n) :
    Leads ⟨.call (.read n) q, .call (.write piece) p, [], toRight⟩
      ⟨q piece, p (), [], toRight⟩ :=
  (leads_toRight hne hn).swap

/-- The right end finds that the left end has finished. -/
theorem leads_over (a : α) :
    Leads ⟨.ret a, .call (.read n) q, toLeft, []⟩ ⟨.ret a, q [], toLeft, []⟩ := by
  refine .single ⟨.right, ?_⟩
  show ((Prog.call (.read n) q).act true []).map _ = _
  rw [act, if_pos (Or.inr rfl)]
  simp

end Dialogue

end

end Resumption
