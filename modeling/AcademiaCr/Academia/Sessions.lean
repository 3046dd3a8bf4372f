import AcademiaCr.Library.Socket
import AcademiaCr.Academia.Menus

/-!
# Menu sessions over a connection

The client writes a choice as it was typed, without an end mark, and then the arrays of its
arguments. The server takes for the choice whatever one `read` yields, and one `read` for each
argument without looking at what it returns.

## Main definitions

- `Command`: a choice with its arguments, as the client writes it
- `serve`: the menu loop of the server
- `Decodes`: the server executes what the client asked for
- `Aligned`: every read finds what one write has written
- `session_decodes`: when the server executes what the client asked for
-/

namespace AcademiaCr.Academia

open CLang

/-! ## The client -/

/-- The sizes of the arrays that the client writes after a choice. -/
def Role.argumentSizes : Role → Int → List Nat
  | admin, 1 | admin, 3 => [maxId, maxName, maxPass]
  | admin, 5 | admin, 6 => [maxId]
  | admin, 7 | admin, 8 => [maxId, maxName]
  | student, 2 | student, 3 => [maxId]
  | student, 5 => [maxPass]
  | faculty, 2 | faculty, 4 => [maxId, maxName, 4]
  | faculty, 3 => [maxId]
  | faculty, 5 => [maxPass]
  | _, _ => []

/-- The choice that ends the client's loop. -/
def Role.logoutChoice : Role → Int
  | admin => 9
  | student => 6
  | faculty => 6

/-- What a user enters at one menu: a choice that fits into `char choice[10]`, and the arrays
that the client writes for its arguments. -/
structure Command (role : Role) where
  choice : CString
  args : List (List UInt8)
  typed : choice ≠ .empty
  fits : choice.length < 10
  sized : args.map List.length = role.argumentSizes (atoi choice.1)

namespace Command

variable {role : Role}

/-- All bytes that the client writes. -/
def bytes (command : Command role) : List UInt8 := command.choice.1 ++ command.args.flatten

/-- The choice as a number, with the arguments. -/
def meaning (command : Command role) : Int × List (List UInt8) :=
  (atoi command.choice.1, command.args)

/-- `atoi(choice) == 9`, or 6. -/
def isLogout (command : Command role) : Prop := atoi command.choice.1 = role.logoutChoice

instance (command : Command role) : Decidable command.isLogout :=
  inferInstanceAs (Decidable (_ = _))

end Command

/-- What the client asks for: its loop ends with the first logout. -/
def requested {role : Role} : List (Command role) → List (Int × List (List UInt8))
  | [] => []
  | command :: script =>
    if command.isLogout then [command.meaning] else command.meaning :: requested script

/-- What is left of a script after its next command. -/
def remaining {role : Role} : List (Command role) → List (Command role)
  | [] => []
  | command :: script => if command.isLogout then [] else script

/-! ## The server -/

/-- The connection, and for each of the next reads of an argument what its array holds before
that read. -/
structure Session where
  sock : Socket
  stale : Nat → Nat → UInt8

/-- An array that has not been initialised. -/
def uninitialised (stale : Nat → UInt8) (n : Nat) : CArray UInt8 n :=
  ⟨(List.range n).map stale, by rw [List.length_map, List.length_range]⟩

namespace Session

/-- The client has written. -/
def write (s : Session) (bytes : List UInt8) : Session :=
  { s with sock := { s.sock with pending := s.sock.pending ++ bytes } }

/-- The arguments of a choice, one `read` for each. A `read` waits until bytes arrive, for ever
if the client itself waits for the answer; it returns at once if the client is gone. -/
def readArguments (gone : Bool) : List Nat → Session → Option (List (List UInt8) × Session)
  | [], s => some ([], s)
  | n :: sizes, s =>
    if s.sock.pending.isEmpty ∧ gone = false then none
    else
      let (bytes, sock) := s.sock.read n
      (readArguments gone sizes ⟨sock, fun i => s.stale (i + 1)⟩).map fun out =>
        (((uninitialised (s.stale 0) n).fill bytes).toList :: out.1, out.2)

end Session

/-- What the first rounds of the menu loop execute. In each round the client, which has got the
menu, writes its next command; it is gone when it has none left. -/
def serve {role : Role} (menu : Menu) :
    Nat → List (Command role) → Session → List (Int × List (List UInt8))
  | 0, _, _ => []
  | rounds + 1, script, s =>
    let s := s.write ((script.head?.map Command.bytes).getD [])
    let (buffer, sock) := s.sock.read 1023
    if buffer.isEmpty then []
    else
      let choice := atoi buffer
      if choice = menu.logout then [(choice, [])]
      else
        match Session.readArguments script.isEmpty (menu.sizes choice) { s with sock } with
        | none => []
        | some (args, s) => (choice, args) :: serve menu rounds (remaining script) s

/-! ## What is expected of a session -/

/-- Whatever the uninitialised arrays hold, and however long one looks, the server executes
what the client asked for. -/
def Decodes {role : Role} (script : List (Command role)) (arrived : Nat → ℕ+) : Prop :=
  ∀ stale rounds, serve role.menu rounds script ⟨⟨[], arrived⟩, stale⟩ =
    (requested script).take rounds

/-- Every read of a round finds what one write has written: the read of the choice all of it
and nothing else, the read of an argument all of it. -/
structure Command.Whole {role : Role} (command : Command role) (arrived : Nat → ℕ+) : Prop where
  choice : command.choice.length ≤ arrived 0
  nothingElse : command.args ≠ [] → (arrived 0 : Nat) = command.choice.length
  args : ∀ i (hi : i < command.args.length), command.args[i].length ≤ arrived (i + 1)

/-- Every read up to the logout finds what one write has written. -/
def Aligned {role : Role} : List (Command role) → (Nat → ℕ+) → Prop
  | [], _ => True
  | command :: script, arrived => command.Whole arrived ∧
    (¬ command.isLogout → Aligned script fun i => arrived (i + (command.args.length + 1)))

/-- No part of the choice means the same choice. -/
def Command.Unambiguous {role : Role} (command : Command role) : Prop :=
  ∀ part, part ≠ [] → part <+: command.choice.1 → atoi part = atoi command.choice.1 →
    part = command.choice.1

/-! ## Client and server -/

/-- The server reads what the client writes. -/
theorem sizes_menu (role : Role) (choice : Int) :
    role.menu.sizes choice = role.argumentSizes choice := by
  cases role <;> simp only [Role.menu, handleAdmin, handleStudent, handleFaculty] <;> split <;>
    simp_all [Role.argumentSizes]

theorem logout_menu (role : Role) : role.menu.logout = role.logoutChoice := by
  cases role <;> rfl

theorem argumentSizes_logout (role : Role) : role.argumentSizes role.logoutChoice = [] := by
  cases role <;> rfl

theorem argumentSizes_pos {role : Role} {choice : Int} {n : Nat}
    (h : n ∈ role.argumentSizes choice) : 0 < n := by
  unfold Role.argumentSizes at h
  split at h <;> simp [maxId, maxName, maxPass] at h <;> omega

/-! ## One round -/

section

variable {arrived : Nat → ℕ+} {stale : Nat → Nat → UInt8} {gone : Bool}

/-- Arguments that arrive as a whole are read as they were written. -/
theorem readArguments_of_le {args : List (List UInt8)} {rest : List UInt8}
    (hpos : ∀ arg ∈ args, 0 < arg.length)
    (hargs : ∀ i (hi : i < args.length), args[i].length ≤ arrived i) :
    Session.readArguments gone (args.map List.length) ⟨⟨args.flatten ++ rest, arrived⟩, stale⟩ =
      some (args,
        ⟨⟨rest, fun i => arrived (i + args.length)⟩, fun i => stale (i + args.length)⟩) := by
  induction args generalizing arrived stale with
  | nil => rfl
  | cons arg args ih =>
    have hread : (⟨(arg :: args).flatten ++ rest, arrived⟩ : Socket).read arg.length =
        (arg, ⟨args.flatten ++ rest, fun i => arrived (i + 1)⟩) :=
      Socket.read_of_le (by simp) rfl (hargs 0 (Nat.succ_pos _))
    have hne : ((arg :: args).flatten ++ rest).isEmpty = false := by
      have := hpos arg List.mem_cons_self
      cases arg with
      | nil => exact absurd this (Nat.lt_irrefl 0)
      | cons => rfl
    have hfill : ((uninitialised (stale 0) arg.length).fill arg).toList = arg :=
      CArray.toList_fill rfl
    have hwait : ¬ (((arg :: args).flatten ++ rest).isEmpty = true ∧ gone = false) := by
      rw [hne]
      exact fun h => Bool.false_ne_true h.1
    have hnext := @ih (fun i => arrived (i + 1)) (fun i => stale (i + 1))
      (fun a ha => hpos a (List.mem_cons_of_mem _ ha))
      (fun i hi => hargs (i + 1) (Nat.succ_lt_succ hi))
    rw [List.map_cons, Session.readArguments, if_neg hwait]
    simp only [hread, hnext, Option.map_some, hfill]
    rfl

/-- An array that is read without regard to what it held before has been filled. -/
theorem length_of_fill {n : Nat} {bytes arg : List UInt8} (hn : bytes.length ≤ n)
    (h : ∀ stale : Nat → UInt8, ((uninitialised stale n).fill bytes).toList = arg) :
    bytes.length = n ∧ bytes = arg := by
  have hlist : ∀ stale : Nat → UInt8, ((uninitialised stale n).fill bytes).toList =
      bytes ++ ((List.range n).map stale).drop bytes.length := by
    intro stale
    have hlen : (bytes ++ ((List.range n).map stale).drop bytes.length).length = n := by
      rw [List.length_append, List.length_drop, List.length_map, List.length_range]
      omega
    exact List.take_of_length_le hlen.le
  have hfull : bytes.length = n := by
    by_contra hne
    have hlt : bytes.length < n := by omega
    -- the first byte that is not read
    have hat : ∀ stale : Nat → UInt8, arg[bytes.length]? = some (stale bytes.length) := by
      intro stale
      rw [← h stale, hlist, List.getElem?_append_right (le_refl _), Nat.sub_self,
        List.getElem?_drop, Nat.add_zero, List.getElem?_map, List.getElem?_range hlt]
      rfl
    have hzero := (hat fun _ => 0).symm.trans (hat fun _ => 1)
    exact absurd hzero (by decide)
  refine ⟨hfull, ?_⟩
  rw [← h fun _ => 0, CArray.toList_fill hfull]

/-- Arguments that are read as they are whatever memory held before arrive as a whole. -/
theorem le_of_readArguments {sizes : List Nat} {sock : Socket} {args : List (List UInt8)}
    (h : ∀ stale, ∃ s, Session.readArguments gone sizes ⟨sock, stale⟩ = some (args, s)) :
    (∃ rest, sock.pending = args.flatten ++ rest) ∧ args.map List.length = sizes ∧
      ∀ i (hi : i < args.length), args[i].length ≤ sock.arrived i := by
  induction sizes generalizing sock args with
  | nil =>
    obtain ⟨s, hs⟩ := h fun _ _ => 0
    cases hs
    exact ⟨⟨_, rfl⟩, rfl, by simp⟩
  | cons n sizes ih =>
    have hcall : ∀ stale : Nat → Nat → UInt8, ∃ arg' args' s, args = arg' :: args' ∧
        ((uninitialised (stale 0) n).fill (sock.read n).1).toList = arg' ∧
        Session.readArguments gone sizes ⟨(sock.read n).2, fun i => stale (i + 1)⟩ =
          some (args', s) := by
      intro stale
      obtain ⟨s, hs⟩ := h stale
      simp only [Session.readArguments] at hs
      split at hs
      · cases hs
      · obtain ⟨out, hout, heq⟩ := Option.map_eq_some_iff.mp hs
        obtain ⟨hargs, -⟩ := Prod.mk.inj heq
        exact ⟨_, _, out.2, hargs.symm, rfl, hout⟩
    obtain ⟨arg, args', s, rfl, -, -⟩ := hcall fun _ _ => 0
    -- bytes that the socket did not deliver would depend on what memory held before
    have hfill : ∀ stale : Nat → UInt8,
        ((uninitialised stale n).fill (sock.read n).1).toList = arg := by
      intro stale
      obtain ⟨arg', args'', s, heq, harg, -⟩ := hcall fun _ => stale
      cases heq
      exact harg
    have hrest : ∀ stale : Nat → Nat → UInt8, ∃ s,
        Session.readArguments gone sizes ⟨(sock.read n).2, stale⟩ =
        some (args', s) := by
      intro stale
      obtain ⟨arg', args'', s, heq, -, hs⟩ := hcall fun i => match i with
        | 0 => fun _ => 0
        | i + 1 => stale i
      cases heq
      exact ⟨s, hs⟩
    obtain ⟨hlen, rfl⟩ := length_of_fill (Socket.length_read_le sock n) hfill
    obtain ⟨⟨rest, hp⟩, hsizes, hargs⟩ := ih hrest
    refine ⟨⟨rest, ?_⟩, by rw [List.map_cons, hlen, hsizes], ?_⟩
    · rw [← Socket.read_append sock n, hp, List.flatten_cons, List.append_assoc]
    · rintro (_ | i) hi
      · exact Socket.length_read_le_arrived sock n
      · exact hargs i (Nat.lt_of_succ_lt_succ hi)

end

/-! ## Sessions -/

section

variable {role : Role} {command : Command role} {script : List (Command role)}
  {arrived : Nat → ℕ+} {stale : Nat → Nat → UInt8}

theorem Command.length_pos (command : Command role) : 0 < command.choice.length :=
  List.length_pos_iff.mpr fun h => command.typed (Subtype.ext h)

theorem Command.arg_pos (command : Command role) : ∀ arg ∈ command.args, 0 < arg.length := by
  intro arg harg
  have hmem : arg.length ∈ command.args.map List.length := List.mem_map_of_mem harg
  rw [command.sized] at hmem
  exact argumentSizes_pos hmem

theorem Command.args_of_isLogout (h : command.isLogout) : command.args = [] := by
  have hsized := command.sized
  rw [show atoi command.choice.1 = role.logoutChoice from h, argumentSizes_logout] at hsized
  exact List.map_eq_nil_iff.mp hsized

/-- A round that starts with nothing left unread. -/
theorem serve_round (menu : Menu) (rounds : Nat) :
    serve menu (rounds + 1) (command :: script) ⟨⟨[], arrived⟩, stale⟩ =
      if ((⟨command.bytes, arrived⟩ : Socket).read 1023).1.isEmpty then []
      else if atoi ((⟨command.bytes, arrived⟩ : Socket).read 1023).1 = menu.logout then
        [(atoi ((⟨command.bytes, arrived⟩ : Socket).read 1023).1, [])]
      else
        match Session.readArguments false
            (menu.sizes (atoi ((⟨command.bytes, arrived⟩ : Socket).read 1023).1))
            ⟨((⟨command.bytes, arrived⟩ : Socket).read 1023).2, stale⟩ with
        | none => []
        | some (args, s) => (atoi ((⟨command.bytes, arrived⟩ : Socket).read 1023).1, args) ::
            serve menu rounds (remaining (command :: script)) s := rfl

/-- A round in which nothing is split or merged executes the command of the client. -/
theorem serve_whole (h : command.Whole arrived) (rounds : Nat) :
    serve role.menu (rounds + 1) (command :: script) ⟨⟨[], arrived⟩, stale⟩ =
      if command.isLogout then [command.meaning]
      else command.meaning :: serve role.menu rounds script
        ⟨⟨[], fun i => arrived (i + (command.args.length + 1))⟩,
          fun i => stale (i + command.args.length)⟩ := by
  have hread : (⟨command.bytes, arrived⟩ : Socket).read 1023 =
      (command.choice.1, ⟨command.args.flatten, fun i => arrived (i + 1)⟩) := by
    refine Socket.read_piece rfl (by have := command.fits; rw [CString.length] at this; omega)
      h.choice fun hne => h.nothingElse ?_
    rintro hargs
    rw [hargs] at hne
    exact hne rfl
  have hargs : Session.readArguments false (command.args.map List.length)
      ⟨⟨command.args.flatten, fun i => arrived (i + 1)⟩, stale⟩ =
        some (command.args, ⟨⟨[], fun i => arrived (i + (command.args.length + 1))⟩,
          fun i => stale (i + command.args.length)⟩) := by
    have hcall := @readArguments_of_le (fun i => arrived (i + 1)) stale false command.args []
      command.arg_pos h.args
    rwa [List.append_nil] at hcall
  have htyped : command.choice.1.isEmpty = false := by
    rw [List.isEmpty_eq_false_iff, ← List.length_pos_iff]
    exact command.length_pos
  rw [serve_round, hread]
  simp only [htyped, logout_menu, sizes_menu, ← command.sized, hargs, remaining]
  by_cases hlogout : command.isLogout
  · have hchoice : atoi command.choice.1 = role.logoutChoice := hlogout
    simp [hchoice, hlogout, Command.meaning, command.args_of_isLogout hlogout]
  · have hchoice : atoi command.choice.1 ≠ role.logoutChoice := hlogout
    simp [hchoice, hlogout, Command.meaning]

/-- A server whose reads find what the writes have written executes what the client asks for. -/
theorem decodes_of_aligned (h : Aligned script arrived) : Decodes script arrived := by
  intro stale rounds
  induction script generalizing arrived stale rounds with
  | nil =>
    cases rounds with
    | zero => rfl
    | succ rounds => simp [serve, Session.write, Socket.read, requested]
  | cons command script ih =>
    cases rounds with
    | zero => rfl
    | succ rounds =>
      rw [serve_whole h.1, requested]
      by_cases hlogout : command.isLogout
      · rw [if_pos hlogout, if_pos hlogout, List.take_succ_cons, List.take_nil]
      · rw [if_neg hlogout, if_neg hlogout, List.take_succ_cons, ih (h.2 hlogout)]

/-- The choice that a round executes. -/
theorem atoi_of_round (h : serve role.menu 1 (command :: script) ⟨⟨[], arrived⟩, stale⟩ =
    [command.meaning]) :
    atoi ((⟨command.bytes, arrived⟩ : Socket).read 1023).1 = atoi command.choice.1 := by
  rw [serve_round] at h
  split_ifs at h
  · exact (Prod.mk.inj (List.cons.inj h).1).1
  · split at h
    · cases h
    · exact (Prod.mk.inj (List.cons.inj h).1).1

/-- The arguments that a round executes, where it is no logout. -/
theorem readArguments_of_round (hlogout : ¬ command.isLogout)
    (h : serve role.menu 1 (command :: script) ⟨⟨[], arrived⟩, stale⟩ = [command.meaning]) :
    ∃ s, Session.readArguments false (command.args.map List.length)
      ⟨((⟨command.bytes, arrived⟩ : Socket).read 1023).2, stale⟩ = some (command.args, s) := by
  have hchoice := atoi_of_round h
  have hexit : atoi command.choice.1 ≠ role.menu.logout := by
    rw [logout_menu]
    exact hlogout
  rw [serve_round, hchoice, if_neg hexit, sizes_menu, ← command.sized] at h
  split_ifs at h
  split at h
  · cases h
  · next args s hargs =>
    have hsame : args = command.args := (Prod.mk.inj (List.cons.inj h).1).2
    exact ⟨s, by rw [hargs, hsame]⟩

/-- If a round executes an unambiguous choice as the client asked, whatever memory holds, then
nothing was split or merged. -/
theorem whole_of_round (hchoice : command.Unambiguous)
    (h : ∀ stale, serve role.menu 1 (command :: script) ⟨⟨[], arrived⟩, stale⟩ =
      [command.meaning]) : command.Whole arrived := by
  have hpos := (arrived 0).pos
  have htyped := command.length_pos
  have hfits := command.fits
  obtain ⟨m, hm⟩ : ∃ m, m = min 1023 (arrived 0 : Nat) := ⟨_, rfl⟩
  have hbuffer : ((⟨command.bytes, arrived⟩ : Socket).read 1023).1 = command.bytes.take m := by
    rw [hm]
    rfl
  -- the choice is read to its end, as a part of it would be another choice
  have hwhole : command.choice.length ≤ m := by
    by_contra hlt
    have hpart : command.bytes.take m = command.choice.1.take m := by
      rw [Command.bytes, List.take_append_of_le_length]
      rw [CString.length] at hlt
      omega
    have hsame := hchoice (command.choice.1.take m)
      (by
        apply List.ne_nil_of_length_pos
        rw [List.length_take]
        rw [CString.length] at htyped
        omega)
      (List.take_prefix _ _)
      (by rw [← hpart, ← hbuffer, atoi_of_round (h fun _ _ => 0)])
    have hlen := congrArg List.length hsame
    rw [List.length_take] at hlen
    rw [CString.length] at hlt
    omega
  by_cases hlogout : command.isLogout
  · have hargs := command.args_of_isLogout hlogout
    exact ⟨by omega, fun hne => absurd hargs hne, by simp [hargs]⟩
  obtain ⟨⟨rest, hrest⟩, -, hle⟩ := le_of_readArguments fun stale =>
    readArguments_of_round hlogout (h stale)
  have hpending : ((⟨command.bytes, arrived⟩ : Socket).read 1023).2.pending =
      command.args.flatten.drop (m - command.choice.length) := by
    rw [hm] at hwhole ⊢
    simp only [Socket.read, Command.bytes, List.drop_append]
    rw [List.drop_eq_nil_of_le hwhole, List.nil_append]
    rfl
  -- nothing of the arguments has been read with the choice
  have hlen := congrArg List.length (hpending.symm.trans hrest)
  rw [List.length_drop, List.length_append] at hlen
  refine ⟨by omega, fun hne => ?_, hle⟩
  have hflat : 0 < command.args.flatten.length := by
    obtain ⟨arg, hmem⟩ := List.exists_mem_of_ne_nil _ hne
    exact (command.arg_pos arg hmem).trans_le (List.sublist_flatten_of_mem hmem).length_le
  omega

/-- A server that executes unambiguous choices as the client asks for them, whatever memory
holds, finds with each read what one write has written. -/
theorem aligned_of_decodes (hchoices : ∀ command ∈ script, command.Unambiguous)
    (h : Decodes script arrived) : Aligned script arrived := by
  induction script generalizing arrived with
  | nil => trivial
  | cons command script ih =>
    have hwhole : command.Whole arrived := by
      refine @whole_of_round _ _ script _ (hchoices command List.mem_cons_self) fun stale => ?_
      rw [h stale 1, requested]
      by_cases hlogout : command.isLogout
      · rw [if_pos hlogout]
        rfl
      · rw [if_neg hlogout]
        rfl
    refine ⟨hwhole, fun hlogout => ih (fun c hc => hchoices c (List.mem_cons_of_mem _ hc)) ?_⟩
    intro stale rounds
    -- the stale bytes of the later rounds follow those of this one
    have hrest := h (fun i => if i < command.args.length then fun _ => 0
      else stale (i - command.args.length)) (rounds + 1)
    rw [serve_whole hwhole, requested, if_neg hlogout, if_neg hlogout, List.take_succ_cons] at hrest
    have htail := (List.cons.inj hrest).2
    simpa using htail

end

/-- For every script and every segmentation: if each read finds what one write has written,
the server executes what the client asks for; and for unambiguous choices it does so, whatever
memory holds, only then. -/
theorem session_decodes {role : Role} (script : List (Command role)) (arrived : Nat → ℕ+) :
    (Aligned script arrived → Decodes script arrived) ∧
      ((∀ command ∈ script, command.Unambiguous) → Decodes script arrived →
        Aligned script arrived) :=
  ⟨decodes_of_aligned, aligned_of_decodes⟩

/-- The administrator blocks the student `2`. -/
def blockTwo : Command .admin where
  choice := .ofString "6"
  args := [[50, 0, 0, 0, 0, 0, 0, 0, 0, 0]]
  typed := by decide
  fits := by decide
  sized := by decide +kernel

/-- Without splits and merges the student is blocked. -/
theorem blockTwo_decoded : Decodes [blockTwo] fun i => if i = 0 then 1 else 10 := by
  refine (session_decodes [blockTwo] _).1 ⟨⟨by decide, fun _ => rfl, ?_⟩, fun _ => trivial⟩
  rintro (_ | i) hi
  · exact le_refl _
  · exact absurd hi (by simp [blockTwo])

/-- When the choice and the id are read together, choice 62 is executed instead. -/
theorem blockTwo_not_decoded :
    ¬ ∀ role (script : List (Command role)) arrived, Decodes script arrived := by
  intro h
  have hround := h .admin [blockTwo] (fun _ => 1023) (fun _ _ => 0) 1
  revert hround
  decide +kernel

end AcademiaCr.Academia
