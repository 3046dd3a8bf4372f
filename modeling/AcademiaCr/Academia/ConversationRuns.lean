import AcademiaCr.Academia.Conversations

/-!
# How conversations go

One exchange after another: a message of the server, a choice, the arguments of a choice. From
them a schedule for a whole conversation follows, which ends as it should; and then every
schedule ends so.

## Main definitions

- `leads_message`, `leads_arguments`: the exchanges
- `leads_menus`: a whole menu loop
- `conversation`: every schedule of a conversation
-/

namespace AcademiaCr.Academia

open CLang CLang.CString Resumption Prog Transition Dialogue

/-! ## Exchanges -/

section Exchanges

variable {α β : Type} {lenNet : CArray UInt8 4} {message : CString}

/-- A message of the server. -/
theorem leads_message (h : Shown message) (f : Option (List UInt8) → OnSocket α)
    (g : Unit → OnSocket β) :
    Leads ⟨(ClientEnd.readWithLength lenNet).bind f,
        (ServerEnd.sendWithLength message).bind g, [], []⟩
      ⟨f (some message.1), g (), [], []⟩ := by
  have hlen : message.length < 2048 := Nat.lt_trans h.2 (by decide)
  have hmod : message.length % 2 ^ 32 = message.length := Nat.mod_eq_of_lt (by omega)
  have hbytes : message.1 ≠ [] := fun hempty => h.1 (Subtype.ext hempty)
  have hnumber : lenNet.fill (htonl message.length).toList = htonl message.length :=
    CArray.ext (CArray.toList_fill (htonl message.length).length_toList)
  have hserver : (ServerEnd.sendWithLength message).bind g =
      .call (.write (htonl message.length).toList) fun _ => .call (.write message.1) g := by
    rw [ServerEnd.sendWithLength, hmod, CString.length, List.take_length]
    rfl
  have hnet : (htonl message.length).toList ≠ [] := by simp [htonl]
  rw [hserver]
  refine (leads_toLeft hnet (Nat.le_of_eq (htonl message.length).length_toList)).trans ?_
  have hread : ¬ message.length ≥ 2048 := by omega
  simp only [ret_bind, List.isEmpty_iff, hnet, if_false, hnumber, ntohl_htonl, hmod, hread]
  refine (leads_toLeft hbytes le_rfl).trans ?_
  simp only [ret_bind, hbytes, if_false]
  exact .refl

/-- What the client writes at once and the server reads with one call. -/
theorem leads_entry {bytes : List UInt8} {n : Nat} (hne : bytes ≠ []) (hn : bytes.length ≤ n)
    (f : Unit → OnSocket α) (g : List UInt8 → OnSocket β) :
    Leads ⟨(writeSocket bytes).bind f, (readSocket n).bind g, [], []⟩ ⟨f (), g bytes, [], []⟩ :=
  leads_toRight hne hn

/-- The arguments of a choice. -/
theorem leads_arguments {args : List (List UInt8)} (hpos : ∀ arg ∈ args, 0 < arg.length)
    (stale : Nat → Nat → UInt8) (f : Unit → OnSocket α) (g : List (List UInt8) → OnSocket β) :
    Leads ⟨(ClientEnd.writeArguments args).bind f,
        (ServerEnd.readArguments (args.map List.length) stale).bind g, [], []⟩
      ⟨f (), g args, [], []⟩ := by
  induction args generalizing stale g with
  | nil => exact .refl
  | cons arg args ih =>
    have hne : arg ≠ [] := List.ne_nil_of_length_pos (hpos arg List.mem_cons_self)
    have hfill : ((uninitialised (stale 0) arg.length).fill arg).toList = arg :=
      CArray.toList_fill rfl
    have hrest := ih (fun arg harg => hpos arg (List.mem_cons_of_mem _ harg))
      (fun i => stale (i + 1)) fun args => g (arg :: args)
    refine (leads_entry hne le_rfl _ _).trans ?_
    simp only [bind_eq, bind_assoc, pure_eq, ret_bind, hfill]
    exact hrest

end Exchanges

/-! ## Menus -/

section Menus

variable {α β : Type} {role : Role}

/-- The string that has been read with its length. -/
theorem cString_val (s : CString) : cString s.1 = s :=
  Subtype.ext (List.takeWhile_eq_self_iff.mpr s.decide_ne_zero)

theorem shown_menuText (role : Role) : Shown role.menuText := by
  cases role <;> exact shown_formatted (by decide) (by decide +kernel)

theorem shown_logoutText : Shown logoutText := by decide +kernel

theorem args_pos (command : Command role) : ∀ arg ∈ command.args, 0 < arg.length := by
  intro arg harg
  have hsize : arg.length ∈ role.argumentSizes (atoi command.choice.1) := by
    rw [← command.sized]
    exact List.mem_map_of_mem harg
  exact argumentSizes_pos hsize

/-- All that a user does at the menus. -/
theorem leads_menus (script : List (Command role)) {rounds : Nat} (hrounds : script.length < rounds)
    {answers : Nat → CString} (hanswers : ∀ i < (executed script).length, Shown (answers i))
    (lenNet : Nat → CArray UInt8 4) (stale : Nat → Nat → Nat → UInt8) (k : List CString → α)
    (g : Option (List Request) → OnSocket β) :
    Leads ⟨(ClientEnd.handleMenu script lenNet).bind fun shown => .ret (k shown),
        (ServerEnd.handleMenu role rounds answers stale).bind g, [], []⟩
      ⟨.ret (k (transcript script answers)), g (some (executed script)), [], []⟩ := by
  induction script generalizing rounds answers lenNet stale k g with
  | nil =>
    obtain ⟨rounds, rfl⟩ := Nat.exists_eq_add_one_of_ne_zero (Nat.ne_zero_of_lt hrounds)
    simp only [ClientEnd.handleMenu, ServerEnd.handleMenu, bind_eq, bind_assoc]
    refine (leads_message (shown_menuText role) _ _).trans ?_
    simp only [cString_val, pure_eq, ret_bind]
    exact leads_over _
  | cons command script ih =>
    obtain ⟨rounds, rfl⟩ := Nat.exists_eq_add_one_of_ne_zero (Nat.ne_zero_of_lt hrounds)
    have htyped : command.choice.1 ≠ [] := fun h => command.typed (Subtype.ext h)
    have hfits : command.choice.1.length ≤ 1023 :=
      Nat.le_of_lt (Nat.lt_trans command.fits (by decide))
    simp only [ClientEnd.handleMenu, ServerEnd.handleMenu, bind_eq, bind_assoc]
    refine (leads_message (shown_menuText role) _ _).trans ?_
    simp only [bind_assoc]
    refine (leads_entry htyped hfits _ _).trans ?_
    by_cases hlogout : command.isLogout
    · have hchoice : atoi command.choice.1 = role.menu.logout := by
        rw [logout_menu]
        exact hlogout
      simp only [hlogout, hchoice, htyped, if_true, if_false, List.isEmpty_iff, bind_assoc]
      refine (leads_message shown_logoutText _ _).trans ?_
      simp only [cString_val, pure_eq, ret_bind, transcript, executed, hlogout, if_true]
      exact .refl
    · have hchoice : atoi command.choice.1 ≠ role.menu.logout := by
        rw [logout_menu]
        exact hlogout
      have hexecuted : executed (command :: script) =
          role.menu.request (atoi command.choice.1) command.args :: executed script :=
        if_neg hlogout
      have hanswer : Shown (answers 0) :=
        hanswers 0 (by rw [hexecuted]; exact Nat.succ_pos _)
      have hothers : ∀ i < (executed script).length, Shown (answers (i + 1)) := fun i hi =>
        hanswers (i + 1) (by rw [hexecuted]; exact Nat.succ_lt_succ hi)
      simp only [hlogout, hchoice, htyped, if_false, List.isEmpty_iff, bind_assoc,
        sizes_menu, ← command.sized]
      refine (leads_arguments (args_pos command) _ _ _).trans ?_
      refine (leads_message hanswer _ _).trans ?_
      simp only [cString_val, bind_assoc, pure_eq, ret_bind, transcript, hexecuted, hlogout,
        if_false]
      exact ih (Nat.lt_of_succ_lt_succ hrounds) hothers _ _ _ _

end Menus

/-! ## Logins -/

section Logins

theorem readString_of_le {bytes : List UInt8} (hne : bytes ≠ []) (hle : bytes.length ≤ 1023) :
    readString bytes = some (cString bytes) := by
  rw [readString, if_neg (mt List.isEmpty_iff.mp hne), List.take_of_length_le hle]

/-- The client knows a success by the text. -/
theorem stripNewlines_answer (outcome : LoginOutcome) {text : CString}
    (h : outcome.answer = some text) :
    cString (ClientEnd.stripNewlines text.1) = .ofString "Login successful" ↔
      ∃ role, outcome = .successful role := by
  cases outcome with
  | disconnected => cases h
  | successful role =>
    cases h
    exact ⟨fun _ => ⟨role, rfl⟩, fun _ => by decide +kernel⟩
  | invalidChoice | serverError | failed =>
    cases h
    refine ⟨fun hsuccess => absurd hsuccess (by decide +kernel), ?_⟩
    rintro ⟨role, hrole⟩
    cases hrole

theorem shown_answer {outcome : LoginOutcome} {text : CString} (h : outcome.answer = some text) :
    Shown text := by
  cases outcome with
  | disconnected => cases h
  | invalidChoice | serverError | failed | successful role =>
    cases h
    decide +kernel

theorem ofAuthentication_ne (role : Role) (authenticated : Option Bool) :
    LoginOutcome.ofAuthentication role authenticated ≠ .invalidChoice := by
  obtain _ | _ | _ := authenticated <;> exact nofun

/-- The end of a login with a valid choice, and the menus after a success. -/
theorem leads_endLogin {α : Type} (login : Login) (script : List (Command login.role))
    (hvalid : 1 ≤ atoi login.choice.1 ∧ atoi login.choice.1 ≤ 3) (authenticated : Option Bool)
    {answers : Nat → CString} (hanswers : ∀ i < (executed script).length, Shown (answers i))
    {rounds : Nat} (hrounds : script.length < rounds) (lenNet : Nat → CArray UInt8 4)
    (stale : Nat → Nat → Nat → UInt8) (k : List CString → α) :
    Leads ⟨(ClientEnd.endLogin login script lenNet).bind fun shown => .ret (k shown),
        ServerEnd.endLogin authenticated login.role answers stale rounds, [], []⟩
      ⟨.ret (k (login.shownAfter script answers (.ofAuthentication login.role authenticated))),
        .ret (some (.ofAuthentication login.role authenticated,
          login.requests script (.ofAuthentication login.role authenticated))), [], []⟩ := by
  have hrefused : ∀ outcome : LoginOutcome, ∀ text, outcome.answer = some text →
      (∀ role, outcome ≠ .successful role) →
      Leads ⟨(ClientEnd.endLogin login script lenNet).bind fun shown => .ret (k shown),
          (ServerEnd.sendWithLength text).bind fun _ => .ret (some (outcome, ([] : List Request))),
          [], []⟩
        ⟨.ret (k [text]), .ret (some (outcome, [])), [], []⟩ := by
    intro outcome text htext hfails
    have hshown := shown_answer htext
    have hstrip : ¬ cString (ClientEnd.stripNewlines text.1) = .ofString "Login successful" := by
      rw [stripNewlines_answer outcome htext]
      rintro ⟨role, hrole⟩
      exact hfails role hrole
    simp only [ClientEnd.endLogin, bind_eq, bind_assoc]
    refine (leads_message hshown _ _).trans ?_
    simp only [hstrip, cString_val, false_and, if_false]
    exact .refl
  cases authenticated with
  | none => exact hrefused .serverError _ rfl (by simp)
  | some success =>
    cases success with
    | false => exact hrefused .failed _ rfl (by simp)
    | true =>
      have hstrip := (stripNewlines_answer (.successful login.role) rfl).mpr ⟨_, rfl⟩
      have hshown : Shown (.ofString "Login successful\n") :=
        @shown_answer (.successful login.role) _ rfl
      simp only [ClientEnd.endLogin, ServerEnd.endLogin, bind_eq, bind_assoc]
      refine (leads_message hshown _ _).trans ?_
      simp only [hstrip, hvalid, cString_val, and_self, if_true, bind_assoc]
      exact leads_menus script hrounds hanswers _ _ _ _

theorem leads_conversation (login : Login) (script : List (Command login.role))
    (authenticated : CString → CString → Role → Option Bool) {answers : Nat → CString}
    (hanswers : ∀ i < (executed script).length, Shown (answers i)) {rounds : Nat}
    (hrounds : script.length < rounds) (lenNet : Nat → CArray UInt8 4)
    (stale : Nat → Nat → Nat → UInt8) :
    ∃ toRight, Leads (start (ClientEnd.main login script lenNet)
        (ServerEnd.clientHandler authenticated answers stale rounds))
      ⟨.ret (login.shown script answers (login.outcome authenticated)),
        .ret (some (login.outcome authenticated,
          login.requests script (login.outcome authenticated))), [], toRight⟩ := by
  have hscreen : Shown loginScreen := shown_formatted (by decide) (by decide +kernel)
  have htyped : login.choice.1 ≠ [] := fun h => login.typed (Subtype.ext h)
  have hfits : login.choice.1.length ≤ 1023 :=
    Nat.le_of_lt (Nat.lt_trans login.fits (by decide))
  have hidLength : login.userId.length ≤ 1023 := by rw [login.userId_length]; decide
  have hid : login.userId ≠ [] := List.ne_nil_of_length_pos (by rw [login.userId_length]; decide)
  have hsecretLength : login.password.length ≤ 1023 := by rw [login.password_length]; decide
  have hsecret : login.password ≠ [] :=
    List.ne_nil_of_length_pos (by rw [login.password_length]; decide)
  simp only [start, ClientEnd.main, ServerEnd.clientHandler, bind_eq]
  by_cases hinvalid : atoi login.choice.1 < 1 ∨ atoi login.choice.1 > 3
  · have houtcome : login.outcome authenticated = .invalidChoice := if_pos hinvalid
    have hrefusal : Shown (.ofString "Invalid choice\n") :=
      @shown_answer .invalidChoice _ rfl
    refine ⟨[login.userId], ?_⟩
    refine (leads_message hscreen _ _).trans ?_
    refine (leads_entry htyped hfits _ _).trans ?_
    simp only [readString_of_le htyped hfits, cString_val, hinvalid, if_true]
    refine (leads_message hrefusal _ _).trans ?_
    -- the server has finished: what the client writes now is not read, and its next read fails
    refine (leads_write _).trans ?_
    rw [pieces_of_ne hid]
    refine (leads_over _).swap.trans ?_
    simp only [houtcome, cString_val]
    exact .refl
  · have houtcome : login.outcome authenticated = .ofAuthentication login.role (authenticated
        ((cString login.userId).truncate maxId) ((cString login.password).truncate maxPass)
          login.role) := if_neg hinvalid
    have hprompt : Shown userIdPrompt := by decide +kernel
    have hpassword : Shown passwordPrompt := by decide +kernel
    refine ⟨[], ?_⟩
    refine (leads_message hscreen _ _).trans ?_
    refine (leads_entry htyped hfits _ _).trans ?_
    simp only [readString_of_le htyped hfits, cString_val, hinvalid, if_false]
    refine (leads_message hprompt _ _).trans ?_
    refine (leads_entry hid hidLength _ _).trans ?_
    simp only [readString_of_le hid hidLength]
    refine (leads_message hpassword _ _).trans ?_
    refine (leads_entry hsecret hsecretLength _ _).trans ?_
    simp only [readString_of_le hsecret hsecretLength, cString_val]
    rw [houtcome, Login.shown, if_neg (ofAuthentication_ne _ _)]
    exact leads_endLogin login script (by omega) _ hanswers hrounds _ _ _

end Logins

/-! ## Whole conversations -/

/-- In whatever order client and server take their steps, both come to their end: the user has
been shown the prompts, how the login ended and after a login the menus with the answers, and the
server has executed the requests that the user has entered up to the logout. -/
theorem conversation (login : Login) (script : List (Command login.role))
    (authenticated : CString → CString → Role → Option Bool) (answers : Nat → CString)
    (hanswers : ∀ i (hi : i < (executed script).length),
      ((executed script)[i].program ((cString login.userId).truncate maxId)).Yields (answers i))
    (rounds : Nat) (hrounds : script.length < rounds) (lenNet : Nat → CArray UInt8 4)
    (stale : Nat → Nat → Nat → UInt8) :
    Inevitable (AnyStep step)
      (fun d => d.left = .ret (login.shown script answers (login.outcome authenticated)) ∧
        d.right = .ret (some (login.outcome authenticated,
          login.requests script (login.outcome authenticated))))
      (start (ClientEnd.main login script lenNet)
        (ServerEnd.clientHandler authenticated answers stale rounds)) := by
  have hshown : ∀ i < (executed script).length, Shown (answers i) := fun i hi =>
    shown_of_yields (hanswers i hi)
  obtain ⟨toRight, hleads⟩ :=
    leads_conversation login script authenticated hshown hrounds lenNet stale
  refine (inevitable_of_leads hleads).mono ?_
  rintro d rfl
  exact ⟨rfl, rfl⟩

/-- The administrator logs in. -/
def adminLogin : Login where
  choice := .ofString "1"
  userId := (CString.ofString "admin1").1 ++ List.replicate 4 0
  password := (CString.ofString "adminpass").1 ++ List.replicate 41 0
  typed := by decide
  fits := by decide
  userId_length := by decide
  password_length := by decide

/-- The administrator activates the student `2` and logs out. -/
def activateAndLeave : List (Command adminLogin.role) :=
  [{ choice := .ofString "5"
     args := [[50, 0, 0, 0, 0, 0, 0, 0, 0, 0]]
     typed := by decide
     fits := by decide
     sized := by decide +kernel },
   { choice := .ofString "9"
     args := []
     typed := by decide
     fits := by decide
     sized := by decide +kernel }]

/-- There is no student. -/
theorem conversation_activateAndLeave :
    Inevitable (AnyStep step)
      (fun d => d.left = .ret [loginScreen, userIdPrompt, passwordPrompt,
          .ofString "Login successful\n", Role.admin.menuText,
          .ofString "Failed to activate student\n", Role.admin.menuText, logoutText] ∧
        d.right = .ret (some (.successful .admin, [.activateStudent (.ofString "2")])))
      (start (ClientEnd.main adminLogin activateAndLeave fun _ => zeros)
        (ServerEnd.clientHandler (fun _ _ _ => some true)
          (fun _ => .ofString "Failed to activate student\n") (fun _ _ _ => 0) 3)) := by
  have hexecuted : executed activateAndLeave = [.activateStudent (.ofString "2")] := by
    decide +kernel
  have hanswer : ((Request.activateStudent (.ofString "2")).program
      ((cString adminLogin.userId).truncate maxId)).Yields
        (.ofString "Failed to activate student\n") := by
    have hfails : respondCode "Student activated successfully\n" "Failed to activate student\n"
        (-1) = .ofString "Failed to activate student\n" := by decide +kernel
    rw [← hfails]
    exact .call _ (none : Option Nat) (.ret _)
  have hanswers : ∀ i (hi : i < (executed activateAndLeave).length),
      ((executed activateAndLeave)[i].program ((cString adminLogin.userId).truncate maxId)).Yields
        (.ofString "Failed to activate student\n") := by
    simp only [hexecuted]
    rintro (_ | i) hi
    · exact hanswer
    · exact absurd hi (by simp)
  have hends := conversation adminLogin activateAndLeave (fun _ _ _ => some true)
    (fun _ => .ofString "Failed to activate student\n") hanswers 3 (by decide) (fun _ => zeros)
    fun _ _ _ => 0
  have hrole : adminLogin.role = .admin := by decide +kernel
  have houtcome : adminLogin.outcome (fun _ _ _ => some true) = .successful .admin := by
    decide +kernel
  have hmenu : adminLogin.role.menuText = Role.admin.menuText := congrArg Role.menuText hrole
  have htranscript :
      transcript activateAndLeave (fun _ => .ofString "Failed to activate student\n") =
        [Role.admin.menuText, .ofString "Failed to activate student\n", Role.admin.menuText,
          logoutText] := by
    rw [activateAndLeave, transcript, if_neg (by decide +kernel), transcript,
      if_pos (by decide +kernel), hmenu]
  have hshown :
      adminLogin.shown activateAndLeave (fun _ => .ofString "Failed to activate student\n")
        (.successful .admin) = [loginScreen, userIdPrompt, passwordPrompt,
          .ofString "Login successful\n"] ++ transcript activateAndLeave
            (fun _ => .ofString "Failed to activate student\n") := rfl
  rwa [houtcome, hshown, htranscript, Login.requests, hexecuted] at hends

end AcademiaCr.Academia
