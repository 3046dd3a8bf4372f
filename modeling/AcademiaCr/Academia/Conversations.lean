import Mathlib.Data.List.DropRight
import AcademiaCr.Library.Dialogue
import AcademiaCr.Academia.AnswerTexts
import AcademiaCr.Academia.Credentials
import AcademiaCr.Academia.Messages
import AcademiaCr.Academia.Sessions

/-!
# A conversation of `client.c` with `server.c`

Both programs at the ends of a connection whose reads find what one write has written. The client
shows what it is sent and writes what its user enters: a login, and a command at each menu. The
server authenticates the user and executes the commands. What the files answer is left open.

## Main definitions

- `ServerEnd.clientHandler`: `client_handler` with the menu loops
- `Login`: what a user enters before the menus
- `ClientEnd.main`: one connection of `client.c`
- `Login.outcome`, `executed`: what the server should do
- `Login.shown`: what the client should show
-/

namespace AcademiaCr.Academia

open CLang Resumption Prog

/-- Programs at an end of a connection. -/
abbrev OnSocket := Prog (EndCall UInt8)

def readSocket (n : Nat) : OnSocket (List UInt8) := perform (.read n)

def writeSocket (bytes : List UInt8) : OnSocket Unit := perform (.write bytes)

/-! ## Texts of the server -/

def loginScreen : CString := formatted [
  .ofString "....................Welcome Back to Academia :: Course Registration",
  .ofString "....................\n", .ofString "Login Type\n",
  .ofString "Enter Your Choice \x7b 1.Admin , 2.Professor, 3. Student \x7d : "]

def userIdPrompt : CString := .ofString "Enter User ID: "

def logoutText : CString := .ofString "Logout successful\n"

/-- The menu of each role. -/
def Role.menuText : Role → CString
  | admin => formatted [.ofString "....... Welcome to Admin Menu .......\n",
      .ofString "1. Add Student\n", .ofString "2. View Student Details\n",
      .ofString "3. Add Faculty\n", .ofString "4. View Faculty Details\n",
      .ofString "5. Activate Student\n", .ofString "6. Block Student\n",
      .ofString "7. Modify Student Details\n", .ofString "8. Modify Faculty Details\n",
      .ofString "9. Logout and Exit\n", .ofString "Enter Your Choice: "]
  | student => formatted [.ofString "....... Welcome to Student Menu .......\n",
      .ofString "1. View All Courses\n", .ofString "2. Enroll New Course\n",
      .ofString "3. Drop Course\n", .ofString "4. View Enrolled Course Details\n",
      .ofString "5. Change Password\n", .ofString "6. Logout and Exit\n",
      .ofString "Enter Your Choice: "]
  | faculty => formatted [.ofString "....... Welcome to Faculty Menu .......\n",
      .ofString "1. View Offering Courses\n", .ofString "2. Add New Course\n",
      .ofString "3. Remove Course from Catalog\n", .ofString "4. Update Course Details\n",
      .ofString "5. Change Password\n", .ofString "6. Logout and Exit\n",
      .ofString "Enter Your Choice: "]

/-! ## The server -/

namespace ServerEnd

/-- `send_with_length`. -/
def sendWithLength (message : CString) : OnSocket Unit := do
  writeSocket (htonl (message.length % 2 ^ 32)).toList
  writeSocket (message.1.take (message.length % 2 ^ 32))

/-- The arrays of the arguments of a choice, one `read` for each. -/
def readArguments : List Nat → (Nat → Nat → UInt8) → OnSocket (List (List UInt8))
  | [], _ => return []
  | n :: sizes, stale => do
    let bytes ← readSocket n
    let args ← readArguments sizes fun i => stale (i + 1)
    return ((uninitialised (stale 0) n).fill bytes).toList :: args

/-- The first rounds of `handle_admin`, `handle_student` or `handle_faculty`: the requests that
they execute, if the loop has then ended. The operations of the next request answer `answers 0`,
and its arrays hold `stale 0` before they are read. -/
def handleMenu (role : Role) : Nat → (Nat → CString) → (Nat → Nat → Nat → UInt8) →
    OnSocket (Option (List Request))
  | 0, _, _ => return none
  | rounds + 1, answers, stale => do
    sendWithLength role.menuText
    let buffer ← readSocket 1023
    if buffer.isEmpty then
      return some []
    else
      let choice := atoi buffer
      if choice = role.menu.logout then
        sendWithLength logoutText
        return some []
      else
        let args ← readArguments (role.menu.sizes choice) (stale 0)
        sendWithLength (answers 0)
        let rest ← handleMenu role rounds (fun i => answers (i + 1)) fun i => stale (i + 1)
        return rest.map (role.menu.request choice args :: ·)

/-- `client_handler` once it knows what `authenticate` returns, which is without a result where
`users.dat` cannot be opened: how the login ends and the requests that are executed. -/
def endLogin (authenticated : Option Bool) (role : Role) (answers : Nat → CString)
    (stale : Nat → Nat → Nat → UInt8) (rounds : Nat) :
    OnSocket (Option (LoginOutcome × List Request)) := do
  match authenticated with
  | none =>
    sendWithLength (.ofString "Server error: Cannot open users file\n")
    return some (.serverError, [])
  | some false =>
    sendWithLength (.ofString "Login failed\n")
    return some (.failed, [])
  | some true =>
    sendWithLength (.ofString "Login successful\n")
    let requests ← handleMenu role rounds answers stale
    return requests.map (.successful role, ·)

/-- `client_handler`. -/
def clientHandler (authenticated : CString → CString → Role → Option Bool)
    (answers : Nat → CString) (stale : Nat → Nat → Nat → UInt8) (rounds : Nat) :
    OnSocket (Option (LoginOutcome × List Request)) := do
  sendWithLength loginScreen
  match readString (← readSocket 1023) with
  | none => return some (.disconnected, [])
  | some buffer =>
    let loginChoice := atoi buffer.1
    if loginChoice < 1 ∨ loginChoice > 3 then
      sendWithLength (.ofString "Invalid choice\n")
      return some (.invalidChoice, [])
    else
      sendWithLength userIdPrompt
      match readString (← readSocket 1023) with
      | none => return some (.disconnected, [])
      | some buffer =>
        let userId := buffer.truncate maxId
        sendWithLength passwordPrompt
        match readString (← readSocket 1023) with
        | none => return some (.disconnected, [])
        | some buffer =>
          let password := buffer.truncate maxPass
          endLogin (authenticated userId password (expectedRole loginChoice))
            (expectedRole loginChoice) answers stale rounds

end ServerEnd

/-! ## The client -/

/-- What a user enters before the menus: a choice that fits into `char login_choice[10]`, and
the arrays of the user id and the password. -/
structure Login where
  choice : CString
  userId : List UInt8
  password : List UInt8
  typed : choice ≠ .empty
  fits : choice.length < 10
  userId_length : userId.length = maxId
  password_length : password.length = maxPass

/-- The role that the server looks for. -/
def Login.role (login : Login) : Role := expectedRole (atoi login.choice.1)

namespace ClientEnd

/-- `read_with_length` for a buffer of 2048 bytes: those that have been read, unless it fails. -/
def readWithLength (lenNet : CArray UInt8 4) : OnSocket (Option (List UInt8)) := do
  let lenBytes ← readSocket 4
  if lenBytes.isEmpty then
    return none
  else
    let len := ntohl (lenNet.fill lenBytes)
    if len ≥ 2048 then
      return none
    else
      let bytes ← readSocket len
      if bytes.isEmpty then
        return none
      else
        return some bytes

def writeArguments : List (List UInt8) → OnSocket Unit
  | [] => return
  | arg :: args => do
    writeSocket arg
    writeArguments args

/-- `handle_admin`, `handle_student` or `handle_faculty`: the texts that are shown to a user who
enters these commands, and then none. -/
def handleMenu {role : Role} : List (Command role) → (Nat → CArray UInt8 4) →
    OnSocket (List CString)
  | [], lenNet => do
    match ← readWithLength (lenNet 0) with
    | none => return []
    | some menu => return [cString menu]
  | command :: script, lenNet => do
    match ← readWithLength (lenNet 0) with
    | none => return []
    | some menu =>
      writeSocket command.choice.1
      if command.isLogout then
        match ← readWithLength (lenNet 1) with
        | none => return [cString menu]
        | some response => return [cString menu, cString response]
      else
        writeArguments command.args
        match ← readWithLength (lenNet 1) with
        | none => return [cString menu]
        | some response =>
          let shown ← handleMenu script fun i => lenNet (i + 2)
          return cString menu :: cString response :: shown

/-- `strip_newlines`. -/
def stripNewlines (bytes : List UInt8) : List UInt8 := bytes.rdropWhile fun b => b = 13 ∨ b = 10

/-- `main` once it has written the password: the texts that are shown from then on. -/
def endLogin (login : Login) (script : List (Command login.role))
    (lenNet : Nat → CArray UInt8 4) : OnSocket (List CString) := do
  match ← readWithLength (lenNet 0) with
  | none => return []
  | some response =>
    let choice := atoi login.choice.1
    if cString (stripNewlines response) = .ofString "Login successful" ∧
        1 ≤ choice ∧ choice ≤ 3 then
      let shown ← handleMenu script fun i => lenNet (i + 1)
      return cString response :: shown
    else
      return [cString response]

/-- One connection of `main`: the texts that are shown. -/
def main (login : Login) (script : List (Command login.role)) (lenNet : Nat → CArray UInt8 4) :
    OnSocket (List CString) := do
  match ← readWithLength (lenNet 0) with
  | none => return []
  | some screen =>
    writeSocket login.choice.1
    match ← readWithLength (lenNet 1) with
    | none => return [cString screen]
    | some idPrompt =>
      writeSocket login.userId
      match ← readWithLength (lenNet 2) with
      | none => return [cString screen, cString idPrompt]
      | some prompt =>
        writeSocket login.password
        let shown ← endLogin login script fun i => lenNet (i + 3)
        return [cString screen, cString idPrompt, cString prompt] ++ shown

end ClientEnd

/-! ## The calls over a stream of bytes -/

section Stream

/-- The calls of an end that reads from a stream whose bytes arrive in any pieces. -/
def onStream {β : Type} : EndCall UInt8 β → Socket → β × Socket
  | .read n, sock => sock.read n
  | .write _, sock => ((), sock)

/-- Both models of `read_with_length` agree. -/
theorem run_readWithLength (lenNet : CArray UInt8 4) (buffer : CArray UInt8 2048)
    (sock : Socket) :
    ((ClientEnd.readWithLength lenNet).run onStream sock).2 =
        (readWithLength lenNet buffer sock).sock ∧
      (((ClientEnd.readWithLength lenNet).run onStream sock).1 = none ∧
          (readWithLength lenNet buffer sock).code = -1 ∨
        ∃ bytes, ((ClientEnd.readWithLength lenNet).run onStream sock).1 = some bytes ∧
          (readWithLength lenNet buffer sock).code = bytes.length ∧
          (readWithLength lenNet buffer sock).buffer = buffer.fill (bytes ++ [0])) := by
  simp only [ClientEnd.readWithLength, readWithLength, readSocket, bind_eq, run_bind, perform,
    run_call, run_ret, onStream]
  by_cases hnet : (sock.read 4).1.isEmpty = true
  · simp only [hnet, if_true, pure_eq, run_ret, true_and, true_or]
  by_cases hlen : ntohl (lenNet.fill (sock.read 4).1) ≥ 2048
  · simp only [hnet, hlen, Bool.false_eq_true, if_true, if_false, pure_eq, run_ret, true_and,
      true_or]
  simp only [hnet, hlen, Bool.false_eq_true, if_false, run_bind, run_call, run_ret, onStream]
  by_cases hbody : ((sock.read 4).2.read (ntohl (lenNet.fill (sock.read 4).1))).1.isEmpty = true
  · simp only [hbody, if_true, pure_eq, run_ret, true_and, true_or]
  · simp only [hbody, Bool.false_eq_true, if_false, pure_eq, run_ret, true_and]
    exact .inr ⟨_, rfl, rfl, rfl⟩

/-- Both models of the reads of the arguments agree where no read waits. -/
theorem run_readArguments (sizes : List Nat) (stale : Nat → Nat → UInt8) (sock : Socket) :
    Session.readArguments true sizes ⟨sock, stale⟩ =
      some (((ServerEnd.readArguments sizes stale).run onStream sock).1,
        ⟨((ServerEnd.readArguments sizes stale).run onStream sock).2,
          fun i => stale (i + sizes.length)⟩) := by
  induction sizes generalizing stale sock with
  | nil => rfl
  | cons n sizes ih =>
    simp only [Session.readArguments, ServerEnd.readArguments, readSocket, bind_eq, run_bind,
      perform, run_call, run_ret, onStream, Bool.true_eq_false, and_false, if_false, ih]
    rfl

/-- The bytes of both writes of `send_with_length`. -/
theorem sendWithLength_eq (message : CString) : ∃ lenBytes body,
    ServerEnd.sendWithLength message = (writeSocket lenBytes).bind (fun _ => writeSocket body) ∧
      lenBytes ++ body = sendWithLength message :=
  ⟨_, _, rfl, rfl⟩

end Stream

/-! ## What is expected of a conversation -/

/-- How a login with these credentials should end. -/
def LoginOutcome.ofAuthentication (role : Role) : Option Bool → LoginOutcome
  | none => .serverError
  | some false => .failed
  | some true => .successful role

/-- How the login should end. -/
def Login.outcome (login : Login) (authenticated : CString → CString → Role → Option Bool) :
    LoginOutcome :=
  if atoi login.choice.1 < 1 ∨ atoi login.choice.1 > 3 then .invalidChoice
  else .ofAuthentication login.role (authenticated ((cString login.userId).truncate maxId)
    ((cString login.password).truncate maxPass) login.role)

/-- The requests of a script: its commands up to the logout. -/
def executed {role : Role} : List (Command role) → List Request
  | [] => []
  | command :: script =>
    if command.isLogout then []
    else role.menu.request (atoi command.choice.1) command.args :: executed script

/-- What a user should see of the menus. -/
def transcript {role : Role} : List (Command role) → (Nat → CString) → List CString
  | [], _ => [role.menuText]
  | command :: script, answers =>
    if command.isLogout then [role.menuText, logoutText]
    else role.menuText :: answers 0 :: transcript script fun i => answers (i + 1)

/-- What a user should see of the end of a login, and after a success of the menus. -/
def Login.shownAfter (login : Login) (script : List (Command login.role))
    (answers : Nat → CString) (outcome : LoginOutcome) : List CString :=
  outcome.answer.toList ++
    match outcome with
    | .successful _ => transcript script answers
    | _ => []

/-- What a user should see: the prompts, how the login ends, and the menus after a login. -/
def Login.shown (login : Login) (script : List (Command login.role)) (answers : Nat → CString)
    (outcome : LoginOutcome) : List CString :=
  (if outcome = .invalidChoice then [loginScreen]
    else [loginScreen, userIdPrompt, passwordPrompt]) ++ login.shownAfter script answers outcome

/-- The requests that should be executed: those of the script after a login. -/
def Login.requests (login : Login) (script : List (Command login.role)) :
    LoginOutcome → List Request
  | .successful _ => executed script
  | _ => []

end AcademiaCr.Academia
