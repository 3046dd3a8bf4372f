import AcademiaCr.Library.Run
import AcademiaCr.Backend.Controllers

/-!
# The multithreaded server

Request threads on one shared connection. A step is one SQLite call or one operation on the
course mutexes, at a time of its own. `register_student` and `drop_student` look up or
create the mutex of their course, lock it and execute their body; the other requests lock
nothing.

The shared and the exclusive section of `get_course_mutex` are one step each: the map is
accessed nowhere else.

## Main definitions

- `Request`, `Reply`: what a thread executes and answers
- `Phase`, `Thread`, `Server`: the state of the system
- `Server.step`: the step function, `Moves`: its steps case by case
-/

namespace AcademiaCr.Backend

open Resumption

/-! ## Requests -/

/-- The state-changing REST requests other than registration. -/
inductive HttpRequest where
  | postCourses (authHeader : String) (body : Option Json)
  | putCourse (authHeader : String) (id : Int) (body : Option Json)
  | deleteCourse (authHeader : String) (id : Int)
  | postUsers (authHeader : String) (body : Option Json)
  | putUser (authHeader : String) (id : Int) (body : Option Json)
  | deleteUser (authHeader : String) (id : Int)
  | postLogin (body : Option Json) (generated : String)
  | postLogout (authHeader : String)

def HttpRequest.handler : HttpRequest → Handler
  | postCourses authHeader body => CourseController.postCourses authHeader body
  | putCourse authHeader id body => CourseController.putCourse authHeader id body
  | deleteCourse authHeader id => CourseController.deleteCourse authHeader id
  | postUsers authHeader body => AdminController.postUsers authHeader body
  | putUser authHeader id body => AdminController.putUser authHeader id body
  | deleteUser authHeader id => AdminController.deleteUser authHeader id
  | postLogin body generated => AuthController.postLogin body generated
  | postLogout authHeader => AuthController.postLogout authHeader

/-- What a thread executes: a registration call, an update of a course, or a whole REST
request. -/
inductive Request where
  | registerStudent (studentId courseId : Int)
  | dropStudent (studentId courseId : Int)
  | updateCourse (course : Course) (requester : User)
  | http (request : HttpRequest)

inductive Reply where
  | registration (result : RegistrationResult)
  | course (result : CourseResult)
  | http (outcome : Except Exn HttpResponse)

namespace Request

/-- The course whose mutex the request locks. -/
def course : Request → Option Int
  | registerStudent _ c | dropStudent _ c => some c
  | updateCourse _ _ | http _ => none

/-- The connection calls of the request, made while it holds its mutex. -/
def body : Request → Sql Reply
  | registerStudent s c => Reply.registration <$> RegistrationService.registerStudent s c
  | dropStudent s c => Reply.registration <$> RegistrationService.dropStudent s c
  | updateCourse course requester =>
    Reply.course <$> CourseService.updateCourse course requester
  | http request => Reply.http <$> request.handler.run

end Request

/-! ## Threads -/

/-- Where a thread is in its current request. -/
inductive Phase where
  | idle
  | find (r : Request) (c : Int)
  | emplace (r : Request) (c : Int)
  | lock (r : Request) (m : Nat)
  | body (r : Request) (held : Option Nat) (rest : Sql Reply)
  | unlock (r : Request) (m : Nat) (reply : Reply)

/-- The first phase of a request. -/
def Request.enter (r : Request) : Phase :=
  match r.course with
  | some c => .find r c
  | none => .body r none r.body

/-- A thread with the requests it still has to execute and, latest first, those it has
finished with their replies. -/
structure Thread where
  todo : List Request
  phase : Phase := .idle
  finished : List (Request × Reply) := []

/-- The connection, `course_mutexes_` (the mutex created as the `m`-th is number `m`), the
thread that holds each mutex, and the threads. -/
structure Server (ι : Type) where
  conn : Conn
  courseMutexes : List (Int × Nat) := []
  owner : Nat → Option ι := fun _ => none
  threads : ι → Thread

namespace Server

variable {ι : Type}

/-- The mutex of a course. -/
def mutexOf (s : Server ι) (c : Int) : Option Nat :=
  (s.courseMutexes.find? fun e => e.1 = c).map (·.2)

/-- The server before any request. -/
def start (conn : Conn) (todo : ι → List Request) : Server ι where
  conn := conn
  threads i := { todo := todo i }

def setOwner (s : Server ι) (m : Nat) (o : Option ι) : Server ι :=
  { s with owner := fun n => if n = m then o else s.owner n }

section Owner

variable (s : Server ι) (m : Nat) (o : Option ι)

@[simp] theorem setOwner_conn : (s.setOwner m o).conn = s.conn := rfl

@[simp] theorem setOwner_courseMutexes : (s.setOwner m o).courseMutexes = s.courseMutexes := rfl

@[simp] theorem setOwner_threads : (s.setOwner m o).threads = s.threads := rfl

@[simp] theorem setOwner_self : (s.setOwner m o).owner m = o := if_pos rfl

theorem setOwner_ne {n : Nat} (h : n ≠ m) : (s.setOwner m o).owner n = s.owner n := if_neg h

end Owner

section Step

variable [DecidableEq ι]

def setThread (s : Server ι) (i : ι) (t : Thread) : Server ι :=
  { s with threads := fun j => if j = i then t else s.threads j }

def setPhase (s : Server ι) (i : ι) (phase : Phase) : Server ι :=
  s.setThread i { s.threads i with phase }

/-- The request of a thread is answered. -/
def finish (s : Server ι) (i : ι) (r : Request) (reply : Reply) : Server ι :=
  s.setThread i { s.threads i with
    phase := .idle, finished := (r, reply) :: (s.threads i).finished }

section Fields

variable (s : Server ι) (i : ι) (t : Thread) (phase : Phase) (r : Request) (reply : Reply)

@[simp] theorem setThread_conn : (s.setThread i t).conn = s.conn := rfl

@[simp] theorem setThread_owner : (s.setThread i t).owner = s.owner := rfl

@[simp] theorem setThread_courseMutexes :
    (s.setThread i t).courseMutexes = s.courseMutexes := rfl

@[simp] theorem setThread_self : (s.setThread i t).threads i = t := if_pos rfl

theorem setThread_ne {j : ι} (h : j ≠ i) : (s.setThread i t).threads j = s.threads j := if_neg h

@[simp] theorem setPhase_conn : (s.setPhase i phase).conn = s.conn := rfl

@[simp] theorem setPhase_owner : (s.setPhase i phase).owner = s.owner := rfl

@[simp] theorem setPhase_courseMutexes :
    (s.setPhase i phase).courseMutexes = s.courseMutexes := rfl

@[simp] theorem setPhase_self :
    (s.setPhase i phase).threads i = { s.threads i with phase } := if_pos rfl

theorem setPhase_ne {j : ι} (h : j ≠ i) : (s.setPhase i phase).threads j = s.threads j :=
  if_neg h

@[simp] theorem finish_conn : (s.finish i r reply).conn = s.conn := rfl

@[simp] theorem finish_owner : (s.finish i r reply).owner = s.owner := rfl

@[simp] theorem finish_courseMutexes :
    (s.finish i r reply).courseMutexes = s.courseMutexes := rfl

@[simp] theorem finish_self : (s.finish i r reply).threads i =
    { s.threads i with phase := .idle, finished := (r, reply) :: (s.threads i).finished } :=
  if_pos rfl

theorem finish_ne {j : ι} (h : j ≠ i) : (s.finish i r reply).threads j = s.threads j := if_neg h

end Fields

/-- One step of a thread at a time. A thread that has nothing to do or waits for a mutex
has none. -/
def step (s : Server ι) : ι × Int → Option (Server ι)
  | (i, now) =>
    match (s.threads i).phase with
    | .idle =>
      match (s.threads i).todo with
      | [] => none
      | r :: rest => some (s.setThread i { s.threads i with todo := rest, phase := r.enter })
    | .find r c =>
      match s.mutexOf c with
      | some m => some (s.setPhase i (.lock r m))
      | none => some (s.setPhase i (.emplace r c))
    | .emplace r c =>
      match s.mutexOf c with
      | some m => some (s.setPhase i (.lock r m))
      | none =>
        let m := s.courseMutexes.length
        some ({ s with courseMutexes := s.courseMutexes ++ [(c, m)] }.setPhase i (.lock r m))
    | .lock r m =>
      match s.owner m with
      | some _ => none
      | none => some ((s.setOwner m (some i)).setPhase i (.body r (some m) r.body))
    | .body r held (.call e next) =>
      some ({ s with conn := (s.conn.exec now e).2 }.setPhase i
        (.body r held (next (s.conn.exec now e).1)))
    | .body r none (.ret reply) => some (s.finish i r reply)
    | .body r (some m) (.ret reply) => some (s.setPhase i (.unlock r m reply))
    | .unlock r m reply => some ((s.setOwner m none).finish i r reply)

/-- The steps of the server, case by case. -/
inductive Moves (s : Server ι) (i : ι) (now : Int) : Server ι → Prop
  | start {r : Request} {rest : List Request} (hp : (s.threads i).phase = .idle)
      (ht : (s.threads i).todo = r :: rest) :
      Moves s i now (s.setThread i { s.threads i with todo := rest, phase := r.enter })
  | found {r : Request} {c : Int} {m : Nat}
      (hp : (s.threads i).phase = .find r c ∨ (s.threads i).phase = .emplace r c)
      (hm : s.mutexOf c = some m) : Moves s i now (s.setPhase i (.lock r m))
  | missing {r : Request} {c : Int} (hp : (s.threads i).phase = .find r c)
      (hm : s.mutexOf c = none) : Moves s i now (s.setPhase i (.emplace r c))
  | create {r : Request} {c : Int} (hp : (s.threads i).phase = .emplace r c)
      (hm : s.mutexOf c = none) :
      Moves s i now ({ s with
        courseMutexes := s.courseMutexes ++ [(c, s.courseMutexes.length)] }.setPhase i
          (.lock r s.courseMutexes.length))
  | acquire {r : Request} {m : Nat} (hp : (s.threads i).phase = .lock r m)
      (ho : s.owner m = none) :
      Moves s i now ((s.setOwner m (some i)).setPhase i (.body r (some m) r.body))
  | call {r : Request} {held : Option Nat} {β : Type} {e : SqlCall β} {next : β → Sql Reply}
      (hp : (s.threads i).phase = .body r held (.call e next)) :
      Moves s i now ({ s with conn := (s.conn.exec now e).2 }.setPhase i
        (.body r held (next (s.conn.exec now e).1)))
  | done {r : Request} {reply : Reply} (hp : (s.threads i).phase = .body r none (.ret reply)) :
      Moves s i now (s.finish i r reply)
  | leave {r : Request} {m : Nat} {reply : Reply}
      (hp : (s.threads i).phase = .body r (some m) (.ret reply)) :
      Moves s i now (s.setPhase i (.unlock r m reply))
  | release {r : Request} {m : Nat} {reply : Reply}
      (hp : (s.threads i).phase = .unlock r m reply) :
      Moves s i now ((s.setOwner m none).finish i r reply)

/-- A step is one of the moves. -/
theorem step_moves {s s' : Server ι} {i : ι} {now : Int} (h : s.step (i, now) = some s') :
    Moves s i now s' := by
  simp only [step] at h
  split at h
  · next hp =>
    split at h
    · cases h
    · next ht => cases h; exact .start hp ht
  · next hp =>
    split at h
    · next hm => cases h; exact .found (Or.inl hp) hm
    · next hm => cases h; exact .missing hp hm
  · next hp =>
    split at h
    · next hm => cases h; exact .found (Or.inr hp) hm
    · next hm => cases h; exact .create hp hm
  · next hp =>
    split at h
    · cases h
    · next ho => cases h; exact .acquire hp ho
  · next hp => cases h; exact .call hp
  · next hp => cases h; exact .done hp
  · next hp => cases h; exact .leave hp
  · next hp => cases h; exact .release hp

/-- A thread that does not move stays as it is. -/
theorem Moves.threads_ne {s s' : Server ι} {i j : ι} {now : Int} (hm : Moves s i now s')
    (hj : j ≠ i) : s'.threads j = s.threads j := by
  cases hm with
  | start => exact setThread_ne _ _ _ hj
  | found | missing | create | acquire | call | leave => exact setPhase_ne _ _ _ hj
  | done | release => exact finish_ne _ _ _ _ hj

/-- The runs of the server. -/
abbrev Runs (s₀ : Server ι) := Transition.Run Server.step s₀

end Step

end Server

end AcademiaCr.Backend
