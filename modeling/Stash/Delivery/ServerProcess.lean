import Mathlib.Data.Fintype.Basic
import Stash.Delivery.SessionIds
import Stash.Foundation.Descriptors

/-! The server from the first `accept` to the end of `main`: `main` passes connections to the
client threads through the client queue, a client thread gives its connection to a session, and at
the end `main` joins the threads and destroys the session manager. -/
namespace Stash.Delivery
open Foundation.Descriptors Foundation.Fifos Foundation.Runs Sessions Threads

/-- Where `main` is, behind the start of the threads. -/
inductive MainPhase where
  | accepting
  /-- `accept` has returned. -/
  | offering (conn : Connection)
  /-- `client_queue_push` has failed. -/
  | rejecting (conn : Connection)
  /-- About to call `client_queue_signal_shutdown`. -/
  | closingClients
  /-- About to call `task_queue_signal_shutdown`. -/
  | closingTasks
  | joining
  | returned
  deriving DecidableEq

/-- What a client thread has in `cfd`. -/
inductive Hand where
  | empty
  | popped (conn : Connection)
  /-- `session_create` has returned 0. -/
  | failed (conn : Connection)
  /-- The session has the descriptor too. -/
  | serving (conn : Connection)
  /-- Closed behind a `session_get` that has found nothing; `session_destroy` is next. -/
  | dropped
  | exited
  deriving DecidableEq

def MainPhase.connection : MainPhase → Option Connection
  | .offering conn | .rejecting conn => some conn
  | .accepting | .closingClients | .closingTasks | .joining | .returned => none

/-- The connection that is with a client thread alone. -/
def Hand.connection : Hand → Option Connection
  | .popped conn | .failed conn => some conn
  | .empty | .serving _ | .dropped | .exited => none

def Hand.isExited : Hand → Bool
  | .exited => true
  | .empty | .popped _ | .failed _ | .serving _ | .dropped => false

def WorkerPhase.isExited : WorkerPhase → Bool
  | .exited => true
  | .idle | .processing _ | .delivering _ _ | .setting _ _ _ | .counting _ | .reporting _ => false

/-- The machine with `main`, the client queue and the descriptors. The connection that a session
was created for is recorded beside the session. -/
structure ServerProcess (κ ω : Type*) where
  machine : Machine κ ω
  clients : Fifo Connection
  main : MainPhase
  hand : κ → Hand
  endpoint : Nat → Connection
  table : Table

inductive Event (κ ω : Type*) where
  | accept (fd : Int)
  | offer
  | reject
  /-- `accept` has failed, or `keep_running` is 0. -/
  | stop
  | closeClients
  | closeTasks
  /-- `client_queue_signal_shutdown` in the signal handler. -/
  | interrupt
  | take (c : κ)
  /-- `close(cfd)`. -/
  | drop (c : κ)
  | connect (c : κ) (fault : CreateFault)
  | destroy (c : κ)
  | act (a : Action κ ω)
  | managerDestroy

/-- The steps of the machine that are not tied to a descriptor. -/
def Action.plain {κ ω : Type*} : Action κ ω → Bool
  | .connect _ _ _ | .destroy _ => false
  | _ => true

namespace ServerProcess
variable {κ ω : Type*}

def start (capacity taskCapacity : Nat) : ServerProcess κ ω :=
  ⟨.start taskCapacity, ⟨capacity, [], false⟩, .accepting, fun _ => .empty, fun _ => ⟨0, 0⟩, .empty⟩

/-- The descriptor in a session is closed when it is not negative. -/
def closeSession (s : ServerProcess κ ω) (p : Nat) : Table :=
  if (s.machine.heap.objects p).session.socketFd ≥ 0 then
    s.table.close (s.endpoint p) (s.machine.heap.objects p).session.socketFd
  else s.table

/-- `session_manager_destroy` at one slot. -/
def destroySlot (s : ServerProcess κ ω) (i : Nat) : ServerProcess κ ω :=
  match s.machine.heap.sessions i with
  | some p => { s with machine := s.machine.setHeap (s.machine.heap.remove i p), table := s.closeSession p }
  | none => s

/-- `session_manager_destroy`. -/
def sessionManagerDestroy (s : ServerProcess κ ω) : ServerProcess κ ω :=
  (List.range maxSessions).foldl destroySlot s

/-- `session_destroy`, with the `close` in it. -/
def sessionDestroy (s : ServerProcess κ ω) (id : UInt64) : Table :=
  match s.machine.heap.find id with
  | some (_, p) => s.closeSession p
  | none => s.table

variable [DecidableEq κ] [DecidableEq ω]

def setHand (s : ServerProcess κ ω) (c : κ) (hand : Hand) : ServerProcess κ ω :=
  { s with hand := Function.update s.hand c hand }

/-- The client thread goes on with the id that `session_create` returns. -/
def connect (s : ServerProcess κ ω) (c : κ) (fault : CreateFault) (conn : Connection) (m : Machine κ ω) :
    ServerProcess κ ω :=
  { s with
    machine := m
    endpoint := Function.update s.endpoint s.machine.heap.allocated conn
    hand := Function.update s.hand c
      (if (s.machine.heap.create fault conn.fd).2 = 0 then .failed conn else .serving conn) }

def destroy (s : ServerProcess κ ω) (c : κ) (id : UInt64) : Option (ServerProcess κ ω) :=
  (s.machine.step (.destroy c)).map fun m =>
    { s with machine := m, hand := Function.update s.hand c .empty, table := s.sessionDestroy id }

def step [Fintype κ] [Fintype ω] (s : ServerProcess κ ω) : Event κ ω → Option (ServerProcess κ ω)
  | .accept fd =>
    match s.main with
    | .accepting =>
      if 0 ≤ fd ∧ s.table.opened fd = none then
        some { s with main := .offering (s.table.next fd), table := s.table.accept fd }
      else none
    | _ => none
  | .offer =>
    match s.main with
    | .offering conn =>
      match s.clients.call (.push conn) with
      | some (clients, .pushed _) => some { s with clients := clients, main := .accepting }
      | some (_, _) => some { s with main := .rejecting conn }
      | none => none
    | _ => none
  | .reject =>
    match s.main with
    | .rejecting conn => some { s with main := .accepting, table := s.table.close conn conn.fd }
    | _ => none
  | .stop =>
    match s.main with
    | .accepting => some { s with main := .closingClients }
    | _ => none
  | .closeClients =>
    match s.main with
    | .closingClients => some { s with clients := { s.clients with shutdown := true }, main := .closingTasks }
    | _ => none
  | .closeTasks =>
    match s.main with
    | .closingTasks =>
      (s.machine.step .shutdown).map fun m => { s with machine := m, main := .joining }
    | _ => none
  | .interrupt => some { s with clients := { s.clients with shutdown := true } }
  | .take c =>
    match s.hand c with
    | .empty =>
      match s.clients.call .pop with
      | some (clients, .popped conn) => some ({ s with clients := clients }.setHand c (.popped conn))
      | some (_, .ended) => some (s.setHand c .exited)
      | _ => none
    | _ => none
  | .drop c =>
    match s.hand c, s.machine.client c with
    | .failed conn, _ => some ({ s with table := s.table.close conn conn.fd }.setHand c .empty)
    | .serving conn, .unfound _ => some ({ s with table := s.table.close conn conn.fd }.setHand c .dropped)
    | _, _ => none
  | .connect c fault =>
    match s.hand c with
    | .popped conn => (s.machine.step (.connect c fault conn.fd)).map fun m => s.connect c fault conn m
    | _ => none
  | .destroy c =>
    match s.hand c, s.machine.client c with
    | .serving _, .closing _ id => s.destroy c id
    | .dropped, .unfound id => s.destroy c id
    | _, _ => none
  | .act a => if a.plain then (s.machine.step a).map fun m => { s with machine := m } else none
  | .managerDestroy =>
    match s.main with
    | .joining =>
      if (∀ c, (s.hand c).isExited = true) ∧ ∀ w, (s.machine.worker w).isExited = true then
        some { s.sessionManagerDestroy with main := .returned }
      else none
    | _ => none

/-- What one step can do, case by case. -/
inductive Moves (s : ServerProcess κ ω) : Event κ ω → ServerProcess κ ω → Prop
  | accept {fd : Int} (hmain : s.main = .accepting) (hfd : 0 ≤ fd) (hfree : s.table.opened fd = none) :
      Moves s (.accept fd) { s with main := .offering (s.table.next fd), table := s.table.accept fd }
  | pushed {conn conn' : Connection} {clients : Fifo Connection} (hmain : s.main = .offering conn)
      (hcall : s.clients.call (.push conn) = some (clients, .pushed conn')) :
      Moves s .offer { s with clients := clients, main := .accepting }
  | refused {conn : Connection} (hmain : s.main = .offering conn) :
      Moves s .offer { s with main := .rejecting conn }
  | reject {conn : Connection} (hmain : s.main = .rejecting conn) :
      Moves s .reject { s with main := .accepting, table := s.table.close conn conn.fd }
  | stop (hmain : s.main = .accepting) : Moves s .stop { s with main := .closingClients }
  | closeClients (hmain : s.main = .closingClients) :
      Moves s .closeClients { s with clients := { s.clients with shutdown := true }, main := .closingTasks }
  | closeTasks {m : Machine κ ω} (hmain : s.main = .closingTasks) (hmachine : s.machine.step .shutdown = some m) :
      Moves s .closeTasks { s with machine := m, main := .joining }
  | interrupt : Moves s .interrupt { s with clients := { s.clients with shutdown := true } }
  | popped {c : κ} {conn : Connection} {clients : Fifo Connection} (hhand : s.hand c = .empty)
      (hcall : s.clients.call .pop = some (clients, .popped conn)) :
      Moves s (.take c) ({ s with clients := clients }.setHand c (.popped conn))
  | ended {c : κ} {clients : Fifo Connection} (hhand : s.hand c = .empty)
      (hcall : s.clients.call .pop = some (clients, .ended)) : Moves s (.take c) (s.setHand c .exited)
  | dropFailed {c : κ} {conn : Connection} (hhand : s.hand c = .failed conn) :
      Moves s (.drop c) ({ s with table := s.table.close conn conn.fd }.setHand c .empty)
  | dropUnfound {c : κ} {conn : Connection} {id : UInt64} (hhand : s.hand c = .serving conn)
      (hclient : s.machine.client c = .unfound id) :
      Moves s (.drop c) ({ s with table := s.table.close conn conn.fd }.setHand c .dropped)
  | connect {c : κ} {fault : CreateFault} {conn : Connection} {m : Machine κ ω} (hhand : s.hand c = .popped conn)
      (hmachine : s.machine.step (.connect c fault conn.fd) = some m) :
      Moves s (.connect c fault) (s.connect c fault conn m)
  | destroy {c : κ} {id : UInt64} {m : Machine κ ω}
      (hhand : ((∃ conn, s.hand c = .serving conn) ∧ ∃ p, s.machine.client c = .closing p id) ∨
        (s.hand c = .dropped ∧ s.machine.client c = .unfound id))
      (hmachine : s.machine.step (.destroy c) = some m) :
      Moves s (.destroy c) { s with
        machine := m, hand := Function.update s.hand c .empty, table := s.sessionDestroy id }
  | act {a : Action κ ω} {m : Machine κ ω} (hplain : a.plain = true) (hmachine : s.machine.step a = some m) :
      Moves s (.act a) { s with machine := m }
  | managerDestroy (hmain : s.main = .joining) (hhands : ∀ c, (s.hand c).isExited = true)
      (hworkers : ∀ w, (s.machine.worker w).isExited = true) :
      Moves s .managerDestroy { s.sessionManagerDestroy with main := .returned }

theorem step_moves [Fintype κ] [Fintype ω] {s s' : ServerProcess κ ω} {e : Event κ ω} (h : s.step e = some s') :
    Moves s e s' := by
  cases e with
  | accept fd =>
    simp only [step] at h
    split at h
    · rename_i hmain
      split at h
      · rename_i hfree
        obtain rfl := Option.some.inj h
        exact .accept hmain hfree.1 hfree.2
      · cases h
    · cases h
  | offer =>
    simp only [step] at h
    split at h
    · rename_i hmain
      split at h
      · rename_i hcall
        obtain rfl := Option.some.inj h
        exact .pushed hmain hcall
      · obtain rfl := Option.some.inj h
        exact .refused hmain
      · cases h
    · cases h
  | reject =>
    simp only [step] at h
    split at h
    · rename_i hmain
      obtain rfl := Option.some.inj h
      exact .reject hmain
    · cases h
  | stop =>
    simp only [step] at h
    split at h
    · rename_i hmain
      obtain rfl := Option.some.inj h
      exact .stop hmain
    · cases h
  | closeClients =>
    simp only [step] at h
    split at h
    · rename_i hmain
      obtain rfl := Option.some.inj h
      exact .closeClients hmain
    · cases h
  | closeTasks =>
    simp only [step] at h
    split at h
    · rename_i hmain
      obtain ⟨m, hm, rfl⟩ := Option.map_eq_some_iff.mp h
      exact .closeTasks hmain hm
    · cases h
  | interrupt =>
    obtain rfl := Option.some.inj h
    exact .interrupt
  | take c =>
    simp only [step] at h
    split at h
    · rename_i hhand
      split at h
      · rename_i hcall
        obtain rfl := Option.some.inj h
        exact .popped hhand hcall
      · rename_i hcall
        obtain rfl := Option.some.inj h
        exact .ended hhand hcall
      · cases h
    · cases h
  | drop c =>
    simp only [step] at h
    split at h
    · rename_i hhand
      obtain rfl := Option.some.inj h
      exact .dropFailed hhand
    · rename_i hhand hclient
      obtain rfl := Option.some.inj h
      exact .dropUnfound hhand hclient
    · cases h
  | connect c fault =>
    simp only [step] at h
    split at h
    · rename_i hhand
      obtain ⟨m, hm, rfl⟩ := Option.map_eq_some_iff.mp h
      exact .connect hhand hm
    · cases h
  | destroy c =>
    simp only [step] at h
    split at h
    · rename_i hhand hclient
      obtain ⟨m, hm, rfl⟩ := Option.map_eq_some_iff.mp h
      exact .destroy (.inl ⟨⟨_, hhand⟩, _, hclient⟩) hm
    · rename_i hhand hclient
      obtain ⟨m, hm, rfl⟩ := Option.map_eq_some_iff.mp h
      exact .destroy (.inr ⟨hhand, hclient⟩) hm
    · cases h
  | act a =>
    obtain ⟨hplain, h⟩ := Option.ite_none_right_eq_some.mp h
    obtain ⟨m, hm, rfl⟩ := Option.map_eq_some_iff.mp h
    exact .act hplain hm
  | managerDestroy =>
    simp only [step] at h
    split at h
    · rename_i hmain
      obtain ⟨hexited, h⟩ := Option.ite_none_right_eq_some.mp h
      obtain rfl := Option.some.inj h
      exact .managerDestroy hmain hexited.1 hexited.2
    · cases h

end ServerProcess

end Stash.Delivery
