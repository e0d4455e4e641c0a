import Stash.Foundation.Fifos
import Stash.Delivery.SessionObjects

/-! Client threads and workers around the task queue: a client thread resets the response of its
session, pushes a task and waits; a worker looks the session up by the id in the task and fills
the response. Each call that holds a mutex is one step. -/
namespace Stash.Delivery
open Foundation.Fifos Foundation.Runs Sessions Threads

/-- A task in the queue, numbered, with the session object whose client thread pushed it. -/
structure Job where
  serial : Nat
  session : Nat
  task : Task
  deriving DecidableEq

/-- Where a client thread is, with its session pointer and its session id. -/
inductive ClientPhase where
  | idle
  /-- `session_create` has returned an id. -/
  | created (id : UInt64)
  /-- `session_get` has not found it. -/
  | unfound (id : UInt64)
  /-- Authentication, or the next command. -/
  | reading (p : Nat) (id : UInt64)
  /-- The response is reset. -/
  | pushing (p : Nat) (id : UInt64)
  /-- In `response_wait`. -/
  | waiting (p : Nat) (id : UInt64)
  /-- `response_wait` has returned. -/
  | woken (p : Nat) (id : UInt64)
  | sending (p : Nat) (id : UInt64)
  /-- About to call `session_mark_inactive`. -/
  | leaving (p : Nat) (id : UInt64)
  /-- About to call `session_destroy`. -/
  | closing (p : Nat) (id : UInt64)
  deriving DecidableEq

/-- Where a worker is; from `delivering` on it is in `deliver_response`. -/
inductive WorkerPhase where
  | idle
  | processing (job : Job)
  | delivering (job : Job) (response : Response)
  /-- `session_get` has returned `p`; `response_set` is next. -/
  | setting (job : Job) (response : Response) (p : Nat)
  /-- `session_increment_operations` is next. -/
  | counting (p : Nat)
  /-- The read of `operations_count` is next. -/
  | reporting (p : Nat)
  | exited
  deriving DecidableEq

/-- A response that went to a client, with the task that it was produced by and the task that
the session had pushed last. -/
structure Sent where
  session : Nat
  producedBy : Option Nat
  lastPushed : Option Nat
  response : Response

structure Machine (κ ω : Type*) where
  heap : Heap
  queue : Fifo Job
  pushed : Nat
  client : κ → ClientPhase
  worker : ω → WorkerPhase
  sends : List Sent

inductive Action (κ ω : Type*) where
  | connect (c : κ) (fault : CreateFault) (socketFd : Int)
  | get (c : κ)
  | reset (c : κ)
  | push (c : κ) (task : Task)
  | wake (c : κ)
  | check (c : κ)
  | send (c : κ) (ok : Bool)
  | quit (c : κ)
  | markInactive (c : κ)
  | destroy (c : κ)
  | pop (w : ω)
  | produce (w : ω) (response : Response)
  | lookup (w : ω)
  | set (w : ω)
  | count (w : ω)
  | report (w : ω)
  | shutdown

/-- What the reset before a push does to a session. -/
def SessionObject.reset (o : SessionObject) : SessionObject :=
  { o with ready := false, response := emptyResponse, producedBy := none }

/-- `response_set`, on behalf of a task. -/
def SessionObject.set (o : SessionObject) (serial : Nat) (response : Response) : SessionObject :=
  { o with ready := true, response := response, producedBy := some serial }

/-- `session_increment_operations`. -/
def SessionObject.increment (o : SessionObject) : SessionObject :=
  { o with session := { o.session with operationsCount := o.session.operationsCount + 1 } }

def SessionObject.push (o : SessionObject) (serial : Nat) : SessionObject := { o with lastPushed := some serial }

def SessionObject.sent (o : SessionObject) (p : Nat) : Sent := ⟨p, o.producedBy, o.lastPushed, o.response⟩

namespace Machine
variable {κ ω : Type*} [DecidableEq κ] [DecidableEq ω]

def start (capacity : Nat) : Machine κ ω where
  heap := ⟨1, fun _ => none, fun _ => newObject 0 0, 0⟩
  queue := ⟨capacity, [], false⟩
  pushed := 0
  client _ := .idle
  worker _ := .idle
  sends := []

def setClient (m : Machine κ ω) (c : κ) (phase : ClientPhase) : Machine κ ω :=
  { m with client := Function.update m.client c phase }

def setWorker (m : Machine κ ω) (w : ω) (phase : WorkerPhase) : Machine κ ω :=
  { m with worker := Function.update m.worker w phase }

def setHeap (m : Machine κ ω) (heap : Heap) : Machine κ ω := { m with heap := heap }

def setQueue (m : Machine κ ω) (queue : Fifo Job) : Machine κ ω := { m with queue := queue }

/-- The task is taken into the queue. -/
def enqueue (m : Machine κ ω) (queue : Fifo Job) (c : κ) (p : Nat) (id : UInt64) : Machine κ ω :=
  { m with
    heap := m.heap.modify p fun o => o.push m.pushed
    queue := queue
    pushed := m.pushed + 1
    client := Function.update m.client c (.waiting p id) }

/-- The response goes to the client as it stands in the session. -/
def deliver (m : Machine κ ω) (c : κ) (p : Nat) (phase : ClientPhase) : Machine κ ω :=
  { m with
    sends := m.sends ++ [(m.heap.objects p).sent p]
    client := Function.update m.client c phase }

def step (m : Machine κ ω) : Action κ ω → Option (Machine κ ω)
  | .connect c fault socketFd =>
    match m.client c with
    | .idle =>
      let (heap, id) := m.heap.create fault socketFd
      some ((m.setHeap heap).setClient c (if id = 0 then .idle else .created id))
    | _ => none
  | .get c =>
    match m.client c with
    | .created id =>
      match m.heap.get id with
      | some p => some (m.setClient c (.reading p id))
      | none => some (m.setClient c (.unfound id))
    | _ => none
  | .reset c =>
    match m.client c with
    | .reading p id => some ((m.setHeap (m.heap.modify p SessionObject.reset)).setClient c (.pushing p id))
    | _ => none
  | .push c task =>
    match m.client c with
    | .pushing p id =>
      match m.queue.call (.push ⟨m.pushed, p, { task with sessionId := id }⟩) with
      | some (queue, .pushed _) => some (m.enqueue queue c p id)
      | some (_, _) => some (m.setClient c (.reading p id))
      | none => none
    | _ => none
  | .wake c =>
    match m.client c with
    | .waiting p id => if (m.heap.objects p).ready then some (m.setClient c (.woken p id)) else none
    | _ => none
  | .check c =>
    match m.client c with
    | .woken p id =>
      if (m.heap.objects p).session.isActive then some (m.setClient c (.sending p id))
      else some (m.setClient c (.closing p id))
    | _ => none
  | .send c ok =>
    match m.client c with
    | .sending p id => some (m.deliver c p (if ok then .reading p id else .leaving p id))
    | _ => none
  | .quit c =>
    match m.client c with
    | .reading p id => some (m.setClient c (.leaving p id))
    | _ => none
  | .markInactive c =>
    match m.client c with
    | .leaving p id => some ((m.setHeap (m.heap.markInactive id)).setClient c (.closing p id))
    | _ => none
  | .destroy c =>
    match m.client c with
    | .closing _ id => some ((m.setHeap (m.heap.destroy id)).setClient c .idle)
    | .unfound id => some ((m.setHeap (m.heap.destroy id)).setClient c .idle)
    | _ => none
  | .pop w =>
    match m.worker w with
    | .idle =>
      match m.queue.call .pop with
      | some (queue, .popped job) => some ((m.setQueue queue).setWorker w (.processing job))
      | some (_, _) => some (m.setWorker w .exited)
      | none => none
    | _ => none
  | .produce w response =>
    match m.worker w with
    | .processing job => some (m.setWorker w (.delivering job response))
    | _ => none
  | .lookup w =>
    match m.worker w with
    | .delivering job response =>
      match m.heap.get job.task.sessionId with
      | some p => some (m.setWorker w (.setting job response p))
      | none => some (m.setWorker w .idle)
    | _ => none
  | .set w =>
    match m.worker w with
    | .setting job response p =>
      some ((m.setHeap (m.heap.modify p fun o => o.set job.serial response)).setWorker w (.counting p))
    | _ => none
  | .count w =>
    match m.worker w with
    | .counting p => some ((m.setHeap (m.heap.modify p SessionObject.increment)).setWorker w (.reporting p))
    | _ => none
  | .report w =>
    match m.worker w with
    | .reporting _ => some (m.setWorker w .idle)
    | _ => none
  | .shutdown => some (m.setQueue { m.queue with shutdown := true })

/-- What one step can do, case by case. -/
inductive Moves (m : Machine κ ω) : Action κ ω → Machine κ ω → Prop
  | connect {c : κ} {fault : CreateFault} {socketFd : Int} (hc : m.client c = .idle) :
      Moves m (.connect c fault socketFd) ((m.setHeap (m.heap.create fault socketFd).1).setClient c
        (if (m.heap.create fault socketFd).2 = 0 then .idle else .created (m.heap.create fault socketFd).2))
  | found {c : κ} {id : UInt64} {p : Nat} (hc : m.client c = .created id) (hget : m.heap.get id = some p) :
      Moves m (.get c) (m.setClient c (.reading p id))
  | unfound {c : κ} {id : UInt64} (hc : m.client c = .created id) (hget : m.heap.get id = none) :
      Moves m (.get c) (m.setClient c (.unfound id))
  | reset {c : κ} {p : Nat} {id : UInt64} (hc : m.client c = .reading p id) :
      Moves m (.reset c) ((m.setHeap (m.heap.modify p SessionObject.reset)).setClient c (.pushing p id))
  | pushed {c : κ} {task : Task} {p : Nat} {id : UInt64} {queue : Fifo Job} {job : Job}
      (hc : m.client c = .pushing p id)
      (hcall : m.queue.call (.push ⟨m.pushed, p, { task with sessionId := id }⟩) = some (queue, .pushed job)) :
      Moves m (.push c task) (m.enqueue queue c p id)
  | refused {c : κ} {task : Task} {p : Nat} {id : UInt64} (hc : m.client c = .pushing p id) :
      Moves m (.push c task) (m.setClient c (.reading p id))
  | wake {c : κ} {p : Nat} {id : UInt64} (hc : m.client c = .waiting p id) (hready : (m.heap.objects p).ready = true) :
      Moves m (.wake c) (m.setClient c (.woken p id))
  | active {c : κ} {p : Nat} {id : UInt64} (hc : m.client c = .woken p id) :
      Moves m (.check c) (m.setClient c (.sending p id))
  | inactive {c : κ} {p : Nat} {id : UInt64} (hc : m.client c = .woken p id) :
      Moves m (.check c) (m.setClient c (.closing p id))
  | send {c : κ} {ok : Bool} {p : Nat} {id : UInt64} (hc : m.client c = .sending p id) :
      Moves m (.send c ok) (m.deliver c p (if ok then .reading p id else .leaving p id))
  | quit {c : κ} {p : Nat} {id : UInt64} (hc : m.client c = .reading p id) :
      Moves m (.quit c) (m.setClient c (.leaving p id))
  | markInactive {c : κ} {p : Nat} {id : UInt64} (hc : m.client c = .leaving p id) :
      Moves m (.markInactive c) ((m.setHeap (m.heap.markInactive id)).setClient c (.closing p id))
  | destroy {c : κ} {id : UInt64} (hc : (∃ p, m.client c = .closing p id) ∨ m.client c = .unfound id) :
      Moves m (.destroy c) ((m.setHeap (m.heap.destroy id)).setClient c .idle)
  | pop {w : ω} {queue : Fifo Job} {job : Job} (hw : m.worker w = .idle)
      (hcall : m.queue.call .pop = some (queue, .popped job)) :
      Moves m (.pop w) ((m.setQueue queue).setWorker w (.processing job))
  | ended {w : ω} (hw : m.worker w = .idle) : Moves m (.pop w) (m.setWorker w .exited)
  | produce {w : ω} {response : Response} {job : Job} (hw : m.worker w = .processing job) :
      Moves m (.produce w response) (m.setWorker w (.delivering job response))
  | lookup {w : ω} {response : Response} {job : Job} {p : Nat} (hw : m.worker w = .delivering job response)
      (hget : m.heap.get job.task.sessionId = some p) : Moves m (.lookup w) (m.setWorker w (.setting job response p))
  | dropped {w : ω} {response : Response} {job : Job} (hw : m.worker w = .delivering job response)
      (hget : m.heap.get job.task.sessionId = none) : Moves m (.lookup w) (m.setWorker w .idle)
  | set {w : ω} {response : Response} {job : Job} {p : Nat} (hw : m.worker w = .setting job response p) :
      Moves m (.set w)
        ((m.setHeap (m.heap.modify p fun o => o.set job.serial response)).setWorker w (.counting p))
  | count {w : ω} {p : Nat} (hw : m.worker w = .counting p) :
      Moves m (.count w) ((m.setHeap (m.heap.modify p SessionObject.increment)).setWorker w (.reporting p))
  | report {w : ω} {p : Nat} (hw : m.worker w = .reporting p) : Moves m (.report w) (m.setWorker w .idle)
  | shutdown : Moves m .shutdown (m.setQueue { m.queue with shutdown := true })

theorem step_moves {m m' : Machine κ ω} {a : Action κ ω} (h : m.step a = some m') : Moves m a m' := by
  unfold step at h
  split at h
  · split at h
    · rename_i hc
      obtain rfl := Option.some.inj h
      exact .connect hc
    · cases h
  · split at h
    · rename_i hc
      split at h
      · rename_i hget
        obtain rfl := Option.some.inj h
        exact .found hc hget
      · rename_i hget
        obtain rfl := Option.some.inj h
        exact .unfound hc hget
    · cases h
  · split at h
    · rename_i hc
      obtain rfl := Option.some.inj h
      exact .reset hc
    · cases h
  · split at h
    · rename_i hc
      split at h
      · rename_i hcall
        obtain rfl := Option.some.inj h
        exact .pushed hc hcall
      · obtain rfl := Option.some.inj h
        exact .refused hc
      · cases h
    · cases h
  · split at h
    · rename_i hc
      split at h
      · rename_i hready
        obtain rfl := Option.some.inj h
        exact .wake hc hready
      · cases h
    · cases h
  · split at h
    · rename_i hc
      split at h
      · obtain rfl := Option.some.inj h
        exact .active hc
      · obtain rfl := Option.some.inj h
        exact .inactive hc
    · cases h
  · split at h
    · rename_i hc
      obtain rfl := Option.some.inj h
      exact .send hc
    · cases h
  · split at h
    · rename_i hc
      obtain rfl := Option.some.inj h
      exact .quit hc
    · cases h
  · split at h
    · rename_i hc
      obtain rfl := Option.some.inj h
      exact .markInactive hc
    · cases h
  · split at h
    · rename_i p id hc
      obtain rfl := Option.some.inj h
      exact .destroy (.inl ⟨p, hc⟩)
    · rename_i hc
      obtain rfl := Option.some.inj h
      exact .destroy (.inr hc)
    · cases h
  · split at h
    · rename_i hw
      split at h
      · rename_i hcall
        obtain rfl := Option.some.inj h
        exact .pop hw hcall
      · obtain rfl := Option.some.inj h
        exact .ended hw
      · cases h
    · cases h
  · split at h
    · rename_i hw
      obtain rfl := Option.some.inj h
      exact .produce hw
    · cases h
  · split at h
    · rename_i hw
      split at h
      · rename_i hget
        obtain rfl := Option.some.inj h
        exact .lookup hw hget
      · rename_i hget
        obtain rfl := Option.some.inj h
        exact .dropped hw hget
    · cases h
  · split at h
    · rename_i hw
      obtain rfl := Option.some.inj h
      exact .set hw
    · cases h
  · split at h
    · rename_i hw
      obtain rfl := Option.some.inj h
      exact .count hw
    · cases h
  · split at h
    · rename_i hw
      obtain rfl := Option.some.inj h
      exact .report hw
    · cases h
  · obtain rfl := Option.some.inj h
    exact .shutdown

end Machine

end Stash.Delivery
