import Stash.Sessions.SessionManager
import Stash.Threads.ClientThread

/-! Sessions as objects on the heap. The table of the session manager holds pointers, and client
threads and workers keep pointers of their own, which outlive what they point to when a session
is freed. -/
namespace Stash.Delivery
open Foundation.LinearProbing Sessions Threads

/-- A `Session` with its response. Which task the response was produced by and which task the
session pushed last is recorded beside it, and whether it has been freed. -/
structure SessionObject where
  session : Session
  ready : Bool
  response : Response
  producedBy : Option Nat
  lastPushed : Option Nat
  destroyed : Bool

/-- What `response_init` and the reset before a task leave in the response. -/
def emptyResponse : Response := ⟨.success, [], []⟩

def newObject (sessionId : UInt64) (socketFd : Int) : SessionObject :=
  ⟨newSession sessionId socketFd, false, emptyResponse, none, none, false⟩

def SessionObject.markInactive (o : SessionObject) : SessionObject := { o with session := o.session.markInactive }

def SessionObject.free (o : SessionObject) : SessionObject := { o.markInactive with destroyed := true }

/-- The manager and the objects that `calloc` has handed out; a pointer is the number of its
allocation. -/
structure Heap where
  nextSessionId : UInt64
  sessions : Nat → Option Nat
  objects : Nat → SessionObject
  allocated : Nat

namespace Heap

def sessionId (h : Heap) (p : Nat) : UInt64 := (h.objects p).session.sessionId

def occupied (h : Heap) (i : Nat) : Bool := (h.sessions i).isSome

def holds (h : Heap) (sessionId : UInt64) (i : Nat) : Bool := (h.sessions i).any fun p => h.sessionId p == sessionId

/-- The table with the sessions in place of the pointers. -/
def manager (h : Heap) : SessionManager :=
  ⟨fun i => (h.sessions i).map fun p => (h.objects p).session, h.nextSessionId, 0, 0, 0, []⟩

def modify (h : Heap) (p : Nat) (f : SessionObject → SessionObject) : Heap :=
  { h with objects := Function.update h.objects p (f (h.objects p)) }

def setNext (h : Heap) (next : UInt64) : Heap := { h with nextSessionId := next }

/-- The next object is initialised and goes into the slot. -/
def store (h : Heap) (i : Nat) (object : SessionObject) : Heap :=
  { h with
    sessions := Function.update h.sessions i (some h.allocated)
    objects := Function.update h.objects h.allocated object
    allocated := h.allocated + 1 }

/-- `session_create` on the heap. An object that is freed on an error path is not recorded. -/
def create (fault : CreateFault) (h : Heap) (socketFd : Int) : Heap × UInt64 :=
  if socketFd < 0 then (h, 0)
  else if fault = .calloc then (h, 0)
  else
    let sessionId := h.nextSessionId
    let bumped := h.setNext (h.nextSessionId + 1)
    match scan maxSessions (fun i => !h.occupied i) maxSessions (hashSessionId sessionId) with
    | none => (bumped, 0)
    | some i =>
      if fault = .responseInit then (bumped, 0)
      else if fault = .mutexInit then (bumped, 0)
      else (bumped.store i (newObject sessionId socketFd), sessionId)

/-- The slot and the pointer at which a lookup by id ends. -/
def find (h : Heap) (sessionId : UInt64) : Option (Nat × Nat) :=
  if sessionId = 0 then none
  else
    (scan maxSessions (fun i => !h.occupied i || h.holds sessionId i) maxSessions
      (hashSessionId sessionId)).bind fun i => (h.sessions i).map fun p => (i, p)

/-- `session_get`. -/
def get (h : Heap) (sessionId : UInt64) : Option Nat :=
  match h.find sessionId with
  | some (_, p) => if (h.objects p).session.isActive then some p else none
  | none => none

/-- `session_mark_inactive`. -/
def markInactive (h : Heap) (sessionId : UInt64) : Heap :=
  match h.find sessionId with
  | some (_, p) => h.modify p SessionObject.markInactive
  | none => h

/-- The object is freed and its slot emptied. -/
def remove (h : Heap) (i p : Nat) : Heap :=
  { h.modify p SessionObject.free with sessions := Function.update h.sessions i none }

/-- `session_destroy`. -/
def destroy (h : Heap) (sessionId : UInt64) : Heap :=
  match h.find sessionId with
  | some (i, p) => h.remove i p
  | none => h

@[simp] theorem modify_sessions (h : Heap) (p : Nat) (f : SessionObject → SessionObject) :
    (h.modify p f).sessions = h.sessions := rfl
@[simp] theorem modify_allocated (h : Heap) (p : Nat) (f : SessionObject → SessionObject) :
    (h.modify p f).allocated = h.allocated := rfl
@[simp] theorem modify_objects (h : Heap) (p : Nat) (f : SessionObject → SessionObject) :
    (h.modify p f).objects = Function.update h.objects p (f (h.objects p)) := rfl
@[simp] theorem setNext_sessions (h : Heap) (next : UInt64) : (h.setNext next).sessions = h.sessions := rfl
@[simp] theorem setNext_objects (h : Heap) (next : UInt64) : (h.setNext next).objects = h.objects := rfl
@[simp] theorem setNext_allocated (h : Heap) (next : UInt64) : (h.setNext next).allocated = h.allocated := rfl
@[simp] theorem store_sessions (h : Heap) (i : Nat) (o : SessionObject) :
    (h.store i o).sessions = Function.update h.sessions i (some h.allocated) := rfl
@[simp] theorem store_objects (h : Heap) (i : Nat) (o : SessionObject) :
    (h.store i o).objects = Function.update h.objects h.allocated o := rfl
@[simp] theorem store_allocated (h : Heap) (i : Nat) (o : SessionObject) :
    (h.store i o).allocated = h.allocated + 1 := rfl
@[simp] theorem remove_sessions (h : Heap) (i p : Nat) :
    (h.remove i p).sessions = Function.update h.sessions i none := rfl
@[simp] theorem remove_objects (h : Heap) (i p : Nat) :
    (h.remove i p).objects = Function.update h.objects p (SessionObject.free (h.objects p)) := rfl
@[simp] theorem remove_allocated (h : Heap) (i p : Nat) : (h.remove i p).allocated = h.allocated := rfl

variable {h : Heap} {id : UInt64}

section Operations
variable {f : SessionObject → SessionObject} {o : SessionObject} {i j p q : Nat}

theorem sessionId_modify (hid : ∀ o, (f o).session.sessionId = o.session.sessionId) :
    (h.modify p f).sessionId q = h.sessionId q := by
  by_cases hq : q = p
  · subst hq
    simp [sessionId, hid]
  · simp [sessionId, hq]

theorem destroyed_modify (hlive : ∀ o, (f o).destroyed = o.destroyed) :
    ((h.modify p f).objects q).destroyed = (h.objects q).destroyed := by
  by_cases hq : q = p
  · subst hq
    simp [hlive]
  · simp [hq]

/-- A session that is freed keeps its id. -/
theorem sessionId_remove : (h.remove i p).sessionId q = h.sessionId q :=
  sessionId_modify fun _ => rfl

theorem sessions_remove : (h.remove i p).sessions j = some q ↔ j ≠ i ∧ h.sessions j = some q := by
  by_cases hj : j = i
  · subst hj
    simp
  · simp [hj]

theorem sessions_store : (h.store i o).sessions j = some p ↔
    (j = i ∧ p = h.allocated) ∨ (j ≠ i ∧ h.sessions j = some p) := by
  by_cases hj : j = i
  · subst hj
    simp [eq_comm]
  · simp [hj]

theorem sessions_kept (hfree : h.sessions i = none) (hj : h.sessions j = some p) :
    (h.store i o).sessions j = some p := by
  refine sessions_store.mpr (.inr ⟨?_, hj⟩)
  rintro rfl
  rw [hfree] at hj
  cases hj

theorem objects_store (hp : p ≠ h.allocated) : (h.store i o).objects p = h.objects p :=
  Function.update_of_ne hp _ _

theorem sessionId_store (hp : p ≠ h.allocated) : (h.store i o).sessionId p = h.sessionId p := by
  rw [sessionId, objects_store hp]
  rfl

theorem sessionId_stored : (h.store i o).sessionId h.allocated = o.session.sessionId := by
  rw [sessionId, store_objects, Function.update_self]

end Operations

/-- Lookups go where those in the table of sessions go. -/
theorem find_manager (h : Heap) (id : UInt64) :
    sessionFind h.manager id = (h.find id).map fun r => (r.1, (h.objects r.2).session) := by
  have hoccupied : ∀ i, h.manager.occupied i = h.occupied i := by
    intro i
    simp [manager, SessionManager.occupied, occupied]
  have hholds : ∀ i, h.manager.holds id i = h.holds id i := by
    intro i
    cases hi : h.sessions i with
    | none => simp [manager, SessionManager.holds, holds, hi]
    | some p => simp [manager, SessionManager.holds, holds, sessionId, hi]
  simp only [sessionFind, find, hoccupied, hholds]
  split
  · rfl
  · rw [Option.map_bind]
    congr 1
    funext i
    simp [manager, Function.comp_def]

theorem get_manager (h : Heap) (id : UInt64) :
    sessionGet h.manager id = (h.get id).map fun p => (h.objects p).session := by
  simp only [sessionGet, get, find_manager]
  cases h.find id with
  | none => rfl
  | some r =>
    simp only [Option.map_some]
    split
    · rfl
    · rfl

/-- A session that is created gets the id and the slot that the table of sessions gives it. -/
theorem create_manager {fault : CreateFault} {socketFd : Int} (hbelow : ∀ i p, h.sessions i = some p → p < h.allocated) :
    (h.create fault socketFd).1.manager.sessions = (sessionCreate fault h.manager socketFd).1.sessions ∧
      (h.create fault socketFd).2 = (sessionCreate fault h.manager socketFd).2 := by
  have hoccupied : (fun i => !h.manager.occupied i) = fun i => !h.occupied i := by
    funext i
    simp [manager, SessionManager.occupied, occupied]
  have hnext : h.manager.nextSessionId = h.nextSessionId := rfl
  simp only [create, sessionCreate, hoccupied, hnext]
  split
  · exact ⟨rfl, rfl⟩
  · split
    · exact ⟨rfl, rfl⟩
    · cases scan maxSessions (fun i => !h.occupied i) maxSessions (hashSessionId h.nextSessionId) with
      | none => exact ⟨rfl, rfl⟩
      | some i =>
        simp only
        split
        · exact ⟨rfl, rfl⟩
        · split
          · exact ⟨rfl, rfl⟩
          · refine ⟨?_, rfl⟩
            funext j
            by_cases hj : j = i
            · subst hj
              simp [manager, newObject]
            · cases hp : h.sessions j with
              | none => simp [manager, hj, hp]
              | some p => simp [manager, hj, hp, Function.update_of_ne (Nat.ne_of_lt (hbelow j p hp))]

theorem find_some {i p : Nat} (hf : h.find id = some (i, p)) :
    h.sessions i = some p ∧ h.sessionId p = id ∧ id ≠ 0 := by
  have hmanager : sessionFind h.manager id = some (i, (h.objects p).session) := by rw [find_manager, hf]; rfl
  obtain ⟨_, _, hid, hz, _⟩ := sessionFind_some hmanager
  refine ⟨?_, hid, hz⟩
  unfold find at hf
  split at hf
  · cases hf
  · obtain ⟨j, _, hj⟩ := Option.bind_eq_some_iff.mp hf
    obtain ⟨q, hq, he⟩ := Option.map_eq_some_iff.mp hj
    obtain ⟨rfl, rfl⟩ := Prod.mk.inj he
    exact hq

theorem find_of_get {p : Nat} (hg : h.get id = some p) : ∃ i, h.find id = some (i, p) := by
  unfold get at hg
  split at hg
  · rename_i i q hf
    split at hg
    · obtain rfl := Option.some.inj hg
      exact ⟨i, hf⟩
    · cases hg
  · cases hg

/-- Nothing is stored and no id returned, or a fresh object stands in a slot that was free. -/
theorem create_cases (fault : CreateFault) (h : Heap) (socketFd : Int) :
    h.create fault socketFd = (h, 0) ∨ h.create fault socketFd = (h.setNext (h.nextSessionId + 1), 0) ∨
      ∃ i, h.sessions i = none ∧ h.create fault socketFd =
        ((h.setNext (h.nextSessionId + 1)).store i (newObject h.nextSessionId socketFd), h.nextSessionId) := by
  unfold create
  split
  · exact .inl rfl
  · split
    · exact .inl rfl
    · simp only
      split
      · exact .inr (.inl rfl)
      · rename_i i hscan
        split
        · exact .inr (.inl rfl)
        · split
          · exact .inr (.inl rfl)
          · have hstop := ((scan_eq_some (hashSessionId_lt _)).mp hscan).2.1
            exact .inr (.inr ⟨i, by simpa [occupied] using hstop, rfl⟩)

end Heap

end Stash.Delivery
