import Mathlib.Logic.Function.Basic
import Stash.Foundation.CText
import Stash.Foundation.LinearProbing
import Stash.Foundation.Runs

/-! The session manager: a table of session pointers with linear probing from the session
id. Every function holds `manager_mtx` throughout, so a call is one step. -/
namespace Stash.Sessions
open Foundation.CText Foundation.LinearProbing

def maxSessions : Nat := 256

structure Session where
  sessionId : UInt64
  socketFd : Int
  username : Bytes
  isAuthenticated : Bool
  isActive : Bool
  operationsCount : UInt64
  deriving DecidableEq, Repr

/-- The table and its statistics, with the descriptors that were passed to `close`. -/
structure SessionManager where
  sessions : Nat → Option Session
  nextSessionId : UInt64
  totalSessionsCreated : UInt64
  activeSessionCount : UInt64
  peakSessionCount : UInt64
  closed : List Int

/-- The calls of `session_create` that may fail. -/
inductive CreateFault where
  | none
  | calloc
  | responseInit
  | mutexInit
  deriving DecidableEq, Repr

def hashSessionId (sessionId : UInt64) : Nat := sessionId.toNat % maxSessions

def sessionManagerInit (mtxInit : Bool) : Option SessionManager :=
  if mtxInit then some ⟨fun _ => none, 1, 0, 0, 0, []⟩ else none

namespace SessionManager

def occupied (mgr : SessionManager) (i : Nat) : Bool := (mgr.sessions i).isSome

def holds (mgr : SessionManager) (sessionId : UInt64) (i : Nat) : Bool :=
  (mgr.sessions i).any fun session => session.sessionId == sessionId

def setSlot (mgr : SessionManager) (i : Nat) (session : Option Session) : SessionManager :=
  { mgr with sessions := Function.update mgr.sessions i session }

@[simp] theorem setSlot_sessions (mgr : SessionManager) (i : Nat) (s : Option Session) :
    (mgr.setSlot i s).sessions = Function.update mgr.sessions i s := rfl
@[simp] theorem setSlot_nextSessionId (mgr : SessionManager) (i : Nat) (s : Option Session) :
    (mgr.setSlot i s).nextSessionId = mgr.nextSessionId := rfl
@[simp] theorem setSlot_activeSessionCount (mgr : SessionManager) (i : Nat) (s : Option Session) :
    (mgr.setSlot i s).activeSessionCount = mgr.activeSessionCount := rfl
@[simp] theorem setSlot_closed (mgr : SessionManager) (i : Nat) (s : Option Session) :
    (mgr.setSlot i s).closed = mgr.closed := rfl

def setNext (mgr : SessionManager) (next : UInt64) : SessionManager :=
  { mgr with nextSessionId := next }

@[simp] theorem setNext_sessions (mgr : SessionManager) (next : UInt64) :
    (mgr.setNext next).sessions = mgr.sessions := rfl
@[simp] theorem setNext_activeSessionCount (mgr : SessionManager) (next : UInt64) :
    (mgr.setNext next).activeSessionCount = mgr.activeSessionCount := rfl

/-- The session goes into the slot and into the statistics. -/
def insert (mgr : SessionManager) (i : Nat) (session : Session) : SessionManager :=
  { mgr with
    sessions := Function.update mgr.sessions i (some session)
    totalSessionsCreated := mgr.totalSessionsCreated + 1
    activeSessionCount := mgr.activeSessionCount + 1
    peakSessionCount :=
      if mgr.activeSessionCount + 1 > mgr.peakSessionCount then mgr.activeSessionCount + 1
      else mgr.peakSessionCount }

@[simp] theorem insert_sessions (mgr : SessionManager) (i : Nat) (s : Session) :
    (mgr.insert i s).sessions = Function.update mgr.sessions i (some s) := rfl
@[simp] theorem insert_activeSessionCount (mgr : SessionManager) (i : Nat) (s : Session) :
    (mgr.insert i s).activeSessionCount = mgr.activeSessionCount + 1 := rfl

/-- The slot is emptied; `close` is called on an open descriptor. -/
def remove (mgr : SessionManager) (i : Nat) (session : Session) : SessionManager :=
  { mgr with
    sessions := Function.update mgr.sessions i none
    closed := if session.socketFd ≥ 0 then mgr.closed ++ [session.socketFd] else mgr.closed
    activeSessionCount :=
      if mgr.activeSessionCount > 0 then mgr.activeSessionCount - 1 else mgr.activeSessionCount }

@[simp] theorem remove_sessions (mgr : SessionManager) (i : Nat) (s : Session) :
    (mgr.remove i s).sessions = Function.update mgr.sessions i none := rfl

section Slots
variable {mgr : SessionManager} {i j : Nat} {s t : Session}

theorem sessions_setSlot : (mgr.setSlot i (some s)).sessions j = some t ↔
    (j = i ∧ t = s) ∨ (j ≠ i ∧ mgr.sessions j = some t) := by
  by_cases hji : j = i
  · subst hji
    simp [eq_comm]
  · simp [hji]

theorem sessions_insert : (mgr.insert i s).sessions j = some t ↔
    (j = i ∧ t = s) ∨ (j ≠ i ∧ mgr.sessions j = some t) := sessions_setSlot

theorem sessions_remove : (mgr.remove i s).sessions j = some t ↔ j ≠ i ∧ mgr.sessions j = some t := by
  by_cases hji : j = i
  · subst hji
    simp
  · simp [hji]

end Slots

end SessionManager

/-- The session that `session_create` initialises. -/
def newSession (sessionId : UInt64) (socketFd : Int) : Session :=
  ⟨sessionId, socketFd, [], false, true, 0⟩

/-- `session_create`, with the id that it returns. -/
def sessionCreate (fault : CreateFault) (mgr : SessionManager) (socketFd : Int) :
    SessionManager × UInt64 :=
  if socketFd < 0 then (mgr, 0)
  else if fault = .calloc then (mgr, 0)
  else
    let sessionId := mgr.nextSessionId
    let bumped := mgr.setNext (mgr.nextSessionId + 1)
    match scan maxSessions (fun i => !mgr.occupied i) maxSessions (hashSessionId sessionId) with
    | none => (bumped, 0)
    | some i =>
      if fault = .responseInit then (bumped, 0)
      else if fault = .mutexInit then (bumped, 0)
      else (bumped.insert i (newSession sessionId socketFd), sessionId)

/-- The loop that the three functions below share: it breaks at an empty slot. -/
def sessionFind (mgr : SessionManager) (sessionId : UInt64) : Option (Nat × Session) :=
  if sessionId = 0 then none
  else
    (scan maxSessions (fun i => !mgr.occupied i || mgr.holds sessionId i) maxSessions
      (hashSessionId sessionId)).bind fun i => (mgr.sessions i).map fun session => (i, session)

def sessionGet (mgr : SessionManager) (sessionId : UInt64) : Option Session :=
  match sessionFind mgr sessionId with
  | some (_, session) => if session.isActive then some session else none
  | none => none

def Session.markInactive (session : Session) : Session := { session with isActive := false }

def sessionMarkInactive (mgr : SessionManager) (sessionId : UInt64) : SessionManager :=
  match sessionFind mgr sessionId with
  | some (i, session) => mgr.setSlot i (some session.markInactive)
  | none => mgr

def sessionDestroy (mgr : SessionManager) (sessionId : UInt64) : SessionManager :=
  match sessionFind mgr sessionId with
  | some (i, session) => mgr.remove i session
  | none => mgr

theorem hashSessionId_lt (sessionId : UInt64) : hashSessionId sessionId < maxSessions :=
  Nat.mod_lt _ (by decide)

variable {mgr : SessionManager} {sessionId : UInt64}

/-- A lookup that succeeds ended at an entry of this id, through occupied slots. -/
theorem sessionFind_some {i : Nat} {session : Session}
    (h : sessionFind mgr sessionId = some (i, session)) :
    i < maxSessions ∧ mgr.sessions i = some session ∧ session.sessionId = sessionId ∧
      sessionId ≠ 0 ∧ Reached maxSessions mgr.occupied (hashSessionId sessionId) i := by
  unfold sessionFind at h
  split at h
  · cases h
  · rename_i hz
    obtain ⟨j, hscan, hj⟩ := Option.bind_eq_some_iff.mp h
    obtain ⟨s, hs, he⟩ := Option.map_eq_some_iff.mp hj
    obtain ⟨rfl, rfl⟩ := Prod.mk.inj he
    obtain ⟨hi, hstop, _⟩ := (scan_eq_some (hashSessionId_lt sessionId)).mp hscan
    refine ⟨hi, hs, ?_, hz, reached_of_scan (hashSessionId_lt sessionId) hscan⟩
    simpa [SessionManager.occupied, SessionManager.holds, hs] using hstop

/-- A reached entry is found when it is the only one of its id. -/
theorem sessionFind_eq_some {i : Nat} {session : Session} (hi : i < maxSessions)
    (hs : mgr.sessions i = some session) (hid : session.sessionId = sessionId)
    (hz : sessionId ≠ 0)
    (hunique : ∀ j < maxSessions, ∀ t, mgr.sessions j = some t → t.sessionId = sessionId → j = i)
    (hreach : Reached maxSessions mgr.occupied (hashSessionId sessionId) i) :
    sessionFind mgr sessionId = some (i, session) := by
  have hscan : scan maxSessions (fun j => !mgr.occupied j || mgr.holds sessionId j) maxSessions
      (hashSessionId sessionId) = some i := by
    refine scan_eq_some_of_reached (hashSessionId_lt sessionId) hi ?_ ?_ hreach
    · simp [SessionManager.holds, hs, hid]
    · intro j hj _ hit
      cases ht : mgr.sessions j with
      | none => simp [SessionManager.holds, ht] at hit
      | some t => exact hunique j hj t ht (by simpa [SessionManager.holds, ht] using hit)
  simp [sessionFind, hz, hscan, hs]

end Stash.Sessions
