import Mathlib.Logic.Function.Basic
import Stash.Foundation.CText
import Stash.Foundation.LinearProbing
import Stash.Foundation.Runs

/-! The per-file lock manager: a fixed table of reference-counted locks with linear
probing. Each critical section under `manager_mtx` is one step; taking and leaving the
mutex of a slot are steps of their own. -/
namespace Stash.Sync.FileLocks
open Foundation.CText Foundation.LinearProbing

def maxFileLocks : Nat := 1024
def maxFilepathLen : Nat := 320

structure FileLock where
  filepath : Bytes
  refCount : Int
  inUse : Bool
  deriving DecidableEq, Repr

/-- The table, with the owner of the mutex of each slot. -/
structure FileLockManager (Tid : Type) where
  capacity : Nat
  locks : Nat → FileLock
  mtx : Nat → Option Tid

/-- Where a thread is between the calls of `file_lock_acquire` and `file_lock_release`. -/
inductive Phase where
  | outside
  /-- Left the critical section of `file_lock_acquire`, waiting for the mutex of the slot. -/
  | reserved (slot : Nat) (key : Bytes)
  /-- `file_lock_acquire` has returned the lock. -/
  | holding (slot : Nat) (key : Bytes)
  /-- In `file_lock_release`, after the unlock and before the decrement. -/
  | released (slot : Nat) (key : Bytes)
  deriving DecidableEq, Repr

structure State (Tid : Type) where
  manager : FileLockManager Tid
  phase : Tid → Phase

/-- `char` is signed: bytes from 128 on enter the hash sign-extended. -/
def charToUnsigned (c : UInt8) : UInt32 := if c < 128 then c.toUInt32 else c.toUInt32 + 0xFFFFFF00

def hashFilepath (filepath : Bytes) (capacity : Nat) : Nat :=
  let hash : UInt32 := filepath.foldl (fun hash c => ((hash <<< 5) + hash) + charToUnsigned c) 5381
  hash.toNat % capacity

/-- The key that `file_lock_acquire` builds: "username/filename", cut to the buffer. -/
def filepathKey (username filename : Bytes) : Bytes :=
  snprintf maxFilepathLen (username ++ ascii "/" ++ filename)

def emptyLock : FileLock := ⟨[], 0, false⟩

/-- `mtxInit` is whether the initialisations of the mutexes succeed. -/
def fileLockManagerInit (Tid : Type) (capacity : Int) (mtxInit : Bool) : Option (FileLockManager Tid) :=
  if capacity ≤ 0 then none
  else if mtxInit then some ⟨capacity.toNat, fun _ => emptyLock, fun _ => none⟩
  else none

/-- A slot at which the loop of `file_lock_acquire` breaks: the lock of this file, or a free one. -/
def stops (locks : Nat → FileLock) (key : Bytes) (i : Nat) : Bool :=
  !(locks i).inUse || (locks i).filepath == key

/-- The loop of `file_lock_acquire`: the slot at which it breaks and what it writes there. -/
def reserve (m : FileLockManager Tid) (key : Bytes) : Option (Nat × FileLock) :=
  (scan m.capacity (stops m.locks key) m.capacity (hashFilepath key m.capacity)).map fun i =>
    if (m.locks i).inUse then (i, { m.locks i with refCount := (m.locks i).refCount + 1 })
    else (i, ⟨key, 1, true⟩)

/-- What the critical section of `file_lock_release` makes of the lock. -/
def dropRef (lock : FileLock) : FileLock :=
  if lock.refCount - 1 ≤ 0 then ⟨[], lock.refCount - 1, false⟩
  else { lock with refCount := lock.refCount - 1 }

/-- The steps of the two functions. `probe` also ends a call that returns `NULL`. -/
inductive Action (Tid : Type) where
  | probe (t : Tid) (username filename : Bytes)
  | lock (t : Tid)
  | unlock (t : Tid)
  | drop (t : Tid)
  deriving DecidableEq, Repr

variable {Tid : Type}

def State.setLock (s : State Tid) (i : Nat) (lock : FileLock) : State Tid :=
  { s with manager := { s.manager with locks := Function.update s.manager.locks i lock } }

def State.setMtx (s : State Tid) (i : Nat) (owner : Option Tid) : State Tid :=
  { s with manager := { s.manager with mtx := Function.update s.manager.mtx i owner } }

def State.setPhase [DecidableEq Tid] (s : State Tid) (t : Tid) (p : Phase) : State Tid :=
  { s with phase := Function.update s.phase t p }

def step [DecidableEq Tid] (s : State Tid) : Action Tid → Option (State Tid)
  | .probe t username filename =>
    if s.phase t = .outside then
      let key := filepathKey username filename
      match reserve s.manager key with
      | none => some s
      | some (i, lock) => some ((s.setLock i lock).setPhase t (.reserved i key))
    else none
  | .lock t =>
    match s.phase t with
    | .reserved i key =>
      if s.manager.mtx i = none then some ((s.setMtx i (some t)).setPhase t (.holding i key)) else none
    | _ => none
  | .unlock t =>
    match s.phase t with
    | .holding i key => some ((s.setMtx i none).setPhase t (.released i key))
    | _ => none
  | .drop t =>
    match s.phase t with
    | .released i _ => some ((s.setLock i (dropRef (s.manager.locks i))).setPhase t .outside)
    | _ => none

@[simp] theorem setLock_capacity (s : State Tid) (i : Nat) (l : FileLock) :
    (s.setLock i l).manager.capacity = s.manager.capacity := rfl
@[simp] theorem setLock_locks (s : State Tid) (i : Nat) (l : FileLock) :
    (s.setLock i l).manager.locks = Function.update s.manager.locks i l := rfl
@[simp] theorem setLock_mtx (s : State Tid) (i : Nat) (l : FileLock) :
    (s.setLock i l).manager.mtx = s.manager.mtx := rfl
@[simp] theorem setLock_phase (s : State Tid) (i : Nat) (l : FileLock) :
    (s.setLock i l).phase = s.phase := rfl
@[simp] theorem setMtx_capacity (s : State Tid) (i : Nat) (o : Option Tid) :
    (s.setMtx i o).manager.capacity = s.manager.capacity := rfl
@[simp] theorem setMtx_locks (s : State Tid) (i : Nat) (o : Option Tid) :
    (s.setMtx i o).manager.locks = s.manager.locks := rfl
@[simp] theorem setMtx_mtx (s : State Tid) (i : Nat) (o : Option Tid) :
    (s.setMtx i o).manager.mtx = Function.update s.manager.mtx i o := rfl
@[simp] theorem setMtx_phase (s : State Tid) (i : Nat) (o : Option Tid) :
    (s.setMtx i o).phase = s.phase := rfl
@[simp] theorem setPhase_manager [DecidableEq Tid] (s : State Tid) (t : Tid) (p : Phase) :
    (s.setPhase t p).manager = s.manager := rfl
@[simp] theorem setPhase_phase [DecidableEq Tid] (s : State Tid) (t : Tid) (p : Phase) :
    (s.setPhase t p).phase = Function.update s.phase t p := rfl

/-- A table capacity that `file_lock_manager_init` accepts and the array can hold. -/
structure Capacity where
  value : Nat
  pos : 0 < value
  le_max : value ≤ maxFileLocks

/-- The capacity that `main` installs. -/
def mainCapacity : Capacity := ⟨maxFileLocks, by decide, by decide⟩

/-- No thread has called the manager yet. -/
def start (Tid : Type) (capacity : Capacity) : State Tid :=
  ⟨⟨capacity.value, fun _ => emptyLock, fun _ => none⟩, fun _ => .outside⟩

theorem fileLockManagerInit_capacity (capacity : Capacity) :
    fileLockManagerInit Tid capacity.value true = some (start Tid capacity).manager := by
  have h := capacity.pos
  simp [fileLockManagerInit, start]
  omega

theorem hashFilepath_lt (key : Bytes) {capacity : Nat} (h : 0 < capacity) :
    hashFilepath key capacity < capacity := Nat.mod_lt _ h

/-- A username and a filename within the limits of their buffers are never cut in the key. -/
theorem filepathKey_eq {username filename : Bytes} (hu : username.length ≤ 63)
    (hf : filename.length ≤ 255) :
    filepathKey username filename = username ++ ascii "/" ++ filename := by
  apply snprintf_of_lt
  have hslash : (ascii "/").length = 1 := by decide
  simp only [List.length_append, hslash, maxFilepathLen]
  omega

end Stash.Sync.FileLocks
