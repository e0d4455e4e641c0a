import Mathlib.Logic.Relation
import Stash.Foundation.LockOrder

/-! Which mutexes the client, worker and main threads take, function by function, and that no set
of threads can block itself. A test stands for every outcome of the `if` or of the call beside it. -/
namespace Stash.Threads.MutexHierarchy
open Foundation Foundation.LockOrder

/-- The mutexes of the server. A session and a file lock are named by their address. -/
inductive Mutex where
  | clientQueue
  | taskQueue
  | sessionManager
  | fileLockManager
  | db
  | response (session : Nat)
  | session (session : Nat)
  | fileLock (slot : Nat)
  deriving DecidableEq

open Mutex Code

/-- `pthread_cond_wait`, which may wake up at any time. -/
def condWait (m : Mutex) : Code Mutex Unit := do
  unlock m
  lock m

/-- A `while` loop around `pthread_cond_wait`. -/
def waitWhile (m : Mutex) : Code Mutex Unit :=
  .loop do
    if ← test then
      condWait m
      return none
    else
      return some ()

section Queues

/-- `false`: the queue is shut down. -/
def clientQueuePush : Code Mutex Bool := do
  lock clientQueue
  waitWhile clientQueue
  let pushed ← test
  unlock clientQueue
  return pushed

/-- `false`: no descriptor, the queue is shut down. -/
def clientQueuePop : Code Mutex Bool := do
  lock clientQueue
  waitWhile clientQueue
  let popped ← test
  unlock clientQueue
  return popped

def clientQueueSignalShutdown : Code Mutex Unit := do
  lock clientQueue
  unlock clientQueue

def taskQueuePush : Code Mutex Bool := do
  lock taskQueue
  waitWhile taskQueue
  if ← test then -- shutdown
    unlock taskQueue
    return false
  unlock taskQueue
  return true

def taskQueuePop : Code Mutex Bool := do
  lock taskQueue
  waitWhile taskQueue
  if ← test then -- empty and shut down
    unlock taskQueue
    return false
  unlock taskQueue
  return true

def taskQueueSignalShutdown : Code Mutex Unit := do
  lock taskQueue
  unlock taskQueue

end Queues

section Responses

def responseInit (session : Nat) : Code Mutex Bool := do
  init (response session)
  if ← test then -- pthread_mutex_init fails
    return false
  if ← test then -- pthread_cond_init fails
    return false
  return true

def responseDestroy (session : Nat) : Code Mutex Unit := do
  lock (response session)
  unlock (response session)

def responseSet (session : Nat) : Code Mutex Unit := do
  lock (response session)
  unlock (response session)

def responseWait (session : Nat) : Code Mutex Unit := do
  lock (response session)
  waitWhile (response session)
  unlock (response session)

end Responses

section Sessions

/-- `false`: no session is created. `calloc` may give any address. -/
def sessionCreate : Code Mutex Bool := do
  if ← test then -- no manager, or a bad descriptor
    return false
  if ← test then -- calloc fails
    return false
  let address ← pick
  lock sessionManager
  if ← test then -- every slot is taken
    unlock sessionManager
    return false
  if !(← responseInit address) then
    unlock sessionManager
    return false
  init (session address)
  if ← test then -- pthread_mutex_init fails
    unlock sessionManager
    responseDestroy address
    return false
  unlock sessionManager
  return true

def sessionGet : Code Mutex (Option Nat) := do
  if ← test then -- no manager, or session 0
    return none
  lock sessionManager
  if ← test then -- the probe meets the session
    if ← test then -- is_active
      let address ← pick
      unlock sessionManager
      return some address
    else
      unlock sessionManager
      return none
  unlock sessionManager
  return none

def sessionMarkInactive : Code Mutex Unit := do
  if ← test then -- no manager, or session 0
    return
  lock sessionManager
  if ← test then -- the probe meets the session
    unlock sessionManager
    return
  unlock sessionManager

def sessionDestroy : Code Mutex Unit := do
  if ← test then -- no manager, or session 0
    return
  lock sessionManager
  if ← test then -- the probe meets the session
    let address ← pick
    responseDestroy address
    unlock sessionManager
    return
  unlock sessionManager

def sessionSetUsername (address : Nat) : Code Mutex Unit := do
  lock (session address)
  unlock (session address)

def sessionIncrementOperations (address : Nat) : Code Mutex Unit := do
  lock (session address)
  unlock (session address)

end Sessions

section FileLocks

/-- `none`: the lock table is full. -/
def fileLockAcquire : Code Mutex (Option Nat) := do
  if ← test then -- no manager, user or file
    return none
  lock fileLockManager
  let found ← test
  let slot ← pick
  unlock fileLockManager
  if !found then
    return none
  lock (fileLock slot)
  return some slot

def fileLockRelease (slot : Nat) : Code Mutex Unit := do
  unlock (fileLock slot)
  lock fileLockManager
  unlock fileLockManager

end FileLocks

section Metadata

/-- One statement under `db_mutex`; it may be that it cannot be prepared. -/
def statement : Code Mutex Bool := do
  if ← test then -- no connection, or a null argument
    return false
  lock db
  if ← test then -- sqlite3_prepare_v2 fails
    unlock db
    return false
  let row ← test
  unlock db
  return row

def dbCreateUser : Code Mutex Bool := statement

def dbUserExists : Code Mutex Bool := statement

def dbVerifyPassword : Code Mutex Bool := statement

def dbGetUserQuota : Code Mutex Bool := statement

def dbAddOrUpdateFile : Code Mutex Bool := do
  if ← test then -- no connection, or a null argument
    return false
  lock db
  if ← test then -- BEGIN fails
    unlock db
    return false
  if ← test then -- the id statement cannot be prepared
    unlock db
    return false
  if ← test then -- no such user
    unlock db
    return false
  if ← test then -- the upsert cannot be prepared
    unlock db
    return false
  if ← test then -- the upsert fails
    unlock db
    return false
  if ← test then -- the quota update cannot be prepared
    unlock db
    return false
  if ← test then -- the quota update fails
    unlock db
    return false
  if ← test then -- COMMIT fails
    unlock db
    return false
  unlock db
  return true

def dbRemoveFile : Code Mutex Bool := do
  if ← test then -- no connection, or a null argument
    return false
  lock db
  if ← test then -- BEGIN fails
    unlock db
    return false
  if ← test then -- the id statement cannot be prepared
    unlock db
    return false
  if ← test then -- no such user
    unlock db
    return false
  if ← test then -- the delete cannot be prepared
    unlock db
    return false
  if ← test then -- the delete fails
    unlock db
    return false
  if ← test then -- no row was deleted
    unlock db
    return false
  if ← test then -- the quota update cannot be prepared
    unlock db
    return false
  if ← test then -- the quota update fails
    unlock db
    return false
  if ← test then -- COMMIT fails
    unlock db
    return false
  unlock db
  return true

def dbCheckQuota : Code Mutex Bool := do
  if !(← dbGetUserQuota) then
    return false
  test -- used + additional_bytes <= limit

def userCreate : Code Mutex Bool := dbCreateUser

def userExists : Code Mutex Bool := dbUserExists

def userVerifyPassword : Code Mutex Bool := dbVerifyPassword

def userCheckQuota : Code Mutex Bool := dbCheckQuota

def userAddFile : Code Mutex Bool := dbAddOrUpdateFile

def userRemoveFile : Code Mutex Bool := dbRemoveFile

def userSignup : Code Mutex Bool := do
  if ← userExists then
    return false
  userCreate

def userLogin : Code Mutex Bool := userVerifyPassword

end Metadata

section Worker

def deliverResponse : Code Mutex Unit := do
  match ← sessionGet with
  | none => return
  | some address =>
    responseSet address
    sessionIncrementOperations address

def taskUpload : Code Mutex Unit := do
  if !(← userExists) then
    deliverResponse
    return
  match ← fileLockAcquire with
  | none => deliverResponse
  | some slot =>
    if ← test then -- fopen fails
      fileLockRelease slot
      deliverResponse
    else if ← test then -- ferror, or a short write
      fileLockRelease slot
      deliverResponse
    else
      let _ ← userAddFile
      fileLockRelease slot
      deliverResponse

def taskDownload : Code Mutex Unit := do
  if !(← userExists) then
    deliverResponse
    return
  match ← fileLockAcquire with
  | none => deliverResponse
  | some slot =>
    if ← test then -- fopen fails
      fileLockRelease slot
      deliverResponse
    else if ← test then -- fseek to the end fails
      fileLockRelease slot
      deliverResponse
    else if ← test then -- ftell fails
      fileLockRelease slot
      deliverResponse
    else if ← test then -- fseek to the start fails
      fileLockRelease slot
      deliverResponse
    else if ← test then -- malloc fails
      fileLockRelease slot
      deliverResponse
    else
      fileLockRelease slot
      deliverResponse

def taskDelete : Code Mutex Unit := do
  if !(← userExists) then
    deliverResponse
    return
  match ← fileLockAcquire with
  | none => deliverResponse
  | some slot =>
    if ← test then -- remove succeeds
      let _ ← userRemoveFile
      fileLockRelease slot
      deliverResponse
    else
      fileLockRelease slot
      deliverResponse

def taskList : Code Mutex Unit := do
  if !(← userExists) then
    deliverResponse
    return
  deliverResponse

def workerWorker : Code Mutex Unit :=
  .loop do
    if !(← taskQueuePop) then
      return some ()
    if ← test then
      taskUpload
    else if ← test then
      taskDownload
    else if ← test then
      taskDelete
    else if ← test then
      taskList
    else
      deliverResponse
    return none

end Worker

section Client

/-- The way to `next_client`. -/
def hangUp : Code Mutex Unit := do
  sessionMarkInactive
  sessionDestroy

/-- One pass of the authentication loop: `none` goes on, `some false` is `next_client`. -/
def authenticate (address : Nat) : Code Mutex (Option Bool) := do
  if ← test then -- is_authenticated
    return some true
  if ← test then -- recv ends
    hangUp
    return some false
  if ← test then -- SIGNUP
    if ← userSignup then
      if ← test then -- send_success fails
        hangUp
        return some false
      sessionSetUsername address
      return none
    else
      return none
  else if ← test then -- LOGIN
    if ← userLogin then
      if ← test then -- send_success fails
        hangUp
        return some false
      sessionSetUsername address
      return none
    else
      return none
  else
    return none

/-- A task from the reset of the response to the answer: `true` goes on with the next command. -/
def submit (address : Nat) : Code Mutex Bool := do
  lock (response address)
  unlock (response address)
  if !(← taskQueuePush) then
    return true
  responseWait address
  if ← test then -- not is_active
    sessionDestroy
    return false
  if ← test then -- the data cannot be sent
    hangUp
    return false
  if ← test then -- the message cannot be sent
    hangUp
    return false
  return true

/-- One pass of the file operation loop: `some ()` is `next_client`. -/
def fileCommand (address : Nat) : Code Mutex (Option Unit) := do
  if ← test then -- recv ends
    hangUp
    return some ()
  if ← test then -- QUIT
    hangUp
    return some ()
  if ← test then -- UPLOAD
    if !(← userCheckQuota) then
      return none
    if ← test then -- malloc or recv_full fails
      return none
    return if ← submit address then none else some ()
  else if ← test then -- DOWNLOAD, DELETE or LIST
    return if ← submit address then none else some ()
  else
    return none

def serve (address : Nat) : Code Mutex Unit := do
  if ← test then -- the welcome message cannot be sent
    hangUp
    return
  if !(← .loop (authenticate address)) then
    return
  if ← test then -- the file menu cannot be sent
    hangUp
    return
  .loop (fileCommand address)

def clientWorker : Code Mutex Unit :=
  .loop do
    if !(← clientQueuePop) then
      return some ()
    if !(← sessionCreate) then
      return none
    match ← sessionGet with
    | none =>
      sessionDestroy
      return none
    | some address =>
      serve address
      return none

end Client

/-- The accept loop, and the shutdown of the queues behind it. -/
def mainThread : Code Mutex Unit := do
  .loop do
    if ← test then -- accept fails, or keep_running is 0
      return some ()
    let _ ← clientQueuePush
    return none
  clientQueueSignalShutdown
  taskQueueSignalShutdown

inductive Role where
  | client
  | worker
  | main

def Role.code : Role → Code Mutex Unit
  | .client => clientWorker
  | .worker => workerWorker
  | .main => mainThread

/-- What the server asks for while it holds something: the response of a session under the
session table, the database under a file lock. -/
inductive Inside : Mutex → Mutex → Prop
  | response (session : Nat) : Inside sessionManager (response session)
  | db (slot : Nat) : Inside (fileLock slot) db

attribute [simp] Inside.response Inside.db

section Paths
variable {held : List Mutex} {m : Mutex} {address slot : Nat}

theorem givesBack_waitWhile (h : Free Inside held m) : GivesBack Inside (waitWhile m) (m :: held) := by
  apply GivesBack.loop
  simp [GivesBack, condWait, h]

/-- A call that waits under its mutex and then gives it back. -/
theorem givesBack_waiting {α : Type} {rest : Code Mutex α}
    (h : Orderly Inside rest [m] fun _ behind => behind = []) :
    GivesBack Inside (lock m >>= fun _ => waitWhile m >>= fun _ => rest) [] := by
  refine ⟨free_nil, (givesBack_waitWhile free_nil).orderly fun _ => ?_⟩
  exact h

theorem givesBack_clientQueuePush : GivesBack Inside clientQueuePush [] :=
  givesBack_waiting (by simp)

theorem givesBack_clientQueuePop : GivesBack Inside clientQueuePop [] :=
  givesBack_waiting (by simp)

theorem givesBack_taskQueuePush : GivesBack Inside taskQueuePush [] :=
  givesBack_waiting (by simp)

theorem givesBack_taskQueuePop : GivesBack Inside taskQueuePop [] :=
  givesBack_waiting (by simp)

theorem givesBack_responseWait : GivesBack Inside (responseWait address) [] :=
  givesBack_waiting (by simp)

theorem givesBack_sessionCreate : GivesBack Inside sessionCreate [] := by
  simp [GivesBack, sessionCreate, responseInit, responseDestroy]

theorem givesBack_sessionGet : GivesBack Inside sessionGet [] := by
  simp [GivesBack, sessionGet]

theorem givesBack_sessionDestroy : GivesBack Inside sessionDestroy [] := by
  simp [GivesBack, sessionDestroy, responseDestroy]

theorem givesBack_hangUp : GivesBack Inside hangUp [] := by
  simp [GivesBack, hangUp, sessionMarkInactive, sessionDestroy, responseDestroy]

theorem givesBack_sessionSetUsername : GivesBack Inside (sessionSetUsername address) [] := by
  simp [GivesBack, sessionSetUsername]

theorem orderly_fileLockAcquire {Q : Option Nat → List Mutex → Prop} (full : Q none [])
    (taken : ∀ slot, Q (some slot) [fileLock slot]) : Orderly Inside fileLockAcquire [] Q := by
  simp [fileLockAcquire, full, taken]

@[simp] theorem orderly_fileLockRelease {Q : Unit → List Mutex → Prop} :
    Orderly Inside (fileLockRelease slot) [fileLock slot] Q ↔ Q () [] := by
  simp [fileLockRelease]

theorem givesBack_statement (h : Free Inside held db) : GivesBack Inside statement held := by
  simp [GivesBack, statement, h]

theorem givesBack_dbAddOrUpdateFile (h : Free Inside held db) :
    GivesBack Inside dbAddOrUpdateFile held := by
  simp [GivesBack, dbAddOrUpdateFile, h]

theorem givesBack_dbRemoveFile (h : Free Inside held db) : GivesBack Inside dbRemoveFile held := by
  simp [GivesBack, dbRemoveFile, h]

theorem givesBack_deliverResponse : GivesBack Inside deliverResponse [] := by
  unfold GivesBack deliverResponse
  refine givesBack_sessionGet.orderly fun session => ?_
  cases session with
  | none => simp
  | some address => simp [responseSet, sessionIncrementOperations]

/-- A command on a file: the user is looked up, the lock of the file is taken, and the rest
gives it back. -/
theorem givesBack_fileTask {rest : Nat → Code Mutex Unit}
    (h : ∀ slot, Orderly Inside (rest slot) [fileLock slot] fun _ behind => behind = []) :
    GivesBack Inside (do
      if !(← userExists) then
        deliverResponse
        return
      match ← fileLockAcquire with
      | none => deliverResponse
      | some slot => rest slot) [] := by
  unfold GivesBack
  refine (givesBack_statement free_nil).orderly fun known => ?_
  cases known with
  | false => exact givesBack_deliverResponse
  | true => exact orderly_fileLockAcquire givesBack_deliverResponse h

theorem givesBack_taskUpload : GivesBack Inside taskUpload [] := by
  apply givesBack_fileTask
  intro slot
  have hadd : GivesBack Inside userAddFile [fileLock slot] := givesBack_dbAddOrUpdateFile (by simp)
  simp only [orderly_bind, orderly_test, if_true, Bool.false_eq_true, if_false, orderly_fileLockRelease]
  refine ⟨givesBack_deliverResponse, givesBack_deliverResponse, hadd.orderly fun _ => ?_⟩
  exact orderly_fileLockRelease.mpr givesBack_deliverResponse

theorem givesBack_taskDownload : GivesBack Inside taskDownload [] := by
  apply givesBack_fileTask
  intro slot
  have hdeliver := givesBack_deliverResponse
  simp only [orderly_bind, orderly_test, if_true, Bool.false_eq_true, if_false, orderly_fileLockRelease]
  exact ⟨hdeliver, hdeliver, hdeliver, hdeliver, hdeliver, hdeliver⟩

theorem givesBack_taskDelete : GivesBack Inside taskDelete [] := by
  apply givesBack_fileTask
  intro slot
  have hremove : GivesBack Inside userRemoveFile [fileLock slot] := givesBack_dbRemoveFile (by simp)
  simp only [orderly_bind, orderly_test, if_true, Bool.false_eq_true, if_false, orderly_fileLockRelease]
  refine ⟨hremove.orderly fun _ => ?_, givesBack_deliverResponse⟩
  exact orderly_fileLockRelease.mpr givesBack_deliverResponse

theorem givesBack_taskList : GivesBack Inside taskList [] := by
  unfold GivesBack taskList
  refine (givesBack_statement free_nil).orderly fun known => ?_
  cases known with
  | false => exact givesBack_deliverResponse
  | true => exact givesBack_deliverResponse

theorem givesBack_workerWorker : GivesBack Inside workerWorker [] := by
  apply GivesBack.loop
  refine givesBack_taskQueuePop.orderly fun popped => ?_
  cases popped with
  | false => simp
  | true =>
    simp only [Bool.not_true, Bool.false_eq_true, if_false, orderly_bind, orderly_pure, orderly_test, if_true]
    exact ⟨givesBack_taskUpload, givesBack_taskDownload, givesBack_taskDelete, givesBack_taskList,
      givesBack_deliverResponse⟩

theorem givesBack_userSignup : GivesBack Inside userSignup [] := by
  unfold GivesBack userSignup
  refine (givesBack_statement free_nil).orderly fun known => ?_
  cases known with
  | false => exact givesBack_statement free_nil
  | true => simp

theorem givesBack_userCheckQuota : GivesBack Inside userCheckQuota [] := by
  unfold GivesBack userCheckQuota dbCheckQuota
  refine (givesBack_statement free_nil).orderly fun found => ?_
  cases found with
  | false => simp
  | true => simp

theorem givesBack_authenticate : GivesBack Inside (authenticate address) [] := by
  unfold GivesBack authenticate
  simp only [orderly_bind, orderly_test, if_true, Bool.false_eq_true, if_false, orderly_pure, true_and, and_true]
  refine ⟨givesBack_hangUp.orderly fun _ => rfl, ?_, ?_⟩
  · refine givesBack_userSignup.orderly fun created => ?_
    cases created with
    | false => simp
    | true =>
      simp only [if_true, Bool.false_eq_true, if_false, orderly_test, orderly_bind, orderly_pure]
      exact ⟨givesBack_hangUp, givesBack_sessionSetUsername⟩
  · refine (givesBack_statement free_nil).orderly fun valid => ?_
    cases valid with
    | false => simp
    | true =>
      simp only [if_true, Bool.false_eq_true, if_false, orderly_test, orderly_bind, orderly_pure]
      exact ⟨givesBack_hangUp, givesBack_sessionSetUsername⟩

theorem givesBack_submit : GivesBack Inside (submit address) [] := by
  unfold GivesBack submit
  simp only [orderly_bind, orderly_lock, orderly_unlock_head, free_nil, true_and]
  refine givesBack_taskQueuePush.orderly fun pushed => ?_
  cases pushed with
  | false => simp
  | true =>
    refine givesBack_responseWait.orderly fun _ => ?_
    simp only [orderly_bind, orderly_test, if_true, Bool.false_eq_true, if_false, orderly_pure, and_true]
    exact ⟨givesBack_sessionDestroy, givesBack_hangUp, givesBack_hangUp⟩

theorem givesBack_fileCommand : GivesBack Inside (fileCommand address) [] := by
  unfold GivesBack fileCommand
  simp only [orderly_bind, orderly_test, if_true, Bool.false_eq_true, if_false, orderly_pure, and_true]
  refine ⟨givesBack_hangUp, givesBack_hangUp, ?_, ?_⟩
  · refine givesBack_userCheckQuota.orderly fun enough => ?_
    cases enough with
    | false => simp
    | true =>
      simp only [Bool.not_true, Bool.false_eq_true, if_false, if_true, orderly_bind, orderly_test,
        orderly_pure, true_and]
      exact givesBack_submit
  · exact givesBack_submit

theorem givesBack_serve : GivesBack Inside (serve address) [] := by
  unfold GivesBack serve
  simp only [orderly_bind, orderly_test, if_true, Bool.false_eq_true, if_false, orderly_pure]
  refine ⟨givesBack_hangUp, (GivesBack.loop givesBack_authenticate).orderly fun authenticated => ?_⟩
  cases authenticated with
  | false => simp
  | true =>
    simp only [Bool.not_true, Bool.false_eq_true, if_false, if_true, orderly_bind, orderly_test]
    exact ⟨givesBack_hangUp, GivesBack.loop givesBack_fileCommand⟩

theorem givesBack_clientWorker : GivesBack Inside clientWorker [] := by
  apply GivesBack.loop
  refine givesBack_clientQueuePop.orderly fun popped => ?_
  cases popped with
  | false => simp
  | true =>
    refine givesBack_sessionCreate.orderly fun created => ?_
    cases created with
    | false => simp
    | true =>
      refine givesBack_sessionGet.orderly fun session => ?_
      cases session with
      | none => exact givesBack_sessionDestroy.orderly fun _ => rfl
      | some address => exact givesBack_serve.orderly fun _ => rfl

theorem givesBack_mainThread : GivesBack Inside mainThread [] := by
  unfold GivesBack mainThread
  refine (GivesBack.loop ?_).orderly fun _ => by simp [clientQueueSignalShutdown, taskQueueSignalShutdown]
  unfold GivesBack
  simp only [orderly_bind, orderly_test, if_true, Bool.false_eq_true, if_false, orderly_pure, true_and]
  exact givesBack_clientQueuePush

theorem givesBack_code (role : Role) : GivesBack Inside role.code [] := by
  cases role with
  | client => exact givesBack_clientWorker
  | worker => exact givesBack_workerWorker
  | main => exact givesBack_mainThread

end Paths

/-- What is asked for lies deeper than what is held. -/
def Mutex.height : Mutex → Nat
  | .response _ | .db => 0
  | _ => 1

theorem Inside.height_lt {h m : Mutex} (hinside : Inside h m) : m.height < h.height := by
  cases hinside with
  | response session => exact Nat.zero_lt_one
  | db slot => exact Nat.zero_lt_one

theorem inside_wellFounded : WellFounded fun m h => Inside h m :=
  Subrelation.wf (fun hinside => hinside.height_lt) (InvImage.wf Mutex.height Nat.lt_wfRel.wf)

theorem not_inside_self {m : Mutex} : ¬ Inside m m := fun h => absurd h.height_lt (Nat.lt_irrefl _)

theorem inside_acyclic (m : Mutex) : ¬ Relation.TransGen Inside m m := by
  have hlt : ∀ a b, Relation.TransGen Inside a b → b.height < a.height := by
    intro a b h
    induction h with
    | single h => exact h.height_lt
    | tail _ h ih => exact h.height_lt.trans ih
  exact fun h => absurd (hlt m m h) (Nat.lt_irrefl _)

def Mutex.isFileLock : Mutex → Bool
  | .fileLock _ => true
  | _ => false

/-- What holds of every reached state: no set of threads is blocked on itself, what a thread asks
for is allowed inside all that it holds and not among it, and it holds one file lock at most. -/
structure Safe {τ : Type} (s : State τ Mutex) : Prop where
  not_deadlocked : ∀ members : Set τ, members.Nonempty →
    ¬ ∀ t ∈ members, ∃ m, ∃ other ∈ members, Blocked s t m other
  in_order : ∀ t m, (s.code t).request = some m → ∀ h ∈ s.held t, Inside h m
  not_relocked : ∀ t m, (s.code t).request = some m → m ∉ s.held t
  one_file : ∀ t, (s.held t).countP Mutex.isFileLock ≤ 1

theorem countP_isFileLock {held : List Mutex} (h : held.Pairwise fun m h => Inside h m) :
    held.countP Mutex.isFileLock ≤ 1 := by
  induction h with
  | nil => exact Nat.zero_le 1
  | @cons m rest hm _ ih =>
    cases m with
    | fileLock slot =>
      cases rest with
      | nil => exact Nat.le_refl 1
      | cons h rest => cases hm h List.mem_cons_self
    | _ => simpa [Mutex.isFileLock] using ih

theorem Safe.of_disciplined {τ : Type} {s : State τ Mutex} (h : Disciplined Inside s) : Safe s where
  not_deadlocked _ hne := h.no_blocked_set inside_wellFounded hne
  in_order t _ hm := (h.orderly t).request hm
  not_relocked t _ hm hmem := not_inside_self ((h.orderly t).request hm _ hmem)
  one_file t := countP_isFileLock (h.nested t)

variable {τ : Type} [DecidableEq τ]

/-- Any number of client, worker and main threads, in any interleaving, and whatever the tests
between the calls come out as. -/
theorem mutex_hierarchy (role : τ → Role) (acts : List (τ × Bool × Nat)) :
    (∀ m, ¬ Relation.TransGen Inside m m) ∧
      Runs.Always step Safe (start fun t => (role t).code) acts :=
  ⟨inside_acyclic, (always_disciplined (fun t => givesBack_code (role t)) acts).mono fun _ => Safe.of_disciplined⟩

/-- Threads do block each other: a client asks for the queue that another one has. -/
example : (Runs.run step (start fun _ : Bool => clientWorker)
    [(false, true, 0), (false, true, 0), (true, true, 0)]).any (fun s =>
      (s.code true).request = some .clientQueue ∧ s.owner .clientQueue = some false) = true := by
  decide +kernel

end Stash.Threads.MutexHierarchy
