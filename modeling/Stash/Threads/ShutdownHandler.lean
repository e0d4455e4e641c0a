import Stash.Foundation.Interrupts
import Stash.Threads.MutexHierarchy

/-! The handler of SIGINT and SIGTERM, on top of any thread and at any point of it. It locks both
queues, so the thread under it must not be inside one of them. -/
namespace Stash.Threads.ShutdownHandler
open Foundation Foundation.Interrupts MutexHierarchy
open Foundation.LockOrder (Code GivesBack)
open MutexHierarchy.Mutex Foundation.LockOrder.Code

section Shutdown

def sessionGetStatistics : Code Mutex Unit := do
  lock sessionManager
  unlock sessionManager

def sessionManagerDestroy : Code Mutex Unit := do
  lock sessionManager
  .loop do
    if ← test then -- i = MAX_SESSIONS
      return some ()
    if ← test then -- the slot holds a session
      let address ← pick
      responseDestroy address
    return none
  unlock sessionManager

def clientQueueDestroy : Code Mutex Unit := do
  lock clientQueue
  unlock clientQueue

def taskQueueDestroy : Code Mutex Unit := do
  lock taskQueue
  unlock taskQueue

def dbClose : Code Mutex Unit := do
  lock db
  unlock db

def userMetadataCleanup : Code Mutex Unit := dbClose

/-- What the main thread does behind the joins; `file_lock_manager_destroy` takes no mutex. -/
def cleanUp : Code Mutex Unit := do
  sessionGetStatistics
  sessionManagerDestroy
  clientQueueDestroy
  taskQueueDestroy
  userMetadataCleanup

end Shutdown

/-- The threads from the `sigaction` calls to their ends. -/
def program : Role → Code Mutex Unit
  | .main => do
    mainThread
    cleanUp
  | role => role.code

/-- `int_handler` behind its test of `handler_called`. -/
def intHandler : Code Mutex Unit := do
  clientQueueSignalShutdown
  taskQueueSignalShutdown

variable {τ : Type} [DecidableEq τ]

/-- A thread whose handler finds `handler_called` at 0 is inside no queue. -/
def OutsideQueues (s : State τ Mutex) : Move τ → Prop
  | .deliver _ => True
  | .go t _ => atFlag (s.frames t) = true → s.called = false →
      clientQueue ∉ s.threads.held t ∧ taskQueue ∉ s.threads.held t

instance (s : State τ Mutex) : DecidablePred (OutsideQueues s)
  | .deliver _ => .isTrue trivial
  | .go t _ => inferInstanceAs (Decidable (atFlag (s.frames t) = true → s.called = false →
      clientQueue ∉ s.threads.held t ∧ taskQueue ∉ s.threads.held t))

/-- The handler can run on top of what is held exactly if that is neither of the queues. -/
theorem reentrant_intHandler {held : List Mutex} :
    Reentrant intHandler held ↔ clientQueue ∉ held ∧ taskQueue ∉ held := by
  simp [GivesBack, intHandler, clientQueueSignalShutdown, taskQueueSignalShutdown]

omit [DecidableEq τ] in
theorem OutsideQueues.clear {s : State τ Mutex} {move : Move τ} (h : OutsideQueues s move) :
    Clear intHandler s move := by
  cases move with
  | deliver t => trivial
  | go t answer => exact fun hflag hcalled => reentrant_intHandler.mpr (h hflag hcalled)

/-- Any number of client, worker and main threads in any interleaving, with the signals handled by
any of them at any point: the handler asks for no mutex of its own thread, as long as it goes on
outside the queues. -/
theorem never_blocked_by_own_thread (role : τ → Role) (moves : List (Move τ))
    (h : Runs.Along (step intHandler) OutsideQueues (start fun t => program (role t)) moves) :
    Runs.Always (step intHandler) NeverRelocks (start fun t => program (role t)) moves := by
  have hclear := h.mono fun _ _ => OutsideQueues.clear
  exact always_neverRelocks hclear

/-- A client handles the first signal before it takes the client queue, and a second one inside. -/
theorem never_blocked_by_own_thread_client :
    Runs.Always (step intHandler) NeverRelocks (start fun _ : Unit => program .client)
      (.deliver () :: List.replicate 12 (.go () (true, 0)) ++
        [.deliver (), .go () (true, 0), .go () (true, 0)]) :=
  never_blocked_by_own_thread (fun _ => .client) _ (by decide +kernel)

/-- Inside a queue the handler does ask for what its thread holds, as soon as nobody else has the
mutex that it asks for before. -/
theorem relocks_inside {s : State τ Mutex} {t : τ} {rest : List (Frame Mutex)}
    (hframes : s.frames t = .entered :: rest) (hcalled : s.called = false)
    (hheld : clientQueue ∈ s.threads.held t ∨
      taskQueue ∈ s.threads.held t ∧ s.threads.owner clientQueue = none) :
    ∃ moves, ¬ Runs.Always (step intHandler) NeverRelocks s moves := by
  refine ⟨List.replicate 6 (.go t (true, 0)), fun h => ?_⟩
  have hpassed := h.2 _ (step_entered hframes hcalled)
  have hbody := hpassed.2 _ (step_passed frames_setFrames)
  rcases hheld with hclient | ⟨htask, hfree⟩
  · refine hbody.head t clientQueue ?_ hclient
    simp only [frames_setFrames, pending_body]
    rfl
  · -- the client queue is locked and unlocked again, each in two steps
    have henabled : (LockOrder.Act.lock clientQueue).enabled s.threads.owner = true := by
      simp only [LockOrder.Act.enabled, hfree, Option.isNone_none]
    have hlocked := hbody.2 _ (step_body frames_setFrames rfl henabled)
    have hlocked' := hlocked.2 _ (step_body frames_setFrames rfl rfl)
    have hunlocked := hlocked'.2 _ (step_body frames_setFrames rfl rfl)
    have hnext := hunlocked.2 _ (step_body frames_setFrames rfl rfl)
    refine hnext.head t taskQueue ?_ ?_
    · simp only [frames_setFrames, pending_body]
      rfl
    · simp [State.act, LockOrder.Act.after, htask]

/-- The first signal reaches the main thread inside `client_queue_push`. -/
theorem main_relocks_clientQueue :
    ¬ ∀ (role : Unit → Role) (moves : List (Move Unit)),
      Runs.Always (step intHandler) NeverRelocks (start fun t => program (role t)) moves := by
  intro h
  have hrun : (Runs.run (step intHandler) (start fun _ : Unit => program .main)
      (List.replicate 4 (.go () (false, 0)) ++ .deliver () :: List.replicate 2 (.go () (false, 0)))).any
        (fun s => pending (s.frames ()) = some clientQueue ∧ clientQueue ∈ s.threads.held ()) = true := by
    decide +kernel
  obtain ⟨s, hs, hrelocks⟩ := (Option.any_eq_true _ _).mp hrun
  obtain ⟨hpending, hheld⟩ := of_decide_eq_true hrelocks
  exact (h (fun _ => .main) _).last hs () clientQueue hpending hheld

end Stash.Threads.ShutdownHandler
