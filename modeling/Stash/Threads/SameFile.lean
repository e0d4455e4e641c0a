import Stash.Foundation.Runs
import Stash.Threads.DiskAgreement

/-! Tasks on one file of one user, cut into the steps between which other workers may run.
The lock of the file excludes; what a task does outside of it is not protected. -/
namespace Stash.Threads
open Foundation.CText Foundation.Paths Foundation.FileTree Foundation.Runs Auth

/-- How the write of an upload ends; everything else that it calls succeeds. -/
structure WriteResult where
  fwrite : Option Nat
  ferror : Bool

def WriteResult.calls (result : WriteResult) : Calls :=
  { Calls.succeeding with fwrite := result.fwrite, ferror := result.ferror }

inductive FileTask where
  | upload (payload : Payload) (result : WriteResult)
  | download
  | delete

def uploadOk : Response := ⟨.success, ascii "UPLOAD OK\n", []⟩
def uploadFailed : Response := failure .error "UPLOAD ERROR: File write failed\n"
def downloadOk (data : Bytes) : Response := ⟨.success, ascii "\nDOWNLOAD OK\n", data⟩
def deleteOk : Response := ⟨.success, ascii "DELETE OK\n", []⟩

/-- Where a task stands. The lock is held from `locked` on, until `cleaning` or `done`. -/
inductive TaskPhase where
  | queued
  | locked
  /-- `fopen` has truncated the file, or opened it for reading. -/
  | opened (inode : Nat)
  | written (inode : Nat)
  | closed
  /-- The metadata is up to date. -/
  | recorded
  /-- A failed upload has released the lock and is about to remove its file. -/
  | cleaning
  | fetched (data : Bytes)
  /-- The file of a delete is gone, its row is not. -/
  | removed
  | missing
  | done (response : Response)
  deriving DecidableEq

def TaskPhase.holds : TaskPhase → Bool
  | .queued | .cleaning | .done _ => false
  | _ => true

/-- The directory entry, the contents of all inodes, and the row. An open file keeps its inode
when the entry goes. -/
structure Disk where
  link : Option Nat
  blocks : Nat → Bytes
  next : Nat
  row : Option Nat

namespace Disk

/-- `fopen` in mode "wb". -/
def truncate (d : Disk) : Disk × Nat :=
  match d.link with
  | some inode => ({ d with blocks := Function.update d.blocks inode [] }, inode)
  | none => ({ d with link := some d.next, blocks := Function.update d.blocks d.next [], next := d.next + 1 }, d.next)

/-- `fwrite` at the start of an open file. -/
def write (d : Disk) (inode : Nat) (bytes : Bytes) : Disk :=
  { d with blocks := Function.update d.blocks inode (bytes ++ (d.blocks inode).drop bytes.length) }

def unlink (d : Disk) : Disk := { d with link := none }

def setRow (d : Disk) (row : Option Nat) : Disk := { d with row := row }

end Disk

/-- What is left when nobody has the file open: its content and its row. -/
structure World where
  file : Option Bytes
  row : Option Nat
  deriving DecidableEq

def Disk.world (d : Disk) : World := ⟨d.link.map d.blocks, d.row⟩

/-- The step in which a task first touches the file. -/
def FileTask.enter (t : FileTask) (d : Disk) : Disk × TaskPhase :=
  match t with
  | .upload _ _ => (d.truncate.1, .opened d.truncate.2)
  | .download =>
    match d.link with
    | some inode => (d, .opened inode)
    | none => (d, .missing)
  | .delete =>
    match d.link with
    | some _ => (d.unlink, .removed)
    | none => (d, .missing)

/-- The steps behind it, up to the response. -/
def FileTask.proceed (t : FileTask) (d : Disk) (p : TaskPhase) : Option (Disk × TaskPhase) :=
  match t, p with
  | .upload payload result, .opened inode =>
    some (d.write inode (result.calls.stored payload.bytes), .written inode)
  | .upload _ _, .written _ => some (d, .closed)
  | .upload payload result, .closed =>
    if result.calls.wrote payload.bytes then some (d.setRow (some payload.bytes.length), .recorded)
    else some (d, .cleaning)
  | .upload _ _, .recorded => some (d, .done uploadOk)
  | .upload _ _, .cleaning => some (d.unlink, .done uploadFailed)
  | .download, .opened inode => some (d, .fetched (d.blocks inode))
  | .download, .fetched data => some (d, .done (downloadOk data))
  | .download, .missing => some (d, .done (downloadOpenError .enoent))
  | .delete, .removed => some (d.setRow none, .recorded)
  | .delete, .recorded => some (d, .done deleteOk)
  | .delete, .missing => some (d, .done (deleteError .enoent))
  | _, _ => none

structure SharedFile where
  disk : Disk
  lock : Option Nat
  phase : Nat → TaskPhase

def SharedFile.move (s : SharedFile) (i : Nat) (p : TaskPhase) : SharedFile :=
  { s with phase := Function.update s.phase i p }

/-- The next step of the task `i`: it waits for the lock, and gives it up when its next phase
does not hold it. -/
def step (tasks : List FileTask) (s : SharedFile) (i : Nat) : Option SharedFile :=
  match tasks[i]? with
  | none => none
  | some t =>
    match s.phase i with
    | .queued => if s.lock = none then some { s.move i .locked with lock := some i } else none
    | .locked => some { s.move i (t.enter s.disk).2 with disk := (t.enter s.disk).1 }
    | p =>
      (t.proceed s.disk p).map fun r =>
        { s.move i r.2 with disk := r.1, lock := if p.holds && !r.2.holds then none else s.lock }

/-- What a step can be: the lock, the first touch, or a step behind it. -/
theorem step_cases {tasks : List FileTask} {s s' : SharedFile} {i : Nat} (h : step tasks s i = some s') :
    ∃ t, tasks[i]? = some t ∧
      ((s.phase i = .queued ∧ s.lock = none ∧ s' = { s.move i .locked with lock := some i }) ∨
      (s.phase i = .locked ∧ s' = { s.move i (t.enter s.disk).2 with disk := (t.enter s.disk).1 }) ∨
      ∃ d p, t.proceed s.disk (s.phase i) = some (d, p) ∧
        s' = { s.move i p with
          disk := d, lock := if (s.phase i).holds && !p.holds then none else s.lock }) := by
  unfold step at h
  split at h
  · cases h
  · rename_i t ht
    refine ⟨t, ht, ?_⟩
    split at h
    · rename_i hphase
      split at h
      · rename_i hlock
        exact .inl ⟨hphase, hlock, (Option.some.inj h).symm⟩
      · cases h
    · rename_i hphase
      exact .inr (.inl ⟨hphase, (Option.some.inj h).symm⟩)
    · obtain ⟨⟨d, p⟩, hproceed, rfl⟩ := Option.map_eq_some_iff.mp h
      exact .inr (.inr ⟨d, p, hproceed, rfl⟩)

/-- Only a task that has the lock goes on to a phase that has it. -/
theorem proceed_holds {t : FileTask} {d d' : Disk} {p p' : TaskPhase}
    (h : t.proceed d p = some (d', p')) (hp' : p'.holds = true) : p.holds = true := by
  cases p with
  | queued => cases t <;> cases h
  | cleaning =>
    cases t with
    | upload payload result =>
      obtain ⟨_, rfl⟩ := Prod.mk.inj (Option.some.inj h)
      cases hp'
    | download => cases h
    | delete => cases h
  | done response => cases t <;> cases h
  | _ => rfl

def World.disk (w : World) : Disk where
  link := w.file.map fun _ => 0
  blocks := fun _ => w.file.getD []
  next := 1
  row := w.row

def start (w : World) : SharedFile := ⟨w.disk, none, fun _ => .queued⟩

/-- All tasks are answered. -/
def Finished (tasks : List FileTask) (s : SharedFile) : Prop :=
  ∀ i < tasks.length, ∃ response, s.phase i = .done response

/-- A task that is executed alone. -/
def FileTask.effect (t : FileTask) (w : World) : World × Response :=
  match t with
  | .upload payload result =>
    if result.calls.wrote payload.bytes then
      (⟨some (result.calls.stored payload.bytes), some payload.bytes.length⟩, uploadOk)
    else (⟨none, w.row⟩, uploadFailed)
  | .download =>
    match w.file with
    | some data => (w, downloadOk data)
    | none => (w, downloadOpenError .enoent)
  | .delete =>
    match w.file with
    | some _ => (⟨none, none⟩, deleteOk)
    | none => (w, deleteError .enoent)

/-- Tasks one at a time, with the responses in their order. -/
def replay (tasks : List FileTask) (w : World) (order : List Nat) : World × List (Nat × Response) :=
  order.foldl
    (fun done i =>
      match tasks[i]? with
      | some t => ((t.effect done.1).1, done.2 ++ [(i, (t.effect done.1).2)])
      | none => done)
    (w, [])

end Stash.Threads
