import Stash.Foundation.Ledgers
import Stash.Threads.WorkerThread

/-! What a worker takes, uses and gives up in one pass of its loop, on every way out of the
five branches, and what it hands to the session. -/
namespace Stash.Threads.WorkerEvents
open Foundation Foundation.CText Foundation.Paths Foundation.FileTree Auth

/-- What can be lost in one pass. -/
inductive Held where
  | dataBuffer
  | fileLock
  | stream
  | directory
  | fileData
  | listData
  deriving DecidableEq, Repr

/-- `take` is the call that returns the thing, `give` the call that releases, closes or frees
it; `response_set` takes over the data that it is given. -/
inductive Event where
  | take (r : Held)
  | use (r : Held)
  | give (r : Held)
  | deliverResponse (response : Response)
  | responseSet (data : Option Held)
  deriving DecidableEq

namespace Event

def act : Event → Option (Ledgers.Act Held)
  | .take r => some (.take r)
  | .use r => some (.use r)
  | .give r => some (.give r)
  | .responseSet (some r) => some (.give r)
  | _ => none

def delivered : Event → Option Response
  | .deliverResponse response => some response
  | _ => none

/-- What `response_set` is given. -/
def handed : Event → Option Held
  | .responseSet data => data
  | _ => none

end Event

/-- A task with the outcome of every call that is made for it. `type` is none of the four
where the switch takes its default. -/
structure Pass where
  cwd : Path
  calls : Calls
  server : Server
  task : Task
  type : Option TaskType
  session : Bool

namespace Pass
variable (p : Pass)

def deliverResponse (response : Response) (data : Option Held) : List Event :=
  .deliverResponse response ::
    if p.session then [.responseSet data]
    else
      match data with
      | some r => [.give r]
      | none => []

def userExists : Bool := Auth.userExists p.calls.userQuery p.server.db.tables p.task.username

/-- `if (task.data_buffer) free(task.data_buffer);` -/
def freeDataBuffer : List Event := if p.task.dataBuffer.isSome then [.give .dataBuffer] else []

def fwrite : List Event := if p.task.dataBuffer.isSome then [.use .dataBuffer, .use .stream] else [.use .stream]

def fopenWrite : Except Errno Path :=
  attempt p.calls.fopen (p.server.fs.openWrite p.cwd (filePath p.task.username p.task.filename))

def taskUpload : List Event :=
  if !p.userExists then
    p.deliverResponse (failure .error "UPLOAD FAILED: User not found\n") none ++ p.freeDataBuffer
  else if !p.calls.fileLock then
    p.deliverResponse (failure .error "UPLOAD FAILED: Could not acquire file lock\n") none ++ p.freeDataBuffer
  else
    .take .fileLock ::
      match p.fopenWrite with
      | .error e =>
        .give .fileLock :: p.deliverResponse (uploadOpenError e) none ++ p.freeDataBuffer
      | .ok _ =>
        .take .stream :: p.fwrite ++ .give .stream ::
          (if p.calls.wrote p.task.payload then
            .give .fileLock :: p.deliverResponse ⟨.success, ascii "UPLOAD OK\n", []⟩ none
          else
            .give .fileLock :: p.deliverResponse (failure .error "UPLOAD ERROR: File write failed\n") none) ++
          p.freeDataBuffer

def fopenRead : Except Errno Node :=
  attempt p.calls.fopen (p.server.fs.openRead p.cwd (filePath p.task.username p.task.filename))

/-- The bytes of the file, if `fread` returns all of them. -/
def fread : Node → Option Bytes
  | .dir => none
  | .file content =>
    if p.calls.ferror || min (p.calls.fread.getD content.length) content.length ≠ content.length then none
    else some content

def taskDownload : List Event :=
  if !p.userExists then p.deliverResponse (failure .error "DOWNLOAD FAILED: User not found\n") none
  else if !p.calls.fileLock then
    p.deliverResponse (failure .error "DOWNLOAD FAILED: Could not acquire file lock\n") none
  else
    .take .fileLock ::
      match p.fopenRead with
      | .error e => .give .fileLock :: p.deliverResponse (downloadOpenError e) none
      | .ok n =>
        .take .stream :: .use .stream ::
          if !p.calls.fseekEnd then
            .give .stream :: .give .fileLock ::
              p.deliverResponse (failure .error "DOWNLOAD ERROR: Cannot determine file size\n") none
          else .use .stream ::
            if !p.calls.ftell then
              .give .stream :: .give .fileLock ::
                p.deliverResponse (failure .error "DOWNLOAD ERROR: Cannot determine file size\n") none
            else .use .stream ::
              if !p.calls.fseekSet then
                .give .stream :: .give .fileLock ::
                  p.deliverResponse (failure .error "DOWNLOAD ERROR: File seek error\n") none
              else if !p.calls.malloc then
                .give .stream :: .give .fileLock ::
                  p.deliverResponse (failure .error "DOWNLOAD FAILED: Memory allocation failed\n") none
              else
                .take .fileData :: .use .fileData :: .use .stream :: .give .stream :: .give .fileLock ::
                  match p.fread n with
                  | none =>
                    .give .fileData :: p.deliverResponse (failure .error "DOWNLOAD ERROR: File read error\n") none
                  | some content =>
                    p.deliverResponse ⟨.success, ascii "\nDOWNLOAD OK\n", content⟩ (some .fileData)

def remove : Except Errno Path :=
  attempt p.calls.remove (p.server.fs.remove p.cwd (filePath p.task.username p.task.filename))

def taskDelete : List Event :=
  if !p.userExists then p.deliverResponse (failure .error "DELETE FAILED: User not found\n") none
  else if !p.calls.fileLock then
    p.deliverResponse (failure .error "DELETE FAILED: Could not acquire file lock\n") none
  else
    .take .fileLock ::
      match p.remove with
      | .ok _ => .give .fileLock :: p.deliverResponse ⟨.success, ascii "DELETE OK\n", []⟩ none
      | .error e => .give .fileLock :: p.deliverResponse (deleteError e) none

def opendir : Except Errno (List Bytes) :=
  attempt p.calls.opendir (p.server.fs.opendir p.cwd (userPath p.task.username))

def taskList : List Event :=
  if !p.userExists then p.deliverResponse (failure .error "LIST FAILED: User not found\n") none
  else
    match p.opendir with
    | .error e => p.deliverResponse (listOpenError e) none
    | .ok names =>
      .take .directory :: .use .directory :: .give .directory ::
        if p.calls.malloc then
          .take .listData :: .use .listData ::
            p.deliverResponse ⟨.success, [], listData (names.take (p.calls.readdir.getD names.length))⟩
              (some .listData)
        else p.deliverResponse (failure .error "LIST ERROR: Server memory allocation failed\n") none

/-- The data buffer of an upload comes with its task. -/
def popped : List Event :=
  if p.type = some .upload ∧ p.task.dataBuffer.isSome then [.take .dataBuffer] else []

/-- One pass of the loop, behind the two `mkdir`. -/
def trace : List Event :=
  let entered := { p with server := p.server.setFs (makeDirs p.cwd p.calls p.task.username p.server.fs) }
  p.popped ++
    match p.type with
    | some .upload => entered.taskUpload
    | some .download => entered.taskDownload
    | some .delete => entered.taskDelete
    | some .list => entered.taskList
    | none => p.deliverResponse (failure .error "UNKNOWN COMMAND\n") none

end Pass

/-- The trace as a ledger of what is held. -/
def ledger (trace : List Event) : List (Ledgers.Act Held) := trace.filterMap Event.act

/-- The trace starts and ends with nothing held, takes each thing at most once and the data
buffer if there is one; only data of a download or a list goes into a response. -/
def settled (buffer : Bool) (trace : List Event) : Bool :=
  Runs.run Ledgers.step [] (ledger trace) == some [] &&
    [Held.dataBuffer, .fileLock, .stream, .directory, .fileData, .listData].all
      (fun r => trace.count (.take r) ≤ 1) &&
    (trace.filterMap Event.handed).all (fun r => r == .fileData || r == .listData) &&
    trace.count (.take .dataBuffer) == buffer.toNat

section
variable (p : Pass)

theorem settled_upload (h : p.type = some .upload) :
    settled p.task.dataBuffer.isSome (p.popped ++ p.taskUpload) = true := by
  unfold Pass.popped Pass.taskUpload Pass.freeDataBuffer Pass.fwrite Pass.deliverResponse
  cases p.task.dataBuffer.isSome <;> cases p.session
  all_goals
    simp only [h, Bool.false_eq_true, and_false, and_self, if_false, if_true]
    split
    · rfl
    split
    · rfl
    split
    · rfl
    split
    · rfl
    · rfl

theorem settled_download (h : p.type = some .download) :
    settled false (p.popped ++ p.taskDownload) = true := by
  unfold Pass.popped Pass.taskDownload Pass.deliverResponse
  cases p.session
  all_goals
    simp only [h, Option.some.injEq, reduceCtorEq, false_and, Bool.false_eq_true, if_false, if_true]
    split
    · rfl
    split
    · rfl
    split
    · rfl
    split
    · rfl
    split
    · rfl
    split
    · rfl
    split
    · rfl
    split
    · rfl
    · rfl

theorem settled_delete (h : p.type = some .delete) :
    settled false (p.popped ++ p.taskDelete) = true := by
  unfold Pass.popped Pass.taskDelete Pass.deliverResponse
  cases p.session
  all_goals
    simp only [h, Option.some.injEq, reduceCtorEq, false_and, Bool.false_eq_true, if_false, if_true]
    split
    · rfl
    split
    · rfl
    split
    · rfl
    · rfl

theorem settled_list (h : p.type = some .list) :
    settled false (p.popped ++ p.taskList) = true := by
  unfold Pass.popped Pass.taskList Pass.deliverResponse
  cases p.session
  all_goals
    simp only [h, Option.some.injEq, reduceCtorEq, false_and, Bool.false_eq_true, if_false, if_true]
    split
    · rfl
    split
    · rfl
    split
    · rfl
    · rfl

@[simp] theorem delivered_deliverResponse (response : Response) (data : Option Held) :
    (p.deliverResponse response data).filterMap Event.delivered = [response] := by
  unfold Pass.deliverResponse
  split
  · rfl
  · cases data <;> rfl

@[simp] theorem delivered_freeDataBuffer : p.freeDataBuffer.filterMap Event.delivered = [] := by
  unfold Pass.freeDataBuffer
  split <;> rfl

@[simp] theorem delivered_fwrite : p.fwrite.filterMap Event.delivered = [] := by
  unfold Pass.fwrite
  split <;> rfl

@[simp] theorem delivered_popped : p.popped.filterMap Event.delivered = [] := by
  unfold Pass.popped
  split <;> rfl

@[simp] theorem delivered_take (r : Held) (trace : List Event) :
    (.take r :: trace).filterMap Event.delivered = trace.filterMap Event.delivered := rfl

@[simp] theorem delivered_use (r : Held) (trace : List Event) :
    (.use r :: trace).filterMap Event.delivered = trace.filterMap Event.delivered := rfl

@[simp] theorem delivered_give (r : Held) (trace : List Event) :
    (.give r :: trace).filterMap Event.delivered = trace.filterMap Event.delivered := rfl

/-- What is delivered is the response of the task as a whole. -/
theorem delivered_upload :
    p.taskUpload.filterMap Event.delivered = [(taskUpload p.cwd p.calls p.server p.task).2] := by
  unfold Pass.taskUpload taskUpload openUpload acquire Pass.userExists Pass.fopenWrite
  split
  · simp [Except.bind]
  split
  · simp [Except.bind]
  split
  · rename_i e hopen
    simp [hopen, Except.bind, Except.mapError]
  · rename_i file hopen
    simp only [hopen, Except.bind, Except.mapError, writeUpload]
    split
    · simp
    · simp

theorem delivered_download :
    p.taskDownload.filterMap Event.delivered = [taskDownload p.cwd p.calls p.server p.task] := by
  unfold Pass.taskDownload taskDownload openDownload acquire Pass.userExists Pass.fopenRead
  split
  · simp [Except.bind]
  split
  · simp [Except.bind]
  split
  · rename_i e hopen
    simp [hopen, Except.bind, Except.mapError]
  · rename_i n hopen
    simp only [hopen, Except.bind, Except.mapError, readDownload]
    split
    · rename_i hend
      simp [hend]
    split
    · rename_i htell
      simp [htell]
    rename_i hend htell
    split
    · simp [hend, htell]
    split
    · simp [hend, htell]
    cases n with
    | dir => simp [hend, htell, Pass.fread]
    | file content =>
      simp only [hend, htell, Pass.fread]
      split
      · rename_i hread
        split at hread
        · rename_i hcut
          rw [if_pos hcut]
          simp
        · cases hread
      · rename_i whole hread
        split at hread
        · cases hread
        · rename_i hcut
          rw [if_neg hcut, Option.some.inj hread]
          simp

theorem delivered_delete :
    p.taskDelete.filterMap Event.delivered = [(taskDelete p.cwd p.calls p.server p.task).2] := by
  unfold Pass.taskDelete taskDelete removeDelete acquire Pass.userExists Pass.remove
  split
  · simp [Except.bind]
  split
  · simp [Except.bind]
  split
  · rename_i file hremove
    simp [hremove, Except.bind, Except.mapError]
  · rename_i e hremove
    simp [hremove, Except.bind, Except.mapError]

theorem delivered_list :
    p.taskList.filterMap Event.delivered = [taskList p.cwd p.calls p.server p.task] := by
  unfold Pass.taskList taskList Pass.userExists Pass.opendir
  split
  · simp
  cases attempt p.calls.opendir (p.server.fs.opendir p.cwd (userPath p.task.username)) with
  | error e => simp
  | ok names =>
    dsimp only
    split
    · simp
    · simp

end

variable {p : Pass} {trace : List Event} {buffer : Bool}

/-- The pass behind the two `mkdir`. -/
def Pass.entered (p : Pass) : Pass :=
  { p with server := p.server.setFs (makeDirs p.cwd p.calls p.task.username p.server.fs) }

def Pass.brings (p : Pass) : Bool := p.type = some .upload ∧ p.task.dataBuffer.isSome

theorem settled_trace (p : Pass) : settled p.brings p.trace = true := by
  unfold Pass.brings
  cases htype : p.type with
  | none =>
    simp only [Pass.trace, Pass.popped, Pass.deliverResponse, htype]
    cases p.session <;> rfl
  | some type =>
    cases type with
    | upload =>
      have h := settled_upload p.entered htype
      simp only [Pass.trace, htype, true_and, Bool.decide_eq_true]
      exact h
    | download =>
      have h := settled_download p.entered htype
      simp only [Pass.trace, htype]
      exact h
    | delete =>
      have h := settled_delete p.entered htype
      simp only [Pass.trace, htype]
      exact h
    | list =>
      have h := settled_list p.entered htype
      simp only [Pass.trace, htype]
      exact h

/-- The one response of a pass is that of the task as a whole. -/
theorem delivered_trace (htype : p.type = some p.task.type) :
    p.trace.filterMap Event.delivered = [(workerWorker p.cwd p.calls p.server p.task).2] := by
  simp only [Pass.trace, workerWorker, htype, List.filterMap_append, delivered_popped, List.nil_append]
  cases p.task.type with
  | upload => exact delivered_upload p.entered
  | download => exact delivered_download p.entered
  | delete => exact delivered_delete p.entered
  | list => exact delivered_list p.entered

theorem delivered_once (p : Pass) : (p.trace.filterMap Event.delivered).length = 1 := by
  simp only [Pass.trace, List.filterMap_append, delivered_popped, List.nil_append]
  cases p.type with
  | none => simp
  | some type =>
    cases type with
    | upload => exact congrArg List.length (delivered_upload p.entered)
    | download => exact congrArg List.length (delivered_download p.entered)
    | delete => exact congrArg List.length (delivered_delete p.entered)
    | list => exact congrArg List.length (delivered_list p.entered)

theorem count_ledger_take (trace : List Event) (r : Held) :
    (ledger trace).count (.take r) = trace.count (.take r) := by
  induction trace with
  | nil => rfl
  | cons e trace ih =>
    rw [ledger] at ih
    rw [ledger, List.filterMap_cons]
    cases e with
    | take other => simp [Event.act, List.count_cons, ih]
    | use other => simp [Event.act, ih]
    | give other => simp [Event.act, ih]
    | deliverResponse response => simp [Event.act, ih]
    | responseSet data => cases data <;> simp [Event.act, ih]

/-- Data is given up by `free` or to a response. -/
theorem count_ledger_give (trace : List Event) (r : Held) :
    (ledger trace).count (.give r) = trace.count (.give r) + trace.count (.responseSet (some r)) := by
  induction trace with
  | nil => rfl
  | cons e trace ih =>
    rw [ledger] at ih
    rw [ledger, List.filterMap_cons]
    cases e with
    | take other => simp [Event.act, ih]
    | use other => simp [Event.act, ih]
    | give other => simp [Event.act, List.count_cons, ih, Nat.add_right_comm]
    | deliverResponse response => simp [Event.act, ih]
    | responseSet data =>
      cases data with
      | none => simp [Event.act, ih]
      | some other => simp [Event.act, List.count_cons, ih, Nat.add_assoc]

theorem settled_run (h : settled buffer trace = true) : Runs.run Ledgers.step [] (ledger trace) = some [] := by
  simp only [settled, Bool.and_eq_true, beq_iff_eq] at h
  exact h.1.1.1

theorem settled_once (h : settled buffer trace = true) (r : Held) : trace.count (.take r) ≤ 1 := by
  simp only [settled, Bool.and_eq_true, List.all_cons, decide_eq_true_eq] at h
  obtain ⟨⟨⟨_, hdata, hlock, hstream, hdirectory, hfile, hlist, _⟩, _⟩, _⟩ := h
  cases r <;> assumption

theorem settled_buffer (h : settled buffer trace = true) : trace.count (.take .dataBuffer) = buffer.toNat := by
  simp only [settled, Bool.and_eq_true, beq_iff_eq] at h
  exact h.2

/-- What does not go into responses is given up as often as it is taken. -/
theorem settled_kept (h : settled buffer trace = true) {r : Held} (hfile : r ≠ .fileData)
    (hlist : r ≠ .listData) : trace.count (.give r) = trace.count (.take r) := by
  have hnone : trace.count (.responseSet (some r)) = 0 := by
    simp only [settled, Bool.and_eq_true, List.all_eq_true] at h
    refine List.count_eq_zero.mpr fun hmem => ?_
    have hhanded := h.1.2 r (List.mem_filterMap.mpr ⟨_, hmem, rfl⟩)
    simp [hfile, hlist] at hhanded
  rw [← count_ledger_take, ← Ledgers.given_eq_taken (settled_run h), count_ledger_give, hnone, Nat.add_zero]

theorem settled_data (h : settled buffer trace = true) (r : Held) :
    trace.count (.give r) + trace.count (.responseSet (some r)) = trace.count (.take r) := by
  rw [← count_ledger_take, ← Ledgers.given_eq_taken (settled_run h), count_ledger_give]

/-- One pass delivers once. The lock, the stream and the directory that it gets are given back
once, the data buffer that comes with an upload is freed once, and a buffer that it allocates is
freed or goes into a response, once. -/
structure AnsweredOnce (p : Pass) : Prop where
  delivered : (p.trace.filterMap Event.delivered).length = 1
  taken : ∀ r, p.trace.count (.take r) ≤ 1
  fileLock : p.trace.count (.give .fileLock) = p.trace.count (.take .fileLock)
  stream : p.trace.count (.give .stream) = p.trace.count (.take .stream)
  directory : p.trace.count (.give .directory) = p.trace.count (.take .directory)
  dataBuffer : p.trace.count (.give .dataBuffer) = if p.brings then 1 else 0
  fileData : p.trace.count (.give .fileData) + p.trace.count (.responseSet (some .fileData)) =
    p.trace.count (.take .fileData)
  listData : p.trace.count (.give .listData) + p.trace.count (.responseSet (some .listData)) =
    p.trace.count (.take .listData)

/-- Every task is answered once and leaks nothing, however its calls end. -/
theorem answered_once (p : Pass) : AnsweredOnce p where
  delivered := delivered_once p
  taken := settled_once (settled_trace p)
  fileLock := settled_kept (settled_trace p) (by decide) (by decide)
  stream := settled_kept (settled_trace p) (by decide) (by decide)
  directory := settled_kept (settled_trace p) (by decide) (by decide)
  dataBuffer := by
    rw [settled_kept (settled_trace p) (by decide) (by decide), settled_buffer (settled_trace p)]
    cases p.brings <;> rfl
  fileData := settled_data (settled_trace p) .fileData
  listData := settled_data (settled_trace p) .listData

/-- The loop of a worker: nothing is used or given up that is not held, nothing is held between
two tasks, and there are as many responses as tasks. -/
theorem worker_loop (passes : List Pass) :
    Runs.run Ledgers.step [] (passes.map fun p => ledger p.trace).flatten = some [] ∧
      ((passes.map Pass.trace).flatten.filterMap Event.delivered).length = passes.length := by
  constructor
  · apply Ledgers.run_flatten
    intro acts hmem
    obtain ⟨p, _, rfl⟩ := List.mem_map.mp hmem
    exact settled_run (settled_trace p)
  · induction passes with
    | nil => rfl
    | cons p passes ih =>
      rw [List.map_cons, List.flatten_cons, List.filterMap_append, List.length_append, ih, delivered_once,
        List.length_cons, Nat.add_comm]

end Stash.Threads.WorkerEvents
