import Stash.Auth.Database
import Stash.Foundation.FileTree
import Stash.Threads.ClientThread

/-! What a worker does for one task: the directories it creates, the file that it writes,
reads or removes, the metadata it updates, and the response for the session. -/
namespace Stash.Threads
open Foundation.CText Foundation.Paths Foundation.FileTree Auth

/-- How the calls of one task end where the state does not decide it. A call without an
entry here does its work; `fwrite` and `fread` may stop early, a failing `fclose` leaves
only so many bytes on the disk. -/
structure Calls where
  mkdirStorage : Option Errno
  mkdirUser : Option Errno
  userQuery : Bool
  fileLock : Bool
  fopen : Option Errno
  fwrite : Option Nat
  ferror : Bool
  fclose : Option Nat
  remove : Option Errno
  metadata : DbFault
  fseekEnd : Bool
  ftell : Bool
  fseekSet : Bool
  malloc : Bool
  fread : Option Nat
  opendir : Option Errno
  readdir : Option Nat

/-- Every call succeeds. -/
def Calls.succeeding : Calls where
  mkdirStorage := none
  mkdirUser := none
  userQuery := true
  fileLock := true
  fopen := none
  fwrite := none
  ferror := false
  fclose := none
  remove := none
  metadata := .none
  fseekEnd := true
  ftell := true
  fseekSet := true
  malloc := true
  fread := none
  opendir := none
  readdir := none

/-- The result of a system call unless it fails with `fault`. -/
def attempt {α : Type} (fault : Option Errno) (result : Except Errno α) : Except Errno α :=
  match fault with
  | some e => .error e
  | none => result

namespace Calls

/-- The return value of `fwrite`. -/
def written (calls : Calls) (data : Bytes) : Nat := min (calls.fwrite.getD data.length) data.length

/-- The bytes on the disk after `fclose`. -/
def stored (calls : Calls) (data : Bytes) : Bytes :=
  data.take (min (calls.written data) (calls.fclose.getD data.length))

/-- The upload is taken as complete. -/
def wrote (calls : Calls) (data : Bytes) : Bool := !calls.ferror && calls.written data == data.length

end Calls

/-- The files and the metadata that the workers share. -/
structure Server where
  fs : Fs
  db : Connection

def Server.setFs (s : Server) (fs : Fs) : Server := { s with fs := fs }
def Server.setDb (s : Server) (db : Connection) : Server := { s with db := db }

@[simp] theorem Server.setFs_fs (s : Server) (fs : Fs) : (s.setFs fs).fs = fs := rfl
@[simp] theorem Server.setFs_db (s : Server) (fs : Fs) : (s.setFs fs).db = s.db := rfl
@[simp] theorem Server.setDb_fs (s : Server) (db : Connection) : (s.setDb db).fs = s.fs := rfl
@[simp] theorem Server.setDb_db (s : Server) (db : Connection) : (s.setDb db).db = db := rfl

def pathSize : Nat := 512

/-- `storage/<username>` -/
def userPath (username : Bytes) : List Bytes :=
  components (snprintf pathSize (ascii "storage/" ++ username))

/-- `storage/<username>/<filename>` -/
def filePath (username filename : Bytes) : List Bytes :=
  components (snprintf pathSize (ascii "storage/" ++ username ++ ascii "/" ++ filename))

/-- `mkdir` without a look at its result. -/
def makeDir (fault : Option Errno) (cwd : Path) (path : List Bytes) (fs : Fs) : Fs :=
  match attempt fault (fs.mkdir cwd path) with
  | .ok dir => fs.insert dir .dir
  | .error _ => fs

/-- The directories that a worker makes before it looks at the type of the task. -/
def makeDirs (cwd : Path) (calls : Calls) (username : Bytes) (fs : Fs) : Fs :=
  makeDir calls.mkdirUser cwd (userPath username)
    (makeDir calls.mkdirStorage cwd (components (ascii "storage")) fs)

def failure (status : ResponseStatus) (text : String) : Response := ⟨status, ascii text, []⟩

def uploadOpenError : Errno → Response
  | .eacces | .eperm => failure .error "UPLOAD ERROR: Permission denied\n"
  | .enospc => failure .error "UPLOAD ERROR: No space left on device\n"
  | .enametoolong => failure .error "UPLOAD ERROR: Filename too long\n"
  | _ => failure .error "UPLOAD ERROR: Cannot create file\n"

def downloadOpenError : Errno → Response
  | .enoent => failure .fileNotFound "DOWNLOAD ERROR: File not found\n"
  | .eacces => failure .error "DOWNLOAD ERROR: Permission denied\n"
  | _ => failure .error "DOWNLOAD ERROR: Cannot open file\n"

def deleteError : Errno → Response
  | .enoent => failure .fileNotFound "DELETE ERROR: File not found\n"
  | .eacces | .eperm => failure .error "DELETE ERROR: Permission denied\n"
  | _ => failure .error "DELETE ERROR: Cannot delete file\n"

def listOpenError : Errno → Response
  | .enoent => failure .error "LIST ERROR: User directory not found\n"
  | .eacces => failure .error "LIST ERROR: Permission denied\n"
  | _ => failure .error "LIST ERROR: Cannot open directory\n"

section
variable (cwd : Path) (calls : Calls) (s : Server) (task : Task)

/-- What `fwrite` takes from the data buffer. -/
def Task.payload : Bytes := (task.dataBuffer.getD []).take task.filesize.toNat

/-- The first two checks of a file command: the user exists and the lock of the file is got. -/
def acquire (command : String) : Except Response Unit :=
  if !userExists calls.userQuery s.db.tables task.username then
    .error (failure .error (command ++ " FAILED: User not found\n"))
  else if !calls.fileLock then
    .error (failure .error (command ++ " FAILED: Could not acquire file lock\n"))
  else .ok ()

/-- The file that an upload opens, or the response that says why it does not. -/
def openUpload : Except Response Path :=
  (acquire calls s task "UPLOAD").bind fun _ =>
    (attempt calls.fopen (s.fs.openWrite cwd (filePath task.username task.filename))).mapError
      uploadOpenError

/-- The clean-up of a failed upload. -/
def removeFile : Server :=
  match attempt calls.remove (s.fs.remove cwd (filePath task.username task.filename)) with
  | .ok file => s.setFs (s.fs.erase file)
  | .error _ => s

/-- `TASK_UPLOAD` from the return of `fopen` on. -/
def writeUpload (file : Path) : Server × Response :=
  let s := s.setFs (s.fs.insert file (.file (calls.stored task.payload)))
  if calls.wrote task.payload then
    (s.setDb (dbAddOrUpdateFile calls.metadata s.db task.username task.filename task.filesize.toNat).1,
      ⟨.success, ascii "UPLOAD OK\n", []⟩)
  else (removeFile cwd calls s task, failure .error "UPLOAD ERROR: File write failed\n")

def taskUpload : Server × Response :=
  match openUpload cwd calls s task with
  | .error response => (s, response)
  | .ok file => writeUpload cwd calls s task file

def openDownload : Except Response Node :=
  (acquire calls s task "DOWNLOAD").bind fun _ =>
    (attempt calls.fopen (s.fs.openRead cwd (filePath task.username task.filename))).mapError
      downloadOpenError

/-- `TASK_DOWNLOAD` from the return of `fopen` on; no read of a directory succeeds. -/
def readDownload (n : Node) : Response :=
  if !calls.fseekEnd || !calls.ftell then failure .error "DOWNLOAD ERROR: Cannot determine file size\n"
  else if !calls.fseekSet then failure .error "DOWNLOAD ERROR: File seek error\n"
  else if !calls.malloc then failure .error "DOWNLOAD FAILED: Memory allocation failed\n"
  else
    match n with
    | .dir => failure .error "DOWNLOAD ERROR: File read error\n"
    | .file content =>
      if calls.ferror || min (calls.fread.getD content.length) content.length ≠ content.length then
        failure .error "DOWNLOAD ERROR: File read error\n"
      else ⟨.success, ascii "\nDOWNLOAD OK\n", content⟩

def taskDownload : Response :=
  match openDownload cwd calls s task with
  | .error response => response
  | .ok n => readDownload calls n

/-- The entry that a delete removes, or the response that says why it does not. -/
def removeDelete : Except Response Path :=
  (acquire calls s task "DELETE").bind fun _ =>
    (attempt calls.remove (s.fs.remove cwd (filePath task.username task.filename))).mapError deleteError

def taskDelete : Server × Response :=
  match removeDelete cwd calls s task with
  | .error response => (s, response)
  | .ok file =>
    ((s.setFs (s.fs.erase file)).setDb
        (dbRemoveFile calls.metadata s.db task.username task.filename).1,
      ⟨.success, ascii "DELETE OK\n", []⟩)

def listBufferSize : Nat := 4096

def skipped (name : Bytes) : Bool :=
  name == dot || name == dotdot || name == ascii "metadata.txt" || name == ascii "metadata.tmp"

/-- The loop over the directory; it ends when the next name does not fit. -/
def listNames : Bytes → List Bytes → Bytes
  | buffer, [] => buffer
  | buffer, name :: names =>
    if skipped name then listNames buffer names
    else
      let remaining := listBufferSize - buffer.length - 1
      if name.length + 1 ≥ remaining then buffer
      else
        listNames (strncat (strncat buffer name remaining) (ascii "\n") (remaining - name.length)) names

def listData (names : List Bytes) : Bytes :=
  let buffer := listNames [] names
  strncat buffer (ascii "LIST END\n") (listBufferSize - buffer.length - 1)

def taskList : Response :=
  if !userExists calls.userQuery s.db.tables task.username then
    failure .error "LIST FAILED: User not found\n"
  else
    match attempt calls.opendir (s.fs.opendir cwd (userPath task.username)) with
    | .error e => listOpenError e
    | .ok names =>
      if calls.malloc then ⟨.success, [], listData (names.take (calls.readdir.getD names.length))⟩
      else failure .error "LIST ERROR: Server memory allocation failed\n"

/-- One pass of the loop of a worker, with the response that it hands to `deliver_response`. -/
def workerWorker : Server × Response :=
  let s := s.setFs (makeDirs cwd calls task.username s.fs)
  match task.type with
  | .upload => taskUpload cwd calls s task
  | .download => (s, taskDownload cwd calls s task)
  | .delete => taskDelete cwd calls s task
  | .list => (s, taskList cwd calls s task)

end

section
variable {cwd : Path} {calls : Calls} {s : Server} {task : Task}

theorem attempt_ok {α : Type} {fault : Option Errno} {result : Except Errno α} {a : α} :
    attempt fault result = .ok a ↔ fault = none ∧ result = .ok a := by
  cases fault with
  | some e => simp [attempt]
  | none => simp [attempt]

theorem acquire_ok {command : String} (h : acquire calls s task command = .ok ()) :
    (s.db.tables.userId task.username).isSome := by
  unfold acquire at h
  split at h
  · cases h
  · rename_i hu
    simp only [userExists, Bool.not_eq_true, Bool.not_eq_false', Bool.and_eq_true] at hu
    exact hu.2

private theorem attempted_ok {α : Type} {acquired : Except Response Unit} {fault : Option Errno}
    {result : Except Errno α} {text : Errno → Response} {a : α} :
    (acquired.bind fun _ => (attempt fault result).mapError text) = .ok a ↔
      acquired = .ok () ∧ fault = none ∧ result = .ok a := by
  rw [← attempt_ok]
  cases acquired with
  | error response => simp [Except.bind]
  | ok _ =>
    cases attempt fault result with
    | error e => simp [Except.bind, Except.mapError]
    | ok b => simp [Except.bind, Except.mapError]

/-- What a command answers when it does not get as far as its call, or when the call fails. -/
theorem attempted_refused {α : Type} {acquired : Except Response Unit} {result : Except Errno α}
    {text : Errno → Response} {response : Response}
    (h : (acquired.bind fun _ => result.mapError text) = .error response) :
    acquired = .error response ∨ ∃ e, response = text e := by
  cases acquired with
  | error early =>
    obtain rfl : early = response := Except.error.inj h
    exact .inl rfl
  | ok _ =>
    cases result with
    | error e => exact .inr ⟨e, (Except.error.inj h).symm⟩
    | ok a => cases h

theorem acquire_refused {command : String} {response : Response}
    (h : acquire calls s task command = .error response) :
    response = failure .error (command ++ " FAILED: User not found\n") ∨
      response = failure .error (command ++ " FAILED: Could not acquire file lock\n") := by
  unfold acquire at h
  split at h
  · exact .inl (Except.error.inj h).symm
  · split at h
    · exact .inr (Except.error.inj h).symm
    · cases h

theorem openUpload_ok {file : Path} : openUpload cwd calls s task = .ok file ↔
    acquire calls s task "UPLOAD" = .ok () ∧ calls.fopen = none ∧
      s.fs.openWrite cwd (filePath task.username task.filename) = .ok file := attempted_ok

theorem openDownload_ok {n : Node} : openDownload cwd calls s task = .ok n ↔
    acquire calls s task "DOWNLOAD" = .ok () ∧ calls.fopen = none ∧
      s.fs.openRead cwd (filePath task.username task.filename) = .ok n := attempted_ok

theorem removeDelete_ok {file : Path} : removeDelete cwd calls s task = .ok file ↔
    acquire calls s task "DELETE" = .ok () ∧ calls.remove = none ∧
      s.fs.remove cwd (filePath task.username task.filename) = .ok file := attempted_ok

/-- No step of a worker breaks the tree. -/
theorem tree_makeDir {fault : Option Errno} {path : List Bytes} {fs : Fs} (ht : fs.Tree cwd) :
    (makeDir fault cwd path fs).Tree cwd := by
  unfold makeDir
  split
  · rename_i dir hmk
    exact ht.mkdir (attempt_ok.mp hmk).2
  · exact ht

theorem tree_makeDirs {username : Bytes} {fs : Fs} (ht : fs.Tree cwd) :
    (makeDirs cwd calls username fs).Tree cwd := tree_makeDir (tree_makeDir ht)

/-- The names that are skipped are short. -/
theorem skipped_long {name : Bytes} (h : 12 < name.length) : skipped name = false := by
  have hne (text : Bytes) (htext : text.length ≤ 12) : (name == text) = false := by
    rw [beq_eq_false_iff_ne]
    rintro rfl
    omega
  simp only [skipped, Bool.or_eq_false_iff]
  exact ⟨⟨⟨hne _ (by decide), hne _ (by decide)⟩, hne _ (by decide)⟩, hne _ (by decide)⟩

end

end Stash.Threads
