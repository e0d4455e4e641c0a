import Stash.Foundation.Scanf
import Stash.Utils.NetworkUtils

/-! The file operation loop of a client thread, after authentication: one `recv` for each
command, the payload of an upload behind it, then a task for the workers. -/
namespace Stash.Threads
open Foundation.CText Foundation.Scanf Utils.NetworkUtils

inductive TaskType where
  | upload
  | download
  | delete
  | list
  deriving DecidableEq, Repr

structure Task where
  type : TaskType
  sessionId : UInt64
  username : Bytes
  filename : Bytes
  filesize : UInt64
  dataBuffer : Option Bytes
  deriving DecidableEq, Repr

inductive ResponseStatus where
  | success
  | error
  | fileNotFound
  | quotaExceeded
  | permissionDenied
  deriving DecidableEq, Repr

/-- What a worker hands back; a download carries data. -/
structure Response where
  status : ResponseStatus
  message : Bytes
  data : Bytes
  deriving DecidableEq, Repr

/-- What the loop does for others to see: a task goes into the queue, a text to the socket. -/
inductive Output where
  | queued (task : Task)
  | sent (text : Bytes)
  deriving DecidableEq, Repr

/-- The rest of the server, which may depend on everything that the loop has done so far.
No allocation beyond `PTRDIFF_MAX` succeeds. -/
structure Env where
  checkQuota : List Output → UInt64 → Bool
  malloc : List Output → UInt64 → Bool
  malloc_bound : ∀ out n, malloc out n = true → n.toNat < 2 ^ 63
  push : List Output → Task → Bool
  response : List Output → Response
  isActive : List Output → Bool
  taken : List Output → Bytes → Nat

/-- The session whose commands the loop reads. -/
structure Client where
  sessionId : UInt64
  username : Bytes
  deriving DecidableEq, Repr

def commandSize : Nat := 512

inductive Command where
  | quit
  | upload (filename : Bytes) (filesize : UInt64)
  | download (filename : Bytes)
  | delete (filename : Bytes)
  | list
  | invalid
  deriving DecidableEq, Repr

def uploadFormat : List Directive := literals (ascii "UPLOAD") ++ [.space, .string 255, .space, .size]
def downloadFormat : List Directive := literals (ascii "DOWNLOAD") ++ [.space, .string 255]
def deleteFormat : List Directive := literals (ascii "DELETE") ++ [.space, .string 255]

/-- The chain of comparisons on the command buffer. -/
def parseCommand (cmd : Bytes) : Command :=
  if startsWith (ascii "QUIT") cmd then .quit
  else
    match sscanf uploadFormat cmd with
    | [.text filename, .size filesize] => .upload filename filesize
    | _ =>
      match sscanf downloadFormat cmd with
      | [.text filename] => .download filename
      | _ =>
        match sscanf deleteFormat cmd with
        | [.text filename] => .delete filename
        | _ => if startsWith (ascii "LIST") cmd then .list else .invalid

/-- The bytes behind the header in the command buffer: none when the first of them is NUL,
and never more than the size of the file. -/
def leftover (chunk : Bytes) (filesize : Nat) : Bytes :=
  match strchr 10 (cstr chunk) with
  | some d =>
    if (chunk ++ [0])[d + 1]? = some 0 then [] else (chunk.drop (d + 1)).take filesize
  | none => []

/-- The payload of an upload, or the error that is answered, and the socket afterwards. -/
def receiveUpload (filesize : Nat) (chunk : Bytes) (input : Input) : Except Bytes Bytes × Input :=
  let extra := leftover chunk filesize
  if extra.length < filesize then
    let (bytes, got, input) := recvFull (filesize - extra.length) input
    if bytes < 0 then (.error (ascii "UPLOAD ERROR: Network receive error\n"), input)
    else if bytes ≠ (filesize - extra.length : Nat) then
      (.error (ascii "UPLOAD ERROR: Incomplete data transfer\n"), input)
    else (.ok (extra ++ got), input)
  else (.ok extra, input)

/-- The connection and what has been done on it. -/
structure Loop where
  input : Input
  output : List Output
  deriving DecidableEq, Repr

def Loop.emit (l : Loop) (o : Output) : Loop := { l with output := l.output ++ [o] }

def Loop.rest (l : Loop) (input : Input) : Loop := { l with input := input }

@[simp] theorem Loop.emit_input (l : Loop) (o : Output) : (l.emit o).input = l.input := rfl
@[simp] theorem Loop.emit_output (l : Loop) (o : Output) : (l.emit o).output = l.output ++ [o] := rfl
@[simp] theorem Loop.rest_input (l : Loop) (input : Input) : (l.rest input).input = input := rfl
@[simp] theorem Loop.rest_output (l : Loop) (input : Input) : (l.rest input).output = l.output := rfl

inductive Next where
  | again (l : Loop)
  | disconnect (l : Loop)

def Next.loop : Next → Loop
  | .again l => l
  | .disconnect l => l

/-- The message of the response; its `send_full` is only checked for a negative result. -/
def sendResponseMessage (env : Env) (l : Loop) (message : Bytes) : Next :=
  if message.length > 0 then
    if sendFull (env.taken l.output message) message < 0 then .disconnect (l.emit (.sent message))
    else .again (l.emit (.sent message))
  else .again l

/-- From the return of `response_wait` to the end of the loop body. -/
def sendResponse (env : Env) (l : Loop) : Next :=
  let response := env.response l.output
  if !env.isActive l.output then .disconnect l
  else if response.data.length > 0 then
    if sendFull (env.taken l.output response.data) response.data ≠ response.data.length then
      .disconnect (l.emit (.sent response.data))
    else sendResponseMessage env (l.emit (.sent response.data)) response.message
  else sendResponseMessage env l response.message

/-- The task goes to the workers and their response to the client. -/
def submit (env : Env) (l : Loop) (task : Task) : Next :=
  if env.push l.output task then sendResponse env (l.emit (.queued task))
  else .again (l.emit (.sent (ascii "ERROR: Server busy, please try again\n")))

def task (client : Client) (type : TaskType) (filename : Bytes) (filesize : UInt64)
    (data : Option Bytes) : Task :=
  ⟨type, client.sessionId, client.username.take 63, filename, filesize, data⟩

/-- A payload that has arrived becomes a task; an incomplete one is answered. -/
def queueUpload (env : Env) (client : Client) (filename : Bytes) (filesize : UInt64) (l : Loop) :
    Except Bytes Bytes × Input → Next
  | (.error text, input) => .again ((l.rest input).emit (.sent text))
  | (.ok data, input) => submit env (l.rest input) (task client .upload filename filesize (some data))

/-- The loop body from the bytes that `recv` left in the command buffer on. -/
def handleCommand (env : Env) (client : Client) (chunk : Bytes) (l : Loop) : Next :=
  match parseCommand (cstr chunk) with
  | .quit => .disconnect (l.emit (.sent (ascii "Goodbye!\n")))
  | .upload filename filesize =>
    if !env.checkQuota l.output filesize then
      .again (l.emit (.sent (ascii "UPLOAD ERROR: Quota exceeded\n")))
    else if !env.malloc l.output filesize then
      .again (l.emit (.sent (ascii "UPLOAD ERROR: Server memory allocation failed\n")))
    else queueUpload env client filename filesize l (receiveUpload filesize.toNat chunk l.input)
  | .download filename => submit env l (task client .download filename 0 none)
  | .delete filename => submit env l (task client .delete filename 0 none)
  | .list => submit env l (task client .list [] 0 none)
  | .invalid => .again (l.emit (.sent (ascii "ERROR: Invalid command\n")))

/-- One pass of the file operation loop. -/
def iteration (env : Env) (client : Client) (l : Loop) : Next :=
  match recv (commandSize - 1) l.input with
  | (.failed _, input) => .disconnect (l.rest input)
  | (.data [], input) => .disconnect (l.rest input)
  | (.data chunk, input) => handleCommand env client chunk (l.rest input)

def fileLoop (env : Env) (client : Client) : Nat → Loop → Loop
  | 0, l => l
  | fuel + 1, l =>
    match iteration env client l with
    | .disconnect l => l
    | .again l => fileLoop env client fuel l

/-- The tasks and replies of a whole connection. -/
def serve (env : Env) (client : Client) (input : Input) : List Output :=
  (fileLoop env client (inputSize input + 1) ⟨input, []⟩).output

end Stash.Threads
