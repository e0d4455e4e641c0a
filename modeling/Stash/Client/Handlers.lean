import Stash.Client.AuthDialog
import Stash.Threads.Listing
import Stash.Threads.Segmentation

/-! The handlers of the client for upload, delete and list, each with its single `recv_response`,
and the file operation loop that answers them. The socket holds what was sent and not received;
a `recv` takes any beginning of it, so every segmentation of the replies is a run. -/
namespace Stash.Client.Handlers
open Foundation Foundation.CText Foundation.Scanf Foundation.Runs Foundation.Paths Foundation.FileTree
open Utils.NetworkUtils Threads Auth

/-- A line of the terminal that sends something. The size of an upload is what `ftell` returned,
its content what the sends behind the command put on the wire. -/
inductive UserCommand where
  | upload (path : Filename) (filesize : Int) (content : Bytes)
  | delete (filename : Filename)
  | list

/-- The part behind the last slash. -/
def basename (path : Bytes) : Bytes := (path.reverse.takeWhile fun c => c != slash).reverse

def cmdBufferSize : Nat := 512

/-- What the handler sends. -/
def UserCommand.bytes : UserCommand → Bytes
  | .upload path filesize content =>
    snprintf cmdBufferSize
      (ascii "UPLOAD " ++ basename path.text ++ ascii " " ++ ascii (toString filesize) ++ ascii "\n") ++ content
  | .delete filename => snprintf cmdBufferSize (ascii "DELETE " ++ filename.text ++ ascii "\n")
  | .list => ascii "LIST\n"

/-- The rest of the server behind one pass of the loop: the checks, and the worker that takes the
task. The names in a directory are C strings. -/
structure Backend (client : Threads.Client) where
  quota : Bool
  malloc : Bool
  push : Bool
  cwd : Path
  calls : Calls
  server : Server
  entries : ∀ names, (makeDirs cwd calls (client.username.take 63) server.fs).opendir cwd
    (userPath (client.username.take 63)) = .ok names → ∀ name ∈ names, (0 : UInt8) ∉ name

namespace Backend
variable {client : Threads.Client} (b : Backend client)

/-- The connection takes what it is given, and the response is the worker's. -/
def env : Env where
  checkQuota _ _ := b.quota
  malloc _ n := b.malloc && decide (n.toNat < 2 ^ 63)
  malloc_bound _ _ h := of_decide_eq_true (Bool.and_eq_true_iff.mp h).2
  push _ _ := b.push
  response out :=
    match out.getLast? with
    | some (.queued task) => (workerWorker b.cwd b.calls b.server task).2
    | _ => ⟨.success, [], []⟩
  isActive _ := true
  taken _ text := text.length

/-- The payload that the pass still has to receive when it has read the command. -/
def waitsFor (chunk : Bytes) : Nat :=
  match parseCommand (cstr chunk) with
  | .upload _ filesize => if b.quota && b.env.malloc [] filesize then missing chunk filesize else 0
  | _ => 0

/-- One pass of the file operation loop; `rest` is on the socket behind the command. -/
def pass (chunk rest : Bytes) : Next := handleCommand b.env client chunk ⟨[.data rest], []⟩

end Backend

def sentBytes (output : List Output) : Bytes := output.flatMap onSocket

/-- `replies` and `examined` are the history: what the server has sent in each pass, and the
texts that the handlers have looked at. -/
structure State where
  waiting : Bool
  serving : Bool
  toServer : Bytes
  toClient : Bytes
  replies : List Bytes
  examined : List Bytes
  deriving DecidableEq

inductive Move (client : Threads.Client) where
  | issue (command : UserCommand)
  | pass (b : Backend client) (k : Nat)
  | recv (k : Nat)

def start : State := ⟨false, true, [], [], [], []⟩

def Next.serving : Next → Bool
  | .again _ => true
  | .disconnect _ => false

/-- A pass is taken when the payload that it waits for is there. -/
def step {client : Threads.Client} (s : State) : Move client → Option State
  | .issue command =>
    if s.waiting then none else some { s with waiting := true, toServer := s.toServer ++ command.bytes }
  | .pass b k =>
    if s.serving ∧ 0 < k ∧ k ≤ commandSize - 1 ∧ k ≤ s.toServer.length ∧
        b.waitsFor (s.toServer.take k) ≤ (s.toServer.drop k).length then
      let next := b.pass (s.toServer.take k) (s.toServer.drop k)
      some { s with
        serving := Next.serving next
        toServer := pending next.loop.input
        toClient := s.toClient ++ sentBytes next.loop.output
        replies := s.replies ++ [sentBytes next.loop.output] }
    else none
  | .recv k =>
    if s.waiting ∧ 0 < k ∧ k ≤ bufferSize - 1 ∧ k ≤ s.toClient.length then
      some { s with
        waiting := false, toClient := s.toClient.drop k, examined := s.examined ++ [cstr (s.toClient.take k)] }
    else none

/-- The texts are the replies, one for each command in the order of the commands, and behind a
handler nothing is left to read on either side. -/
structure InStep (s : State) : Prop where
  answered : s.examined <+: s.replies
  settled : s.waiting = false → s.examined = s.replies ∧ s.toClient = [] ∧ s.toServer = []

/-- The server has read all that the client sent and has answered once when the handler calls
`recv`, and the call takes all that is in flight. -/
def WholeReply {client : Threads.Client} (s : State) : Move client → Prop
  | .recv k => s.toServer = [] ∧ s.replies.length = s.examined.length + 1 ∧ k = s.toClient.length
  | _ => True

/-- A text that one `recv_response` can hand over as it was sent. -/
structure Readable (text : Bytes) : Prop where
  ne_nil : text ≠ []
  no_nul : (0 : UInt8) ∉ text
  length_le : text.length ≤ bufferSize - 1

instance (text : Bytes) : Decidable (Readable text) :=
  decidable_of_iff (text ≠ [] ∧ (0 : UInt8) ∉ text ∧ text.length ≤ bufferSize - 1)
    ⟨fun h => ⟨h.1, h.2.1, h.2.2⟩, fun h => ⟨h.ne_nil, h.no_nul, h.length_le⟩⟩

section Worker
variable {cwd : Path} {calls : Calls} {s : Server} {task : Task}

/-- What a client thread sends of a response. -/
def responseText (response : Response) : Bytes := response.data ++ response.message

private theorem readable_acquire {command : String} {response : Response}
    (huser : Readable (ascii (command ++ " FAILED: User not found\n")))
    (hlock : Readable (ascii (command ++ " FAILED: Could not acquire file lock\n")))
    (h : acquire calls s task command = .error response) : Readable (responseText response) := by
  rcases acquire_refused h with rfl | rfl
  · exact huser
  · exact hlock

private theorem readable_uploadOpenError (e : FileTree.Errno) : Readable (responseText (uploadOpenError e)) := by
  cases e <;> decide

private theorem readable_deleteError (e : FileTree.Errno) : Readable (responseText (deleteError e)) := by
  cases e <;> decide

private theorem readable_listOpenError (e : FileTree.Errno) : Readable (responseText (listOpenError e)) := by
  cases e <;> decide

theorem readable_upload : Readable (responseText (taskUpload cwd calls s task).2) := by
  unfold taskUpload
  split
  · rename_i response hopen
    rcases attempted_refused hopen with hacquire | ⟨e, rfl⟩
    · exact readable_acquire (by decide +kernel) (by decide +kernel) hacquire
    · exact readable_uploadOpenError e
  · unfold writeUpload
    dsimp only
    split
    · show Readable (ascii "UPLOAD OK\n")
      decide
    · show Readable (ascii "UPLOAD ERROR: File write failed\n")
      decide

theorem readable_delete : Readable (responseText (taskDelete cwd calls s task).2) := by
  unfold taskDelete
  split
  · rename_i response hremove
    rcases attempted_refused hremove with hacquire | ⟨e, rfl⟩
    · exact readable_acquire (by decide +kernel) (by decide +kernel) hacquire
    · exact readable_deleteError e
  · show Readable (ascii "DELETE OK\n")
    decide

theorem readable_listData {names : List Bytes} (h : ∀ name ∈ names, (0 : UInt8) ∉ name) :
    Readable (listData names) := by
  have hbuffer : listBufferSize = 4096 := rfl
  obtain ⟨listed, hlisted, hlist, hlength, _⟩ := listNames_spec [] names (Nat.zero_le _)
  rw [List.nil_append] at hlist hlength
  refine ⟨?_, ?_, (length_listData names).trans (by decide)⟩
  · rw [listData_eq hlist, Ne, List.append_eq_nil_iff, List.take_eq_nil_iff]
    rintro ⟨-, hzero | hnil⟩
    · omega
    · exact absurd hnil (by decide)
  · rw [listData_eq hlist, List.mem_append, lines, List.mem_flatMap]
    rintro (⟨name, hname, hmem⟩ | hmem)
    · have hin : name ∈ names := List.mem_of_mem_filter (hlisted.subset hname)
      rcases List.mem_append.mp hmem with hmem | hmem
      · exact h name hin hmem
      · exact absurd hmem (by decide)
    · exact absurd (List.mem_of_mem_take hmem) (by decide)

theorem readable_list
    (h : ∀ names, s.fs.opendir cwd (userPath task.username) = .ok names → ∀ name ∈ names, (0 : UInt8) ∉ name) :
    Readable (responseText (taskList cwd calls s task)) := by
  unfold taskList
  split
  · exact by decide
  · split
    · exact readable_listOpenError _
    · rename_i names hopen
      split
      · rw [responseText, List.append_nil]
        exact readable_listData fun name hname =>
          h names (attempt_ok.mp hopen).2 name (List.mem_of_mem_take hname)
      · exact by decide

/-- Every response but that to a download is a text that a handler can read. -/
theorem readable_worker (hdownload : task.type ≠ .download)
    (h : ∀ names, (makeDirs cwd calls task.username s.fs).opendir cwd (userPath task.username) = .ok names →
      ∀ name ∈ names, (0 : UInt8) ∉ name) : Readable (responseText (workerWorker cwd calls s task).2) := by
  unfold workerWorker
  dsimp only
  split
  · exact readable_upload
  · rename_i htype
    exact absurd htype hdownload
  · exact readable_delete
  · exact readable_list h

end Worker

section Pass
variable {client : Threads.Client} {b : Backend client} {chunk rest : Bytes}

/-- What a task is answered with. -/
def Backend.answer (b : Backend client) (task : Threads.Task) : Bytes :=
  if b.push then responseText (workerWorker b.cwd b.calls b.server task).2
  else ascii "ERROR: Server busy, please try again\n"

theorem sentBytes_emit (l : Loop) (text : Bytes) : sentBytes (l.emit (.sent text)).output = sentBytes l.output ++ text := by
  rw [Loop.emit_output, sentBytes, List.flatMap_append]
  simp [sentBytes, onSocket]

private theorem sent_message (l : Loop) (message : Bytes) :
    sentBytes (sendResponseMessage b.env l message).loop.output = sentBytes l.output ++ message := by
  unfold sendResponseMessage
  split
  · split
    · exact sentBytes_emit l message
    · exact sentBytes_emit l message
  · rename_i hempty
    rw [List.length_eq_zero_iff.mp (Nat.eq_zero_of_not_pos hempty), List.append_nil]
    rfl

private theorem sent_response (l : Loop) (task : Threads.Task) :
    sentBytes (sendResponse b.env (l.emit (.queued task))).loop.output =
      sentBytes l.output ++ responseText (workerWorker b.cwd b.calls b.server task).2 := by
  have hresponse : b.env.response (l.emit (.queued task)).output = (workerWorker b.cwd b.calls b.server task).2 := by
    simp [Backend.env]
  have hqueued : sentBytes (l.emit (.queued task)).output = sentBytes l.output := by
    simp [sentBytes, onSocket]
  unfold sendResponse responseText
  dsimp only
  rw [hresponse]
  generalize (workerWorker b.cwd b.calls b.server task).2 = response
  have hactive : b.env.isActive (l.emit (.queued task)).output = true := rfl
  rw [hactive]
  simp only [Bool.not_true, Bool.false_eq_true, if_false]
  split
  · rename_i hdata
    have hfull : sendFull (b.env.taken (l.emit (.queued task)).output response.data) response.data =
        response.data.length := by
      have htaken : b.env.taken (l.emit (.queued task)).output response.data = response.data.length := rfl
      rw [sendFull, if_neg (List.length_pos_iff.mp hdata), htaken, Nat.min_self]
    rw [if_neg (not_not.mpr hfull), sent_message, sentBytes_emit, hqueued, List.append_assoc]
  · rename_i hempty
    rw [List.length_eq_zero_iff.mp (Nat.eq_zero_of_not_pos hempty), sent_message, hqueued, List.nil_append]

theorem sent_submit (l : Loop) (task : Threads.Task) :
    sentBytes (submit b.env l task).loop.output = sentBytes l.output ++ b.answer task := by
  unfold submit Backend.answer
  change sentBytes (if b.push = true then _ else _ : Next).loop.output = _
  split
  · exact sent_response l task
  · exact sentBytes_emit l _

theorem readable_answer {type : TaskType} {filename : Bytes} {filesize : UInt64} {data : Option Bytes}
    (hdownload : type ≠ .download) : Readable (b.answer (Threads.task client type filename filesize data)) := by
  unfold Backend.answer
  split
  · exact readable_worker hdownload b.entries
  · decide

private theorem readable_sent {input : Input} {text : Bytes} (h : Readable text) :
    Readable (sentBytes (Loop.emit ⟨input, []⟩ (.sent text)).output) := by
  rw [sentBytes_emit]
  exact h

/-- A pass that does not take its command for a download sends one text that a handler can read. -/
theorem readable_pass (hdownload : ∀ filename, parseCommand (cstr chunk) ≠ .download filename) :
    Readable (sentBytes (b.pass chunk rest).loop.output) := by
  unfold Backend.pass handleCommand
  split
  · exact readable_sent (by decide)
  · rename_i filename filesize _
    split
    · exact readable_sent (by decide)
    split
    · exact readable_sent (by decide)
    cases hupload : receiveUpload filesize.toNat chunk [.data rest] with
    | mk result input =>
      cases result with
      | error text =>
        rcases receiveUpload_error hupload with rfl | rfl
        · exact readable_sent (by decide)
        · exact readable_sent (by decide)
      | ok data =>
        rw [queueUpload, sent_submit]
        exact readable_answer (by decide)
  · rename_i filename hparse
    exact absurd hparse (hdownload filename)
  · rw [sent_submit]
    exact readable_answer (by decide)
  · rw [sent_submit]
    exact readable_answer (by decide)
  · exact readable_sent (by decide)

end Pass

/-- Only a text that begins with the word is taken for a download. -/
theorem download_word {cmd filename : Bytes} (h : parseCommand cmd = .download filename) : ascii "DOWNLOAD" <+: cmd := by
  apply Decidable.byContradiction
  intro hword
  have hscan : sscanf downloadFormat cmd = [] := sscanf_literals_mismatch _ hword
  unfold parseCommand at h
  split at h
  · cases h
  · split at h
    · cases h
    · rw [hscan] at h
      dsimp only at h
      split at h
      · cases h
      · split at h
        · cases h
        · cases h

theorem take_bytes (command : UserCommand) : command.bytes.take 2 ≠ ascii "DO" := by
  cases command with
  | upload path filesize content =>
    rw [show (UserCommand.upload path filesize content).bytes.take 2 = ascii "UP" from rfl]
    decide
  | delete filename =>
    rw [show (UserCommand.delete filename).bytes.take 2 = ascii "DE" from rfl]
    decide
  | list => decide

/-- No beginning of what a handler sends is taken for a download. -/
theorem not_download {command : UserCommand} {chunk : Bytes} (h : chunk <+: command.bytes) (filename : Bytes) :
    parseCommand (cstr chunk) ≠ .download filename := by
  intro hparse
  have hword : ascii "DOWNLOAD" <+: command.bytes := ((download_word hparse).trans (cstr_isPrefix chunk)).trans h
  obtain ⟨rest, hrest⟩ := hword
  apply take_bytes command
  rw [← hrest]
  rfl

/-- What holds in every reached state: what is in flight to the client are the replies that no
handler has examined, and the first of them answers what the waiting handler has sent. -/
structure Tracked (s : State) : Prop extends InStep s where
  flow : s.toClient = (s.replies.drop s.examined.length).flatten
  asked : s.waiting = true → s.replies.length = s.examined.length → ∃ command : UserCommand, s.toServer = command.bytes
  readable : s.replies.length = s.examined.length + 1 → Readable s.toClient

theorem tracked_start : Tracked start where
  answered := List.prefix_refl []
  settled _ := ⟨rfl, rfl, rfl⟩
  flow := rfl
  asked h := absurd h Bool.false_ne_true
  readable h := absurd h (by decide)

section Steps
variable {client : Threads.Client} {s s' : State}

theorem step_issue {command : UserCommand} (h : step s (.issue command : Move client) = some s') :
    s.waiting = false ∧ s' = { s with waiting := true, toServer := s.toServer ++ command.bytes } := by
  unfold step at h
  cases hw : s.waiting with
  | true =>
    rw [hw] at h
    cases h
  | false =>
    rw [hw] at h
    exact ⟨rfl, (Option.some.inj h).symm⟩

theorem step_pass {b : Backend client} {k : Nat} (h : step s (.pass b k) = some s') :
    0 < k ∧ k ≤ s.toServer.length ∧
      s' = { s with
        serving := Next.serving (b.pass (s.toServer.take k) (s.toServer.drop k))
        toServer := pending (b.pass (s.toServer.take k) (s.toServer.drop k)).loop.input
        toClient := s.toClient ++ sentBytes (b.pass (s.toServer.take k) (s.toServer.drop k)).loop.output
        replies := s.replies ++ [sentBytes (b.pass (s.toServer.take k) (s.toServer.drop k)).loop.output] } := by
  simp only [step] at h
  split at h
  · rename_i hk
    exact ⟨hk.2.1, hk.2.2.2.1, (Option.some.inj h).symm⟩
  · cases h

theorem step_recv {k : Nat} (h : step s (.recv k : Move client) = some s') :
    s.waiting = true ∧ k ≤ s.toClient.length ∧
      s' = { s with
        waiting := false, toClient := s.toClient.drop k, examined := s.examined ++ [cstr (s.toClient.take k)] } := by
  simp only [step] at h
  split at h
  · rename_i hk
    exact ⟨hk.1, hk.2.2.2, (Option.some.inj h).symm⟩
  · cases h

theorem Tracked.issue (h : Tracked s) {command : UserCommand} (hs : step s (.issue command : Move client) = some s') :
    Tracked s' := by
  obtain ⟨hwaiting, rfl⟩ := step_issue hs
  obtain ⟨hall, hclient, hserver⟩ := h.settled hwaiting
  refine ⟨⟨h.answered, fun hw => absurd hw (by simp)⟩, h.flow, fun _ _ => ⟨command, ?_⟩, h.readable⟩
  change s.toServer ++ command.bytes = command.bytes
  rw [hserver, List.nil_append]

/-- The first pass behind a command reads from its beginning. -/
theorem Tracked.pass (h : Tracked s) {b : Backend client} {k : Nat} (hs : step s (.pass b k) = some s') :
    Tracked s' := by
  obtain ⟨hpos, hk, rfl⟩ := step_pass hs
  have hwaiting : s.waiting = true := by
    cases hw : s.waiting with
    | true => rfl
    | false =>
      rw [(h.settled hw).2.2, List.length_nil] at hk
      omega
  have hle := h.answered.length_le
  refine ⟨⟨h.answered.trans (List.prefix_append _ _), fun hw => ?_⟩, ?_, fun _ hlen => ?_, fun hlen => ?_⟩
  · rw [hwaiting] at hw
    cases hw
  · dsimp only
    rw [List.drop_append_of_le_length hle, List.flatten_append, ← h.flow, List.flatten_singleton]
  · rw [List.length_append, List.length_singleton] at hlen
    dsimp only at hlen
    omega
  · dsimp only at hlen ⊢
    rw [List.length_append, List.length_singleton, Nat.add_right_cancel_iff] at hlen
    obtain ⟨command, hcommand⟩ := h.asked hwaiting hlen
    rw [h.flow, List.drop_eq_nil_of_le hlen.le, List.flatten_nil, List.nil_append]
    apply readable_pass
    rw [hcommand]
    exact not_download (List.take_prefix k command.bytes)

/-- A handler that takes its whole reply is in step behind it. -/
theorem Tracked.recv (h : Tracked s) {k : Nat} (hs : step s (.recv k : Move client) = some s')
    (hwhole : WholeReply s (.recv k : Move client)) : Tracked s' := by
  obtain ⟨hwaiting, hk, rfl⟩ := step_recv hs
  obtain ⟨hserver, hlen, rfl⟩ := hwhole
  have hreadable := h.readable hlen
  have hall : s.examined ++ [s.toClient] = s.replies := by
    obtain ⟨rest, hrest⟩ := h.answered
    have hflow := h.flow
    rw [← hrest, List.drop_left] at hflow
    rw [← hrest, List.length_append, Nat.add_left_cancel_iff] at hlen
    obtain ⟨reply, rfl⟩ := List.length_eq_one_iff.mp hlen
    rw [hflow, List.flatten_singleton, hrest]
  have hexamined : s.examined ++ [cstr (s.toClient.take s.toClient.length)] = s.replies := by
    rw [List.take_length, cstr_of_no_nul hreadable.no_nul, hall]
  have hnone : s.toClient.drop s.toClient.length = [] := List.drop_length
  refine ⟨⟨hexamined ▸ List.prefix_refl _, fun _ => ⟨hexamined, hnone, hserver⟩⟩, ?_, ?_, ?_⟩
  · dsimp only
    rw [hnone, hexamined, List.drop_length, List.flatten_nil]
  · exact fun hw => absurd hw (by simp)
  · dsimp only
    rw [hexamined]
    omega

theorem Tracked.next (h : Tracked s) {a : Move client} (hwhole : WholeReply s a) (hs : step s a = some s') :
    Tracked s' := by
  cases a with
  | issue command => exact h.issue hs
  | pass b k => exact h.pass hs
  | recv k => exact h.recv hs hwhole

/-- Only a whole reply leaves client and server in step. -/
theorem wholeReply_of_inStep {a : Move client} (hs : step s a = some s') (h : InStep s') : WholeReply s a := by
  cases a with
  | issue command => trivial
  | pass b k => trivial
  | recv k =>
    obtain ⟨_, hk, rfl⟩ := step_recv hs
    obtain ⟨hall, hclient, hserver⟩ := h.settled rfl
    refine ⟨hserver, ?_, ?_⟩
    · have hlen := congrArg List.length hall
      rw [List.length_append, List.length_singleton] at hlen
      exact hlen.symm
    · exact Nat.le_antisymm hk (List.drop_eq_nil_iff.mp hclient)

end Steps

/-- The buffer of a handler has room for a whole reply. -/
theorem whole_reply_enabled (client : Threads.Client) {s : State} (h : Tracked s) (hwaiting : s.waiting = true)
    (hlen : s.replies.length = s.examined.length + 1) :
    (step s (.recv s.toClient.length : Move client)).isSome = true := by
  have hreadable := h.readable hlen
  have hpos := List.length_pos_iff.mpr hreadable.ne_nil
  simp only [step]
  rw [if_pos ⟨hwaiting, hpos, hreadable.length_le, Nat.le_refl _⟩]
  rfl

/-- In every run of a session, with any commands and any segmentation of the replies, client and
server stay in step if and only if every handler's `recv` takes one whole reply. -/
theorem in_step_iff (client : Threads.Client) (moves : List (Move client)) :
    Always step InStep start moves ↔ Along step WholeReply start moves := by
  have hkeep : ∀ s (a : Move client) t, Tracked s → WholeReply s a → step s a = some t → Tracked t :=
    fun _ _ _ h hwhole hs => h.next hwhole hs
  exact always_iff_along hkeep (fun _ h => h.toInStep) (fun _ _ _ _ hs hin => wholeReply_of_inStep hs hin)
    tracked_start

theorem emptyAlice_entries (names : List Bytes)
    (h : (makeDirs [] .succeeding (alice.username.take 63) emptyAlice.fs).opendir []
      (userPath (alice.username.take 63)) = .ok names) : ∀ name ∈ names, (0 : UInt8) ∉ name := by
  have hempty : (makeDirs [] .succeeding (alice.username.take 63) emptyAlice.fs).opendir []
      (userPath (alice.username.take 63)) = .ok [] := by decide +kernel
  rw [Except.ok.inj (h.symm.trans hempty)]
  exact fun name hname => absurd hname List.not_mem_nil

/-- A server on which alice has no file. -/
def emptyHanded : Backend alice := ⟨true, true, true, [], .succeeding, emptyAlice, emptyAlice_entries⟩

/-- The reply to `list` arrives in two segments. -/
def splitReply : List (Move alice) :=
  [.issue .list, .pass emptyHanded 5, .recv 4, .issue (.delete report), .pass emptyHanded 14, .recv 5]

/-- The handler of `delete` reads the rest of the reply to `list`. -/
theorem split_list_reply :
    ¬ ∀ (client : Threads.Client) (moves : List (Move client)), Always step InStep start moves := by
  intro h
  have hrun : run step start splitReply = some ⟨false, true, [], ascii "DELETE ERROR: File not found\n",
      [ascii "LIST END\n", ascii "DELETE ERROR: File not found\n"], [ascii "LIST", ascii " END\n"]⟩ := by
    decide +kernel
  have hanswered := ((h alice splitReply).last hrun).answered
  revert hanswered
  decide

end Stash.Client.Handlers
