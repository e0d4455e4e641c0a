import Stash.Client.Upload

/-! The terminal loop of the client, `interactive_session`: it reads a line, and the handler of the
command in it sends, waits for the server and shows what came of it. -/
namespace Stash.Client.Terminal
open Foundation.CText Foundation.Scanf Foundation.Paths Foundation.FileTree
open Utils.NetworkUtils Utils.FullTransfers Threads Handlers

/-- `fgets`: a line with its end, or as much of it as there is room for. -/
def fgets (size : Nat) (stdin : Bytes) : Option (Bytes × Bytes) :=
  if stdin = [] then none
  else
    let room := stdin.take (size - 1)
    let n := match strchr 10 room with
      | some d => d + 1
      | none => room.length
    some (stdin.take n, stdin.drop n)

/-- `line[strcspn(line, "\n")] = 0` -/
def withoutEnd (line : Bytes) : Bytes := (cstr line).takeWhile fun c => c != 10

def lineFormat : List Directive := [.string 63, .space, .string 255]

/-- `command` and `arg1`, which are empty where `sscanf` has not come to them. -/
def words (line : Bytes) : Bytes × Bytes :=
  match sscanf lineFormat line with
  | [.text command, .text arg1] => (command, arg1)
  | [.text command] => (command, [])
  | _ => ([], [])

/-- An argument that is not empty; what `sscanf` has read is a word. -/
def argument (arg1 : Bytes) : Option Filename :=
  if h : (arg1 ≠ [] ∧ arg1.length ≤ 255) ∧ arg1.any isspace = false ∧ (0 : UInt8) ∉ arg1 then
    some ⟨arg1, h.1.1, h.1.2, fun c hc => eq_false_of_ne_true (List.any_eq_false.mp h.2.1 c hc), h.2.2⟩
  else none

/-- What a line asks for. -/
inductive Entry where
  | help
  | upload (path : Filename)
  | download (filename : Filename)
  | delete (filename : Filename)
  | list
  | quit
  /-- A command without its argument. -/
  | usage (command : Bytes)
  | unknown (command : Bytes)

/-- The chain of comparisons on the command. -/
def entry (line : Bytes) : Entry :=
  let command := (words line).1
  let arg1 := (words line).2
  if command = ascii "help" then .help
  else if command = ascii "upload" then (argument arg1).elim (.usage command) .upload
  else if command = ascii "download" then (argument arg1).elim (.usage command) .download
  else if command = ascii "delete" then (argument arg1).elim (.usage command) .delete
  else if command = ascii "list" then .list
  else if command = ascii "quit" ∨ command = ascii "exit" then .quit
  else .unknown command

/-- A command and its argument are read as they stand in the line. -/
theorem words_pair (command : Word 63) (arg1 : Filename) :
    words (command.text ++ 32 :: arg1.text) = (command.text, arg1.text) := by
  have hcommand : scanString 63 (command.text ++ 32 :: arg1.text) = some (command.text, 32 :: arg1.text) := by
    apply scanString_word
    intro c hc
    obtain rfl : (32 : UInt8) = c := Option.some.inj hc
    decide
  have hspace : skipSpace (32 :: arg1.text) = skipSpace arg1.text := List.dropWhile_cons_of_pos (by decide)
  have harg : scanString 255 (skipSpace (32 :: arg1.text)) = some (arg1.text, []) := by
    have hword := @scanString_word 255 arg1 [] (by simp)
    rw [List.append_nil] at hword
    rw [hspace, scanString_skipSpace, hword]
  simp only [words, lineFormat, sscanf, hcommand, harg]

theorem words_single (command : Word 63) : words command.text = (command.text, []) := by
  have hcommand := @scanString_word 63 command [] (by simp)
  rw [List.append_nil] at hcommand
  have hnone : scanString 255 (skipSpace []) = none := rfl
  simp only [words, lineFormat, sscanf, hcommand, hnone]

theorem argument_text (filename : Filename) : argument filename.text = some filename :=
  dif_pos ⟨⟨filename.ne_nil, filename.length_le⟩,
    List.any_eq_false.mpr fun c hc => ne_true_of_eq_false (filename.no_space c hc), filename.no_nul⟩

theorem entry_upload (path : Filename) : entry (ascii "upload" ++ 32 :: path.text) = .upload path := by
  have hwords := words_pair ⟨ascii "upload", by decide, by decide, by decide +kernel, by decide⟩ path
  rw [entry, hwords]
  simp only [argument_text]
  rw [if_neg (by decide), if_pos trivial]
  rfl

theorem entry_download (filename : Filename) : entry (ascii "download" ++ 32 :: filename.text) = .download filename := by
  have hwords := words_pair ⟨ascii "download", by decide, by decide, by decide +kernel, by decide⟩ filename
  rw [entry, hwords]
  simp only [argument_text]
  rw [if_neg (by decide), if_neg (by decide), if_pos trivial]
  rfl

theorem entry_quit : entry (ascii "quit") = .quit := by
  have hwords := words_single ⟨ascii "quit", by decide, by decide, by decide +kernel, by decide⟩
  rw [entry, hwords]
  dsimp only
  rw [if_neg (by decide), if_neg (by decide), if_neg (by decide), if_neg (by decide), if_neg (by decide), if_pos (.inl rfl)]

def Entry.isQuit : Entry → Bool
  | .quit => true
  | _ => false

/-- What the user sees of a line in the end. -/
inductive Shown where
  | help
  | usage (command : Bytes)
  | unknown (command : Bytes)
  | cannotOpen (path : Bytes) (error : Foundation.FileTree.Errno)
  | cannotCreate (filename : Bytes) (error : Foundation.FileTree.Errno)
  | uploaded (success : Bool) (message : Bytes) (totalSent : Nat)
  | downloaded (success : Bool) (message : Bytes) (totalReceived : Nat)
  | deleted (success : Bool) (filename message : Bytes)
  | noFiles
  | files (text : Bytes)
  | nothing
  | ended
  deriving DecidableEq

/-- A handler has shown something without the server, or waits for it. -/
inductive Asked where
  | shown (shown : Shown)
  | waiting (wire : Bytes) (totalSent : Nat)

def downloadCommand (filename : Filename) : Bytes :=
  snprintf cmdBufferSize (ascii "DOWNLOAD " ++ filename.text ++ ascii "\n")

/-- A command that goes out with one `send`, whose result is not looked at. -/
def askOnce (command : Bytes) : List SendResult → Option Asked
  | [result] => (Upload.sendCommand command result).map fun wire => .waiting wire 0
  | _ => none

/-- A handler up to its first `recv`. Directories, and uploads of which a chunk cannot be sent,
are left out. -/
def ask (cwd : Path) (fs : Fs) (sends : List SendResult) : Entry → Option Asked
  | .help => some (.shown .help)
  | .usage command => some (.shown (.usage command))
  | .unknown command => some (.shown (.unknown command))
  | .upload path =>
    match fs.openRead cwd (components path.text) with
    | .error e => some (.shown (.cannotOpen path.text e))
    | .ok .dir => none
    | .ok (.file content) =>
      match Upload.handleUpload path (some content) sends with
      | some out => if out.waits then some (.waiting out.wire out.totalSent) else none
      | none => none
  | .download filename => askOnce (downloadCommand filename) sends
  | .delete filename => askOnce (UserCommand.delete filename).bytes sends
  | .list => askOnce (ascii "LIST\n") sends
  | .quit => askOnce (ascii "QUIT\n") sends

/-- The text in the buffer behind `recv_response`, which writes nothing when the connection ends. -/
def responseIn (memory response : Bytes) : Bytes := cstr (if response = [] then memory else response)

def answered (word : String) (response : Bytes) : Bool :=
  response.length > 0 && (strstr (ascii word) (cstr response)).isSome

/-- The test of `handle_list` on what it has received. -/
def showList (response : Bytes) : Shown :=
  if response = [] then .nothing
  else if (strstr (ascii "No files") (cstr response)).isSome ∨ (cstr response).length < 5 then .noFiles
  else .files (cstr response)

def showDownload (download : Download) : Shown :=
  .downloaded download.success (download.serverMessage.getD (ascii "Connection closed unexpectedly")) download.written.length

/-- A handler from its first `recv` on; it takes all the results that there are. `memory` is what
the buffer holds before. -/
def finish (cwd : Path) (fs : Fs) (totalSent : Nat) (memory : Bytes) (recvs : List Bytes) : Entry → Option (Fs × Shown)
  | .upload _ =>
    match recvs with
    | [response] => some (fs, .uploaded (answered "UPLOAD OK" response) (responseIn memory response) totalSent)
    | _ => none
  | .download filename =>
    match fs.openWrite cwd (components filename.text) with
    | .error e =>
      match handleDownload false memory recvs with
      | .notCreated [] => some (fs, .cannotCreate filename.text e)
      | _ => none
    | .ok p =>
      match handleDownload true memory recvs with
      | .finished download [] => some (fs.insert p (.file download.written), showDownload download)
      | _ => none
  | .delete filename =>
    match recvs with
    | [response] => some (fs, .deleted (answered "DELETE OK" response) filename.text (responseIn memory response))
    | _ => none
  | .list =>
    match recvs with
    | [response] => some (fs, showList response)
    | _ => none
  | .quit => if recvs = [] then some (fs, .ended) else none
  | .help | .usage _ | .unknown _ => none

/-- The terminal, the files of the client, and what the server's loop has done. -/
structure Session where
  stdin : Bytes
  fs : Fs
  output : List Output
  shown : List (Entry × Shown)
  ended : Bool

/-- What the calls of one pass come back with: the results of the sends, the segments in which the
server gets the command, what `recv` gives, and what was in the buffer before. -/
structure Calls where
  sends : List SendResult
  segments : List Bytes
  recvs : List Bytes
  memory : Bytes

instance (segments : List Bytes) (bytes : Bytes) : Decidable (Cut segments bytes) :=
  inferInstanceAs (Decidable (_ ∧ _))

/-- The size of the reads: `recv_response` keeps a byte for the end of the string. -/
def Entry.readSize : Entry → Nat
  | .download _ => bufferSize
  | _ => bufferSize - 1

/-- One pass of the loop, with the pass of the server's loop that answers it: the segments are what
the handler has sent, and what it receives is what the server sends. -/
def step (env : Env) (client : Threads.Client) (cwd : Path) (s : Session) (calls : Calls) : Option Session :=
  if s.ended then none
  else
    match fgets cmdBufferSize s.stdin with
    | none => some { s with ended := true }
    | some (line, rest) =>
      if withoutEnd line = [] then some { s with stdin := rest }
      else
        let e := entry (withoutEnd line)
        match ask cwd s.fs calls.sends e with
        | none => none
        | some (.shown shown) => some { s with stdin := rest, shown := s.shown ++ [(e, shown)] }
        | some (.waiting wire totalSent) =>
          let l := (iteration env client ⟨arrivals calls.segments, s.output⟩).loop
          let reply := sentBytes (l.output.drop s.output.length)
          if Cut calls.segments wire ∧ l.input = [] ∧ (e.isQuit = true ∨ Cut calls.recvs reply) ∧
              ∀ response ∈ calls.recvs, response.length ≤ e.readSize then
            match finish cwd s.fs totalSent calls.memory calls.recvs e with
            | some (fs, shown) => some ⟨rest, fs, l.output, s.shown ++ [(e, shown)], e.isQuit⟩
            | none => none
          else none

/-- What the next line asks for. -/
def Session.next (s : Session) : Option Entry :=
  match fgets cmdBufferSize s.stdin with
  | none => none
  | some (line, _) => if withoutEnd line = [] then none else some (entry (withoutEnd line))

theorem next_of_line {s : Session} {stdin line : Bytes} {e : Entry} (hs : s.stdin = stdin)
    (he : entry line = e) (hline : (fgets cmdBufferSize stdin).map (fun p => withoutEnd p.1) = some line) (hne : line ≠ []) :
    s.next = some e := by
  obtain ⟨⟨read, rest⟩, hread, rfl⟩ := Option.map_eq_some_iff.mp hline
  rw [Session.next, hs, hread, ← he]
  exact if_neg hne

/-- What a pass can do, case by case. -/
inductive Pass (env : Env) (client : Threads.Client) (cwd : Path) (s : Session) (calls : Calls) : Session → Prop
  | stops (hstdin : fgets cmdBufferSize s.stdin = none) : Pass env client cwd s calls { s with ended := true }
  | blank {line rest : Bytes} (hstdin : fgets cmdBufferSize s.stdin = some (line, rest)) :
      Pass env client cwd s calls { s with stdin := rest }
  | shown {rest : Bytes} {e : Entry} {shown : Shown} (hnext : s.next = some e)
      (hask : ask cwd s.fs calls.sends e = some (.shown shown)) :
      Pass env client cwd s calls { s with stdin := rest, shown := s.shown ++ [(e, shown)] }
  | answered {rest wire : Bytes} {totalSent : Nat} {e : Entry} {fs : Fs} {shown : Shown} {l : Loop}
      (hnext : s.next = some e) (hask : ask cwd s.fs calls.sends e = some (.waiting wire totalSent)) (hcut : Cut calls.segments wire)
      (hserver : (iteration env client ⟨arrivals calls.segments, s.output⟩).loop = l) (hread : l.input = [])
      (hreply : e.isQuit = true ∨ Cut calls.recvs (sentBytes (l.output.drop s.output.length)))
      (hfinish : finish cwd s.fs totalSent calls.memory calls.recvs e = some (fs, shown)) :
      Pass env client cwd s calls ⟨rest, fs, l.output, s.shown ++ [(e, shown)], e.isQuit⟩

theorem step_pass {env : Env} {client : Threads.Client} {cwd : Path} {s s' : Session} {calls : Calls}
    (h : step env client cwd s calls = some s') : Pass env client cwd s calls s' := by
  unfold step at h
  split at h
  · cases h
  split at h
  · rename_i hstdin
    obtain rfl := Option.some.inj h
    exact .stops hstdin
  rename_i line rest hstdin
  split at h
  · obtain rfl := Option.some.inj h
    exact .blank hstdin
  rename_i hline
  simp only at h
  have hnext : s.next = some (entry (withoutEnd line)) := by
    rw [Session.next, hstdin]
    exact if_neg hline
  generalize entry (withoutEnd line) = e at h hnext
  split at h
  · cases h
  · rename_i shown hask
    obtain rfl := Option.some.inj h
    exact .shown hnext hask
  · rename_i wire totalSent hask
    split at h
    · rename_i hpass
      split at h
      · rename_i fs shown hfinish
        obtain rfl := Option.some.inj h
        exact .answered hnext hask hpass.1 rfl hpass.2.1 hpass.2.2.1 hfinish
      · cases h
    · cases h

end Stash.Client.Terminal
