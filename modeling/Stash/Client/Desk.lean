import Mathlib.Tactic.IntervalCases
import Stash.Client.Connection
import Stash.Client.Terminal
import Stash.Foundation.Decimals

/-! The terminal of a user who has logged in, with the server behind it: what the user sees, the
files of the client and the drive change as the commands say. -/
namespace Stash.Client.Terminal
open Foundation.CText Foundation.Scanf Foundation.Paths Foundation.FileTree Foundation.Runs Foundation.Traces Foundation.Transfers
open Utils.NetworkUtils Utils.FullTransfers Threads Handlers Connection

/-- The drive of the server and the files of the client by name. -/
structure Desk where
  drive : Drive
  files : Bytes → Option Bytes

/-- What the answer to a download that the server does not have leaves on the client's side: the
text up to the marker is written to the file. -/
def missingPrefix : Bytes := ascii "DOWNLOAD "

/-- What a line shows, and what it does to the drive and to the files. -/
def Desk.Answers (u : Username) (d : Desk) (e : Entry) (shown : Shown) (d' : Desk) : Prop :=
  match e with
  | .help => shown = .help ∧ d' = d
  | .usage command => shown = .usage command ∧ d' = d
  | .unknown command => shown = .unknown command ∧ d' = d
  | .upload path => d'.files = d.files ∧
    match d.files path.text with
    | none => (∃ error, shown = .cannotOpen path.text error) ∧ d'.drive = d.drive
    | some content =>
      if d.drive.charged u.text + content.length ≤ d.drive.limit u.text then
        shown = .uploaded true (ascii "UPLOAD OK\n") content.length ∧
          d.drive.Becomes u.text path.text ⟨some content, some content.length⟩ d'.drive
      else shown = .uploaded false (ascii "UPLOAD ERROR: Quota exceeded\n") content.length ∧ d'.drive = d.drive
  | .download filename => d'.drive = d.drive ∧
    match (d.drive.store u.text filename.text).file with
    | some content => d'.files = Function.update d.files filename.text (some content) ∧
        ∃ stale, shown = .downloaded (content ≠ []) (ascii "\nDOWNLOAD OK" ++ stale) content.length
    | none => d'.files = Function.update d.files filename.text (some missingPrefix) ∧
        shown = .downloaded false (ascii "ERROR: File not found\n") missingPrefix.length
  | .delete filename => d'.files = d.files ∧
    match (d.drive.store u.text filename.text).file with
    | some _ => shown = .deleted true filename.text (ascii "DELETE OK\n") ∧
        d.drive.Becomes u.text filename.text ⟨none, none⟩ d'.drive
    | none => shown = .deleted false filename.text (ascii "DELETE ERROR: File not found\n") ∧ d'.drive = d.drive
  | .list => d' = d ∧ ∃ (names : List Bytes) (text : Bytes), names.Nodup ∧
      (∀ name, name ∈ names ↔ (d.drive.store u.text name).file.isSome ∧ skipped name = false) ∧
      Lists names text ∧ ((lines names).length ≤ 4086 → text = lines names ++ listEnd) ∧ shown = showList text
  | .quit => shown = .ended ∧ d' = d

/-- The files of a directory. -/
def filesIn (home : Path) (fs : Fs) (name : Bytes) : Option Bytes := (fs.node (name :: home)).bind content

/-- The `UPLOAD` line for a file. -/
def uploadHeader (path : Filename) (content : Bytes) : UploadHeader where
  filename := path
  digits := ascii (toString content.length)
  digits_ne := ascii_toString_ne_nil _
  digits_only _ h := isdigit_toString h

theorem size_uploadHeader (path : Filename) (content : Bytes) : content.length = (uploadHeader path content).size :=
  (digitsValue_toString content.length).symm

/-- What the server is asked for. -/
def request (home : Path) (fs : Fs) : Entry → Option Request
  | .upload path => (filesIn home fs path.text).map fun content =>
      .upload (uploadHeader path content) content (size_uploadHeader path content)
  | .download filename => some (.download filename)
  | .delete filename => some (.delete filename)
  | .list => some .list
  | .quit => some .quit
  | .help | .usage _ | .unknown _ => none

/-- A file that is named is one of the working directory. -/
def Entry.Plain : Entry → Prop
  | .upload path => isPlain path.text = true
  | .download filename | .delete filename => isPlain filename.text = true
  | .help | .list | .quit | .usage _ | .unknown _ => True

/-- Reads of the answer to a download that end where it ends: only the last one leaves a marker in
the buffer, and it holds the whole message. -/
inductive Legible (memory : Bytes) : List Bytes → Prop
  | found (earlier : List Bytes) (x : Bytes) (silent : Silent memory earlier) (nul : (0 : UInt8) ∉ x)
      (marker : ¬ ascii "\nDOWNLOAD OK" <:+: x) : Legible memory (earlier ++ [x ++ okMessage])
  | missing (text : Bytes) (ends : cstr (memory.drop text.length) = [])
      (isError : text = ascii "DOWNLOAD ERROR: File not found\n") : Legible memory [text]

/-- The command of the line comes to the server as a command, and a download can be read. -/
def Smooth (env : Env) (client : Threads.Client) (home : Path) (s : Session) (calls : Calls) : Prop :=
  ∀ e, s.next = some e → e.Plain ∧ ∀ r, request home s.fs e = some r →
    (∀ header payload size, r = .upload header payload size → payload.length < 2 ^ 63) ∧
      Framed env client s.output [r] (arrivals calls.segments) ∧
      ∀ filename, e = .download filename → Legible calls.memory calls.recvs

/-- The session between two lines: the server within its quota, and no directory under the name of a file. -/
structure Settled (cwd : Path) (member : Bytes → Prop) (u : Username) (server : Server) (home : Path) (s : Session) :
    Prop where
  within : Within cwd member u (behind cwd server s.output)
  plain : ∀ name, isPlain name = true → s.fs.node (name :: home) ≠ some .dir

def desk (cwd : Path) (server : Server) (home : Path) (s : Session) : Desk :=
  ⟨(behind cwd server s.output).drive cwd, filesIn home s.fs⟩

section
variable {cwd home : Path} {member : Bytes → Prop} {server : Server} {u : Username} {sessionId : UInt64} {fs : Fs}
  {s s' : Session} {calls : Calls} {e : Entry}

theorem iteration_framed {env : Env} {client : Threads.Client} {out : List Output} {r : Request} {input : Input}
    (h : Framed env client out [r] input) : iteration env client ⟨input, out⟩ = perform env client ⟨[], out⟩ r := by
  cases h with
  | line _ _ _ _ single next =>
    cases next
    exact iteration_line env client out [] single
  | accepted _ header payload size _ _ k pieces accepts within taken fits cut next =>
    cases next
    exact iteration_accepted client size accepts within taken fits cut []
  | rejected _ header payload size _ _ rejects fits next =>
    cases next
    exact iteration_rejected_whole client size rejects fits []

/-- The bytes of a framed command. -/
theorem flatten_framed {env : Env} {client : Threads.Client} {out : List Output} {r : Request} {segments : List Bytes}
    (h : Framed env client out [r] (arrivals segments)) : segments.flatten = r.bytes := by
  generalize hinput : arrivals segments = input at h
  have hdata : Function.Injective RecvEvent.data := fun a b hab => RecvEvent.data.inj hab
  have hback : ∀ pieces : List Bytes, arrivals segments = arrivals pieces → segments.flatten = pieces.flatten :=
    fun _ hpieces => by rw [List.map_injective_iff.mpr hdata hpieces]
  cases h with
  | line _ _ _ _ single next =>
    cases next
    exact (hback [r.bytes] hinput).trans (by simp)
  | accepted _ header payload size _ _ k pieces accepts within taken fits cut next =>
    cases next
    rw [List.append_nil] at hinput
    rw [hback ((header.line ++ payload.take k) :: pieces) hinput, List.flatten_cons, cut.2, List.append_assoc,
      List.take_append_drop]
    rfl
  | rejected _ header payload size _ _ rejects fits next =>
    cases next
    exact (hback [header.line ++ payload] hinput).trans (by simp [Request.bytes])

/-- The pass of the server's loop that answers a command. -/
theorem pass_answers (h : Within cwd member u (behind cwd server s.output)) (hmember : member u.text)
    (hu : isPlain u.text = true) {r : Request} (hr : Allowed r) {input : Input}
    (hframed : Framed (serverEnv cwd server u.text) ⟨sessionId, u.text⟩ s.output [r] input) {l : Loop}
    (hl : (iteration (serverEnv cwd server u.text) ⟨sessionId, u.text⟩ ⟨input, s.output⟩).loop = l) :
    Within cwd member u (behind cwd server l.output) ∧
      ((behind cwd server s.output).drive cwd).Answers u r (sentBytes (l.output.drop s.output.length))
        ((behind cwd server l.output).drive cwd) := by
  obtain ⟨later, hlater⟩ := iteration_output (serverEnv cwd server u.text) ⟨sessionId, u.text⟩ ⟨input, s.output⟩
  rw [hl] at hlater
  change s.output ++ later = l.output at hlater
  have hnew : l.output.drop s.output.length = later := by rw [← hlater, List.drop_left]
  rw [hnew]
  rw [iteration_framed hframed] at hl
  by_cases hquit : r = .quit
  · subst hquit
    have hout : l.output = s.output ++ [.sent (ascii "Goodbye!\n")] := by rw [← hl]; rfl
    have hsame : behind cwd server l.output = behind cwd server s.output := by rw [hout, behind_sent]
    rw [hout] at hlater
    obtain rfl := List.append_cancel_left hlater
    rw [hsame]
    exact ⟨h, rfl, rfl⟩
  · obtain ⟨l', reply, hl', hsent, hwithin, hanswer⟩ := perform_answers sessionId h hmember hu hr hquit
    rw [hl'] at hl
    obtain rfl : l' = l := hl
    rw [← hlater, sentBytes, List.flatMap_append] at hsent
    obtain rfl := List.append_cancel_left hsent
    exact ⟨hwithin, hanswer⟩

theorem name_of_plain {name : Bytes} (h : isPlain name = true) : isName name = true := (Bool.and_eq_true_iff.mp h).1

theorem locate_plain {name : Bytes} (h : isPlain name = true) (special : Foundation.FileTree.Errno) :
    fs.locate home (components name) special = .ok (name :: home) := by
  rw [components_plain h, Fs.locate]
  change (if isName name = true then _ else _) = _
  rw [if_pos (name_of_plain h)]
  rfl

theorem openRead_plain {name : Bytes} (h : isPlain name = true) : fs.openRead home (components name) =
    match fs.node (name :: home) with
    | some n => .ok n
    | none => .error .enoent := by
  have hname : isName ((components name).getLastD []) = true := by
    rw [components_plain h]
    exact name_of_plain h
  rw [Fs.openRead, if_pos hname, locate_plain h]
  rfl

theorem openWrite_plain {name : Bytes} (h : isPlain name = true) (hdir : fs.node (name :: home) ≠ some .dir) :
    fs.openWrite home (components name) = .ok (name :: home) := by
  rw [Fs.openWrite, locate_plain h]
  -- The file may be there or not; `hdir` rules the directory out.
  simp only [Except.bind]

theorem filesIn_insert (name data : Bytes) :
    filesIn home (fs.insert (name :: home) (.file data)) = Function.update (filesIn home fs) name (some data) := by
  funext other
  by_cases hother : other = name
  · subst hother
    simp [filesIn, content]
  · simp [filesIn, hother]

theorem basename_plain {path : Bytes} (h : isPlain path = true) : basename path = path := by
  have hslash : slash ∉ path := by simpa [isPlain] using (Bool.and_eq_true_iff.mp h).2
  have hall : path.reverse.takeWhile (fun c => c != slash) = path.reverse := by
    refine List.takeWhile_eq_self_iff.mpr fun c hc => ?_
    have hne : c ≠ slash := fun heq => hslash (heq ▸ List.mem_reverse.mp hc)
    simpa using hne
  rw [basename, hall, List.reverse_reverse]

/-- The command of an upload is not cut. -/
theorem uploadCommand_plain {path : Filename} {data : Bytes} (h : isPlain path.text = true) (hlt : data.length < 2 ^ 63) :
    Upload.uploadCommand path data.length = (uploadHeader path data).line := by
  have hdigits := length_toString_le (n := data.length) (k := 19) (by decide) (Nat.lt_trans hlt (by decide))
  have hpath := path.length_le
  have h7 : (ascii "UPLOAD ").length = 7 := by decide
  have h1 : (ascii " ").length = 1 := by decide
  have hend : (ascii "\n").length = 1 := by decide
  rw [Upload.uploadCommand, basename_plain h]
  refine snprintf_of_lt ?_
  change (ascii "UPLOAD " ++ path.text ++ ascii " " ++ ascii (toString data.length) ++ ascii "\n").length < 512
  simp only [List.length_append, h7, h1, hend]
  omega

/-- What the loop of an upload counts is what it puts on the connection, and no more than the file. -/
theorem handleUpload_total {path : Filename} {data : Bytes} {results : List SendResult} {out : Upload.Outcome}
    (h : Upload.handleUpload path (some data) results = some out) :
    out.totalSent ≤ data.length ∧ out.wire.length ≤ (Upload.uploadCommand path data.length).length + out.totalSent := by
  cases results with
  | nil => cases h
  | cons result behind =>
    obtain ⟨wire, hwire, h⟩ := Option.bind_eq_some_iff.mp h
    obtain ⟨⟨t, rest⟩, hloop, h⟩ := Option.bind_eq_some_iff.mp h
    obtain rfl := Option.some.inj h
    have hle := (Upload.sendCommand_eq (Upload.uploadCommand_ne_nil path data.length) hwire).1
    have hends : Transfer.Ended Upload.sendLoop (fun _ t => t.totalSent + t.left.length ≤ data.length ∧
        t.wire.length = wire.length + t.totalSent) rest t := by
      refine Transfer.loop_rule ?_ ?_ ⟨Nat.le_of_eq (Nat.zero_add _), rfl⟩ hloop
      · intro result left t _ hagain
        cases result <;> cases hagain
      · rintro result left t n t' ⟨hsum, hput⟩ _ hadvance
        obtain ⟨⟨_, hn⟩, hnext⟩ := Option.ite_none_right_eq_some.mp hadvance
        obtain rfl := Option.some.inj hnext
        rw [List.length_take] at hn
        simp only [List.length_drop, List.length_append, List.length_take]
        omega
    have hcount : t.totalSent + t.left.length ≤ data.length ∧ t.wire.length = wire.length + t.totalSent := by
      cases hends with
      | finished hdone hinv => exact hinv
      | stopped last hstop hshort hinv => exact hinv
    simp only
    omega

/-- A download that is read up to the end of the file writes the file. -/
theorem downloadLoop_legible {memory x : Bytes} {earlier : List Bytes} (hne : ∀ chunk ∈ earlier, chunk ≠ [])
    (hsilent : Silent memory earlier) (hnul : (0 : UInt8) ∉ x) (hmarker : ¬ ascii "\nDOWNLOAD OK" <:+: x) :
    ∃ stale, downloadLoop memory [] (earlier ++ [x ++ okMessage]) =
      some (⟨earlier.flatten ++ x, some (ascii "\nDOWNLOAD OK" ++ stale)⟩, []) := by
  have hfound := (endMarker_reply x (overlayAll memory earlier)).mpr ⟨hnul, hmarker⟩
  obtain ⟨stale, hstr⟩ := cstr_overlay_reply hnul (overlayAll memory earlier)
  have htake : (overlay (x ++ okMessage) (overlayAll memory earlier)).take x.length = x := by
    rw [overlay, List.append_assoc, List.take_left]
  refine ⟨stale, ?_⟩
  rw [downloadLoop_silent hne hsilent, List.nil_append]
  cases hlast : x ++ okMessage with
  | nil =>
    have hempty := (List.append_eq_nil_iff.mp hlast).2
    exact absurd hempty (by decide)
  | cons c tail =>
    rw [hlast] at hfound hstr htake
    simp only [downloadLoop, hfound, htake, hstr]
    rw [List.append_assoc, List.drop_left]

/-- The answer for a file that is not there leaves the text before the marker. -/
theorem downloadLoop_missing {memory : Bytes}
    (hends : cstr (memory.drop (ascii "DOWNLOAD ERROR: File not found\n").length) = []) :
    downloadLoop memory [] [ascii "DOWNLOAD ERROR: File not found\n"] =
      some (⟨missingPrefix, some (ascii "ERROR: File not found\n")⟩, []) := by
  have htext : cstr (overlay (ascii "DOWNLOAD ERROR: File not found\n") memory) = ascii "DOWNLOAD ERROR: File not found\n" := by
    rw [overlay, cstr_append (by decide), hends, List.append_nil]
  have hmarker : endMarker (overlay (ascii "DOWNLOAD ERROR: File not found\n") memory) = some 9 := by
    rw [endMarker, htext]
    decide
  have hlist : ascii "DOWNLOAD ERROR: File not found\n" = 68 :: (ascii "DOWNLOAD ERROR: File not found\n").tail := by decide
  have hwritten : (overlay (ascii "DOWNLOAD ERROR: File not found\n") memory).take 9 = missingPrefix := by
    rw [overlay, List.take_append_of_le_length (by decide)]
    decide
  rw [hlist, downloadLoop, ← hlist]
  · simp only [hmarker, hwritten, htext, List.nil_append]
    rfl
  · exact List.cons_ne_nil _ _

/-- The two answers to a download end differently. -/
theorem reply_ne_missing (data : Bytes) : data ++ okMessage ≠ ascii "DOWNLOAD ERROR: File not found\n" := by
  intro h
  have hsuffix : okMessage <:+ ascii "DOWNLOAD ERROR: File not found\n" := ⟨data, h⟩
  exact absurd hsuffix (by decide)

theorem askOnce_ne_shown (command : Bytes) (sends : List SendResult) (shown : Shown) :
    askOnce command sends ≠ some (.shown shown) := by
  intro h
  unfold askOnce at h
  split at h
  · obtain ⟨wire, _, hwire⟩ := Option.map_eq_some_iff.mp h
    cases hwire
  · cases h

/-- A handler that has a file to send, or nothing to look up, asks the server. -/
theorem request_of_waiting {sends : List SendResult} {wire : Bytes} {totalSent : Nat} (hplain : e.Plain)
    (h : ask home fs sends e = some (.waiting wire totalSent)) : ∃ r, request home fs e = some r := by
  cases e with
  | upload path =>
    rw [ask, openRead_plain hplain] at h
    cases hnode : fs.node (path.text :: home) with
    | none => simp [hnode] at h
    | some n =>
      cases n with
      | dir => simp [hnode] at h
      | file data => exact ⟨_, by simp only [request, filesIn, hnode]; rfl⟩
  | download filename => exact ⟨_, rfl⟩
  | delete filename => exact ⟨_, rfl⟩
  | list => exact ⟨_, rfl⟩
  | quit => exact ⟨_, rfl⟩
  | help => cases h
  | usage command => cases h
  | unknown command => cases h

/-- What is shown without the server is what the line deserves. -/
theorem answers_shown {shown : Shown} (d : Drive) (hplain : e.Plain) (hask : ask home fs calls.sends e = some (.shown shown)) :
    Desk.Answers u ⟨d, filesIn home fs⟩ e shown ⟨d, filesIn home fs⟩ := by
  cases e with
  | help => cases hask; exact ⟨rfl, rfl⟩
  | usage command => cases hask; exact ⟨rfl, rfl⟩
  | unknown command => cases hask; exact ⟨rfl, rfl⟩
  | upload path =>
    rw [ask, openRead_plain hplain] at hask
    cases hnode : fs.node (path.text :: home) with
    | none =>
      simp only [hnode, Option.some.injEq, Asked.shown.injEq] at hask
      subst hask
      have hfile : filesIn home fs path.text = none := by simp [filesIn, hnode]
      simp only [Desk.Answers, hfile]
      exact ⟨trivial, ⟨_, rfl⟩, trivial⟩
    | some n =>
      cases n with
      | dir => simp [hnode] at hask
      | file data =>
        simp only [hnode] at hask
        split at hask
        · split at hask <;> simp at hask
        · cases hask
  | download filename => exact absurd hask (askOnce_ne_shown _ _ _)
  | delete filename => exact absurd hask (askOnce_ne_shown _ _ _)
  | list => exact absurd hask (askOnce_ne_shown _ _ _)
  | quit => exact absurd hask (askOnce_ne_shown _ _ _)

theorem single_reply {recvs : List Bytes} {response reply : Bytes} (hcut : Cut recvs reply) (hsingle : recvs = [response]) :
    response = reply := by
  rw [← hcut.2, hsingle, List.flatten_singleton]

section Answers
variable {d d' : Drive} {wire memory reply : Bytes} {totalSent : Nat} {fs' : Fs} {shown : Shown} {recvs : List Bytes}

theorem answers_upload {path : Filename} {r : Request} (hplain : isPlain path.text = true)
    (hrequest : request home fs (.upload path) = some r)
    (hsize : ∀ header payload size, r = .upload header payload size → payload.length < 2 ^ 63)
    (hask : ask home fs calls.sends (.upload path) = some (.waiting wire totalSent)) (hbytes : wire = r.bytes)
    (hcut : Cut recvs reply) (hfinish : finish home fs totalSent memory recvs (.upload path) = some (fs', shown))
    (hanswer : d.Answers u r reply d') :
    fs' = fs ∧ Desk.Answers u ⟨d, filesIn home fs⟩ (.upload path) shown ⟨d', filesIn home fs⟩ := by
  obtain ⟨data, hfile, rfl⟩ := Option.map_eq_some_iff.mp hrequest
  have hlt := hsize _ _ _ rfl
  -- All of the file has been sent.
  have htotal : totalSent = data.length := by
    rw [ask, openRead_plain hplain] at hask
    obtain ⟨n, hnode, hdata⟩ := Option.bind_eq_some_iff.mp hfile
    cases n with
    | dir => cases hdata
    | file data' =>
      obtain rfl : data' = data := Option.some.inj hdata
      simp only [hnode] at hask
      split at hask
      · rename_i out hout
        split at hask
        · obtain ⟨rfl, rfl⟩ : out.wire = wire ∧ out.totalSent = totalSent := by simpa using hask
          obtain ⟨hle, hput⟩ := handleUpload_total hout
          rw [hbytes, uploadCommand_plain hplain hlt, Request.bytes, List.length_append] at hput
          omega
        · cases hask
      · cases hask
  subst htotal
  simp only [finish] at hfinish
  split at hfinish
  · rename_i response
    obtain rfl := single_reply hcut rfl
    obtain ⟨rfl, rfl⟩ := Prod.mk.inj (Option.some.inj hfinish)
    refine ⟨rfl, rfl, ?_⟩
    simp only [hfile]
    change if d.charged u.text + data.length ≤ d.limit u.text then _ else _ at hanswer
    split at hanswer
    · rename_i hfits
      obtain ⟨rfl, hbecomes⟩ := hanswer
      rw [if_pos hfits]
      exact ⟨rfl, hbecomes⟩
    · rename_i hfits
      obtain ⟨rfl, rfl⟩ := hanswer
      rw [if_neg hfits]
      exact ⟨rfl, rfl⟩
  · cases hfinish

theorem answers_download {filename : Filename} (hplain : isPlain filename.text = true)
    (hdir : fs.node (filename.text :: home) ≠ some .dir) (hcut : Cut recvs reply) (hlegible : Legible memory recvs)
    (hfinish : finish home fs totalSent memory recvs (.download filename) = some (fs', shown))
    (hanswer : d.Answers u (.download filename) reply d') :
    (∃ data, fs' = fs.insert (filename.text :: home) (.file data)) ∧
      Desk.Answers u ⟨d, filesIn home fs⟩ (.download filename) shown ⟨d', filesIn home fs'⟩ := by
  rw [finish, openWrite_plain hplain hdir] at hfinish
  simp only [handleDownload, if_true] at hfinish
  obtain ⟨rfl, hreply⟩ := hanswer
  cases hlegible with
  | found earlier x silent nul marker =>
    have hne : ∀ chunk ∈ earlier, chunk ≠ [] := fun chunk hchunk => hcut.1 chunk (List.mem_append_left _ hchunk)
    obtain ⟨stale, hloop⟩ := downloadLoop_legible hne silent nul marker
    rw [hloop] at hfinish
    obtain ⟨rfl, rfl⟩ := Prod.mk.inj (Option.some.inj hfinish)
    have hflat : earlier.flatten ++ x ++ okMessage = reply := by
      rw [← hcut.2, List.flatten_append, List.flatten_singleton, List.append_assoc]
    cases hfile : (d'.store u.text filename.text).file with
    | some data =>
      rw [hfile] at hreply
      have hdata : earlier.flatten ++ x = data := List.append_cancel_right (hflat.trans hreply)
      subst hdata
      refine ⟨⟨_, rfl⟩, rfl, ?_⟩
      simp only [hfile, filesIn_insert, true_and]
      refine ⟨stale, ?_⟩
      simp only [showDownload, Download.success, strstr_ok_message, Option.getD_some, Bool.and_true, List.length_pos_iff]
    | none =>
      rw [hfile] at hreply
      exact absurd (hflat.trans hreply) (reply_ne_missing _)
  | missing text ends isError =>
    subst isError
    have hflat : ascii "DOWNLOAD ERROR: File not found\n" = reply := by rw [← hcut.2, List.flatten_singleton]
    rw [downloadLoop_missing ends] at hfinish
    obtain ⟨rfl, rfl⟩ := Prod.mk.inj (Option.some.inj hfinish)
    cases hfile : (d'.store u.text filename.text).file with
    | some data =>
      rw [hfile] at hreply
      exact absurd (hflat.trans hreply).symm (reply_ne_missing data)
    | none =>
      refine ⟨⟨_, rfl⟩, rfl, ?_⟩
      simp only [hfile, filesIn_insert, true_and]
      decide

theorem answers_delete {filename : Filename} (hcut : Cut recvs reply)
    (hfinish : finish home fs totalSent memory recvs (.delete filename) = some (fs', shown))
    (hanswer : d.Answers u (.delete filename) reply d') :
    fs' = fs ∧ Desk.Answers u ⟨d, filesIn home fs⟩ (.delete filename) shown ⟨d', filesIn home fs⟩ := by
  simp only [finish] at hfinish
  split at hfinish
  · rename_i response
    obtain rfl := single_reply hcut rfl
    obtain ⟨rfl, rfl⟩ := Prod.mk.inj (Option.some.inj hfinish)
    refine ⟨rfl, rfl, ?_⟩
    cases hfile : (d.store u.text filename.text).file with
    | some data =>
      simp only [Drive.Answers, hfile] at hanswer
      obtain ⟨rfl, hbecomes⟩ := hanswer
      exact ⟨rfl, hbecomes⟩
    | none =>
      simp only [Drive.Answers, hfile] at hanswer
      obtain ⟨rfl, rfl⟩ := hanswer
      exact ⟨rfl, rfl⟩
  · cases hfinish

theorem answers_list (hcut : Cut recvs reply) (hfinish : finish home fs totalSent memory recvs .list = some (fs', shown))
    (hanswer : d.Answers u .list reply d') :
    fs' = fs ∧ Desk.Answers u ⟨d, filesIn home fs⟩ .list shown ⟨d', filesIn home fs⟩ := by
  simp only [finish] at hfinish
  split at hfinish
  · rename_i response
    obtain rfl := single_reply hcut rfl
    obtain ⟨rfl, rfl⟩ := Prod.mk.inj (Option.some.inj hfinish)
    obtain ⟨rfl, names, hnodup, hnames, hlists, hwhole⟩ := hanswer
    exact ⟨rfl, rfl, names, response, hnodup, hnames, hlists, hwhole, rfl⟩
  · cases hfinish

end Answers

/-- What a pass keeps, and what it shows. -/
theorem settled_step (h : Settled cwd member u server home s) (hmember : member u.text) (hu : isPlain u.text = true)
    (hsmooth : Smooth (serverEnv cwd server u.text) ⟨sessionId, u.text⟩ home s calls)
    (hstep : step (serverEnv cwd server u.text) ⟨sessionId, u.text⟩ home s calls = some s') :
    Settled cwd member u server home s' ∧ ∃ later, s'.shown = s.shown ++ later ∧
      Meets (Desk.Answers u) (desk cwd server home s) later (desk cwd server home s') := by
  cases step_pass hstep with
  | stops => exact ⟨⟨h.within, h.plain⟩, [], (List.append_nil _).symm, .nil _⟩
  | blank => exact ⟨⟨h.within, h.plain⟩, [], (List.append_nil _).symm, .nil _⟩
  | shown hnext hask =>
    exact ⟨⟨h.within, h.plain⟩, _, rfl, .cons (answers_shown _ (hsmooth _ hnext).1 hask) (.nil _)⟩
  | @answered rest wire totalSent e fs shown l hnext hask hcut hserver hread hreply hfinish =>
    obtain ⟨hplain, hrequests⟩ := hsmooth e hnext
    obtain ⟨r, hr⟩ := request_of_waiting hplain hask
    obtain ⟨hsize, hframed, hlegible⟩ := hrequests r hr
    have hallowed : Allowed r := by
      cases e with
      | upload path =>
        obtain ⟨data, _, rfl⟩ := Option.map_eq_some_iff.mp hr
        exact ⟨hplain, hsize _ _ _ rfl⟩
      | download filename => cases hr; exact hplain
      | delete filename => cases hr; exact hplain
      | list => cases hr; trivial
      | quit => cases hr; trivial
      | help => cases hr
      | usage command => cases hr
      | unknown command => cases hr
    have hbytes : wire = r.bytes := hcut.2.symm.trans (flatten_framed hframed)
    obtain ⟨hwithin, hanswer⟩ := pass_answers h.within hmember hu hallowed hframed hserver
    have hwhole : e.isQuit = false → Cut calls.recvs (sentBytes (l.output.drop s.output.length)) :=
      fun hquit => hreply.resolve_left (by simp [hquit])
    have hdone : (∀ name, isPlain name = true → fs.node (name :: home) ≠ some .dir) ∧
        Desk.Answers u (desk cwd server home s) e shown ⟨(behind cwd server l.output).drive cwd, filesIn home fs⟩ := by
      cases e with
      | upload path =>
        obtain ⟨rfl, hanswers⟩ := answers_upload hplain hr hsize hask hbytes (hwhole rfl) hfinish hanswer
        exact ⟨h.plain, hanswers⟩
      | download filename =>
        cases hr
        obtain ⟨⟨data, rfl⟩, hanswers⟩ :=
          answers_download hplain (h.plain _ hplain) (hwhole rfl) (hlegible filename rfl) hfinish hanswer
        refine ⟨fun name hname => ?_, hanswers⟩
        rw [Fs.node_insert]
        split
        · simp
        · exact h.plain name hname
      | delete filename =>
        cases hr
        obtain ⟨rfl, hanswers⟩ := answers_delete (hwhole rfl) hfinish hanswer
        exact ⟨h.plain, hanswers⟩
      | list =>
        cases hr
        obtain ⟨rfl, hanswers⟩ := answers_list (hwhole rfl) hfinish hanswer
        exact ⟨h.plain, hanswers⟩
      | quit =>
        cases hr
        obtain ⟨_, hdrive⟩ := hanswer
        simp only [finish] at hfinish
        obtain ⟨_, hfinish⟩ := Option.ite_none_right_eq_some.mp hfinish
        obtain ⟨rfl, rfl⟩ := Prod.mk.inj (Option.some.inj hfinish)
        refine ⟨h.plain, rfl, ?_⟩
        rw [hdrive]
        rfl
      | help => cases hr
      | usage command => cases hr
      | unknown command => cases hr
    exact ⟨⟨hwithin, hdone.1⟩, [(e, shown)], rfl, .cons hdone.2 (.nil _)⟩

end

/-- The file "report" of alice's client, an upload and two downloads. -/
def deskStart : Session where
  stdin := ascii "upload report\ndownload report\ndownload memo\nquit\n"
  fs := ⟨[([ascii "report"], .file (ascii "abc"))], by decide⟩
  output := []
  shown := []
  ended := false

def memo : Filename := ⟨ascii "memo", by decide, by decide, by decide +kernel, by decide⟩

def deskPasses : List Calls :=
  [⟨[.sent 16, .sent 3], [ascii "UPLOAD report 3\n", ascii "abc"], [ascii "UPLOAD OK\n"], []⟩,
    ⟨[.sent 16], [ascii "DOWNLOAD report\n"], [ascii "abc\nDOWNLOAD OK\n"], []⟩,
    ⟨[.sent 14], [ascii "DOWNLOAD memo\n"], [ascii "DOWNLOAD ERROR: File not found\n"], []⟩,
    ⟨[.sent 5], [ascii "QUIT\n"], [], []⟩]

def deskStep : Session → Calls → Option Session := step (serverEnv [] freshServer nameAlice.text) ⟨1, nameAlice.text⟩ []

theorem deskPasses_end : (run deskStep deskStart deskPasses).map
    (fun s => (s.shown.map Prod.snd, filesIn [] s.fs (ascii "report"), filesIn [] s.fs (ascii "memo"), s.ended)) =
      some ([.uploaded true (ascii "UPLOAD OK\n") 3, .downloaded true (ascii "\nDOWNLOAD OK\n") 3,
        .downloaded false (ascii "ERROR: File not found\n") 9, .ended], some (ascii "abc"), some missingPrefix, true) := by
  decide +kernel

/-- What is left of the lines before each pass. -/
def deskLines : List Bytes :=
  [ascii "upload report\ndownload report\ndownload memo\nquit\n", ascii "download report\ndownload memo\nquit\n",
    ascii "download memo\nquit\n", ascii "quit\n"]

theorem deskPasses_stdin : ∀ k < 4, (run deskStep deskStart (deskPasses.take k)).map Session.stdin = deskLines[k]? := by
  decide +kernel

theorem smooth_line {env : Env} {client : Threads.Client} {home : Path} {s : Session} {calls : Calls} {e : Entry} {r : Request}
    (hnext : s.next = some e) (hplain : e.Plain) (hr : request home s.fs e = some r)
    (hsingle : ∀ header payload size, r ≠ .upload header payload size) (hsegments : calls.segments = [r.bytes])
    (hlegible : ∀ filename, e = .download filename → Legible calls.memory calls.recvs) : Smooth env client home s calls := by
  intro e' he'
  obtain rfl := Option.some.inj (hnext.symm.trans he')
  refine ⟨hplain, fun r' hr' => ?_⟩
  obtain rfl := Option.some.inj (hr.symm.trans hr')
  refine ⟨fun header payload size heq => absurd heq (hsingle header payload size), ?_, hlegible⟩
  rw [hsegments]
  exact .line _ _ _ _ hsingle (.done _)

theorem smooth_upload : Smooth (serverEnv [] freshServer nameAlice.text) ⟨1, nameAlice.text⟩ [] deskStart
    ⟨[.sent 16, .sent 3], [ascii "UPLOAD report 3\n", ascii "abc"], [ascii "UPLOAD OK\n"], []⟩ := by
  intro e he
  have hnext : deskStart.next = some (.upload report) := next_of_line rfl (entry_upload report) (by decide +kernel) (by decide)
  obtain rfl := Option.some.inj (hnext.symm.trans he)
  have hfile : filesIn [] deskStart.fs report.text = some (ascii "abc") := by decide +kernel
  refine ⟨(show isPlain report.text = true by decide), fun r hr => ?_⟩
  rw [request, hfile] at hr
  obtain rfl := Option.some.inj hr
  refine ⟨fun header payload size heq => ?_, ?_, fun filename => Entry.noConfusion⟩
  · cases heq
    decide
  · exact .accepted [] _ (ascii "abc") (size_uploadHeader _ _) [] [] 0 [ascii "abc"] ⟨by decide +kernel, by decide +kernel⟩
      (Nat.zero_le _) (.inl rfl) (by decide +kernel) ⟨by decide, by decide⟩ (.done _)

theorem deskPasses_smooth : Along deskStep (Smooth (serverEnv [] freshServer nameAlice.text) ⟨1, nameAlice.text⟩ [])
    deskStart deskPasses := by
  refine along_of_take fun k calls s hcalls hs => ?_
  have hk : k < 4 := (List.getElem?_eq_some_iff.mp hcalls).1
  have hstdin := deskPasses_stdin k hk
  rw [hs] at hstdin
  have hline : ∀ {line : Bytes}, deskLines[k]? = some line → s.stdin = line := fun hline =>
    Option.some.inj (hstdin.trans hline)
  interval_cases k
  · obtain rfl := Option.some.inj hcalls
    obtain rfl : deskStart = s := Option.some.inj hs
    exact smooth_upload
  · obtain rfl := Option.some.inj hcalls
    have hnext : s.next = some (.download report) :=
      next_of_line (hline rfl) (entry_download report) (by decide +kernel) (by decide)
    refine smooth_line hnext (show isPlain report.text = true by decide) rfl (by simp) rfl fun _ _ => ?_
    exact .found [] (ascii "abc") trivial (by decide) (by decide)
  · obtain rfl := Option.some.inj hcalls
    have hnext : s.next = some (.download memo) :=
      next_of_line (hline rfl) (entry_download memo) (by decide +kernel) (by decide)
    refine smooth_line hnext (show isPlain memo.text = true by decide) rfl (by simp) rfl fun _ _ => ?_
    exact .missing (ascii "DOWNLOAD ERROR: File not found\n") (by rw [List.drop_nil]; rfl) rfl
  · obtain rfl := Option.some.inj hcalls
    have hnext : s.next = some .quit := next_of_line (hline rfl) entry_quit (by decide +kernel) (by decide)
    exact smooth_line hnext trivial rfl (by simp) rfl fun _ => Entry.noConfusion

end Stash.Client.Terminal
