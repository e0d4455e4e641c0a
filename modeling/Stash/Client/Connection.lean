import Stash.Client.Handlers
import Stash.Threads.Grammar
import Stash.Threads.QuotaGate
import Stash.Threads.QuotaStore

/-! One connection of a user who has logged in, with the workers and the database behind it. Its
client gets the answers of a store with a quota. -/
namespace Stash.Client.Connection
open Foundation.CText Foundation.Paths Foundation.FileTree Foundation.Traces Utils.NetworkUtils Threads Auth
open Handlers (sentBytes responseText)

/-- The server when the tasks that the loop has queued are done. -/
def behind (cwd : Path) (server : Server) (out : List Output) : Server :=
  out.foldl
    (fun s o => match o with
      | .queued task => (workerWorker cwd .succeeding s task).1
      | .sent _ => s)
    server

/-- A worker takes each task when it is queued, the checks read the database as it then is, and
the connection takes what it is given. -/
def serverEnv (cwd : Path) (server : Server) (username : Bytes) : Env where
  checkQuota out n := userCheckQuota .none (behind cwd server out).db.tables username n
  malloc _ n := decide (n.toNat ≤ 2 ^ 63 - 1)
  malloc_bound _ _ h := Nat.lt_of_le_of_lt (of_decide_eq_true h) (by decide)
  push _ _ := true
  response out :=
    match out.getLast? with
    | some (.queued task) => (workerWorker cwd .succeeding (behind cwd server out.dropLast) task).2
    | _ => ⟨.success, [], []⟩
  isActive _ := true
  taken _ text := text.length

/-- The commands up to the first `QUIT`. -/
def heard : List Request → List Request
  | [] => []
  | .quit :: _ => [.quit]
  | r :: requests => r :: heard requests

/-- A command on a plain name, with a payload that a buffer can hold. -/
def Allowed : Request → Prop
  | .upload header payload _ => isPlain header.filename.text = true ∧ payload.length < 2 ^ 63
  | .download filename | .delete filename => isPlain filename.text = true
  | .list | .quit => True

/-- The user is registered and has no more than the quota allows, which fits a signed number. -/
structure Within (cwd : Path) (member : Bytes → Prop) (u : Username) (s : Server) : Prop
    extends Serving cwd member s where
  within : (s.drive cwd).charged u.text ≤ (s.drive cwd).limit u.text
  limit_lt : (s.drive cwd).limit u.text < 2 ^ 63

section
variable {cwd : Path} {member : Bytes → Prop} {server s : Server} {u : Username} {sessionId : UInt64} {out : List Output}

theorem behind_append (out later : List Output) :
    behind cwd server (out ++ later) = behind cwd (behind cwd server out) later := List.foldl_append ..

theorem behind_sent (text : Bytes) : behind cwd server (out ++ [.sent text]) = behind cwd server out := by
  rw [behind_append]
  rfl

theorem behind_queued (task : Task) :
    behind cwd server (out ++ [.queued task]) = (workerWorker cwd .succeeding (behind cwd server out) task).1 := by
  rw [behind_append]
  rfl

theorem message_sends (cwd : Path) (server : Server) (u : Username) (l : Loop) (message : Bytes) :
    ∃ l', sendResponseMessage (serverEnv cwd server u.text) l message = .again l' ∧
      sentBytes l'.output = sentBytes l.output ++ message ∧ behind cwd server l'.output = behind cwd server l.output := by
  unfold sendResponseMessage
  split
  · rename_i hlong
    have hsent : ¬ sendFull ((serverEnv cwd server u.text).taken l.output message) message < 0 := by
      have htaken : (serverEnv cwd server u.text).taken l.output message = message.length := rfl
      rw [sendFull, if_neg (List.length_pos_iff.mp hlong), htaken, Nat.min_self]
      omega
    rw [if_neg hsent]
    exact ⟨_, rfl, Handlers.sentBytes_emit l message, behind_sent message⟩
  · rename_i hempty
    rw [List.length_eq_zero_iff.mp (Nat.eq_zero_of_not_pos hempty), List.append_nil]
    exact ⟨l, rfl, rfl, rfl⟩

/-- The response of a worker reaches the client whole. -/
theorem submit_sends (cwd : Path) (server : Server) (u : Username) (l : Loop) (task : Task) :
    ∃ l', submit (serverEnv cwd server u.text) l task = .again l' ∧
      sentBytes l'.output = sentBytes l.output ++
        responseText (workerWorker cwd .succeeding (behind cwd server l.output) task).2 ∧
      behind cwd server l'.output = (workerWorker cwd .succeeding (behind cwd server l.output) task).1 := by
  have hpush : (serverEnv cwd server u.text).push l.output task = true := rfl
  have hresponse : (serverEnv cwd server u.text).response (l.emit (.queued task)).output =
      (workerWorker cwd .succeeding (behind cwd server l.output) task).2 := by
    simp [serverEnv]
  have hactive : (serverEnv cwd server u.text).isActive (l.emit (.queued task)).output = true := rfl
  have hqueued : sentBytes (l.emit (.queued task)).output = sentBytes l.output := by
    simp [sentBytes, onSocket]
  have hbehind : behind cwd server (l.emit (.queued task)).output =
      (workerWorker cwd .succeeding (behind cwd server l.output) task).1 := behind_queued task
  rw [submit, if_pos hpush, sendResponse]
  simp only [hresponse, hactive, Bool.not_true, Bool.false_eq_true, if_false]
  generalize (workerWorker cwd .succeeding (behind cwd server l.output) task).2 = response
  split
  · rename_i hdata
    have hfull : sendFull ((serverEnv cwd server u.text).taken (l.emit (.queued task)).output response.data)
        response.data = response.data.length := by
      have htaken : (serverEnv cwd server u.text).taken (l.emit (.queued task)).output response.data =
          response.data.length := rfl
      rw [sendFull, if_neg (List.length_pos_iff.mp hdata), htaken, Nat.min_self]
    rw [if_neg (not_not.mpr hfull)]
    obtain ⟨l', hl', hsent, hl⟩ := message_sends cwd server u ((l.emit (.queued task)).emit (.sent response.data)) response.message
    refine ⟨l', hl', ?_, ?_⟩
    · rw [hsent, Handlers.sentBytes_emit, hqueued, List.append_assoc]
      rfl
    · rw [hl, ← hbehind]
      exact behind_sent _
  · rename_i hempty
    obtain ⟨l', hl', hsent, hl⟩ := message_sends cwd server u (l.emit (.queued task)) response.message
    refine ⟨l', hl', ?_, hl.trans hbehind⟩
    rw [hsent, hqueued, responseText, List.length_eq_zero_iff.mp (Nat.eq_zero_of_not_pos hempty), List.nil_append]

/-- The size in the header of a payload that a buffer can hold. -/
theorem filesize_eq {header : UploadHeader} {payload : Bytes} (hsize : payload.length = header.size)
    (hlt : payload.length < 2 ^ 63) : header.filesize = UInt64.ofNat payload.length := by
  rw [UploadHeader.filesize, strtoul_of_lt (by rw [← UploadHeader.size, ← hsize]; omega), hsize]
  rfl

/-- The check of an upload says whether the payload fits the quota. -/
theorem check_iff (h : Within cwd member u s) (hmember : member u.text) {payload : Bytes} (hlt : payload.length < 2 ^ 63) :
    userCheckQuota .none s.db.tables u.text (UInt64.ofNat payload.length) = true ↔
      (s.drive cwd).charged u.text + payload.length ≤ (s.drive cwd).limit u.text := by
  obtain ⟨user, huser⟩ : ∃ user, s.db.tables.user u.text = some user := by
    have hid := h.registered u.text hmember
    rw [Tables.userId_eq, Option.isSome_map] at hid
    exact Option.isSome_iff_exists.mp hid
  have hcharged : (s.drive cwd).charged u.text = user.quotaUsed := by
    simp only [Server.drive, Tables.quotaUsed_eq, huser]
    rfl
  have hlimit : (s.drive cwd).limit u.text = user.quotaLimit := by
    simp only [Server.drive, huser]
    rfl
  have hwithin := h.within
  have hlimit_lt := h.limit_lt
  rw [hcharged, hlimit] at hwithin
  rw [hlimit] at hlimit_lt
  have hn : (UInt64.ofNat payload.length).toNat = payload.length := UInt64.toNat_ofNat_of_lt' (hlt.trans (by decide))
  rw [userCheckQuota_iff huser (by omega) hlimit_lt, hn, Nat.mod_eq_of_lt (by omega), hcharged, hlimit]

theorem Within.becomes (h : Within cwd member u s) {s' : Server} (hserving : Serving cwd member s') {filename : Bytes}
    {w : World} (hbecomes : (s.drive cwd).Becomes u.text filename w (s'.drive cwd))
    (hfits : (s.drive cwd).charged u.text + w.row.getD 0 ≤ (s.drive cwd).limit u.text) : Within cwd member u s' where
  toServing := hserving
  within := by
    have hused := hbecomes.used
    rw [hbecomes.limits]
    omega
  limit_lt := by
    rw [hbecomes.limits]
    exact h.limit_lt

theorem Within.stays (h : Within cwd member u s) {s' : Server} (hserving : Serving cwd member s')
    (hsame : s'.drive cwd = s.drive cwd) : Within cwd member u s' :=
  ⟨hserving, hsame ▸ h.within, hsame ▸ h.limit_lt⟩

/-- What the loop writes for the tasks of a session. -/
theorem task_upload (payload : Payload) (result : WriteResult) (f : Filename) :
    (FileTask.upload payload result).task sessionId u f =
      task ⟨sessionId, u.text⟩ .upload f.text (UInt64.ofNat payload.bytes.length) (some payload.bytes) := by
  have hname : u.text.take 63 = u.text := List.take_of_length_le u.length_le
  simp only [task, hname, FileTask.task, Job.task]

theorem task_download (f : Filename) :
    FileTask.download.task sessionId u f = task ⟨sessionId, u.text⟩ .download f.text 0 none := by
  have hname : u.text.take 63 = u.text := List.take_of_length_le u.length_le
  simp only [task, hname, FileTask.task]

theorem task_delete (f : Filename) :
    FileTask.delete.task sessionId u f = task ⟨sessionId, u.text⟩ .delete f.text 0 none := by
  have hname : u.text.take 63 = u.text := List.take_of_length_le u.length_le
  simp only [task, hname, FileTask.task, Job.task]

/-- An upload of which every byte is written. -/
theorem effect_whole {payload : Payload} (w : World) : (FileTask.upload payload ⟨none, false⟩).effect w =
    (⟨some payload.bytes, some payload.bytes.length⟩, uploadOk) := by
  have hwrote : (⟨none, false⟩ : WriteResult).calls.wrote payload.bytes = true := by
    simp [Calls.wrote, Calls.written, WriteResult.calls]
  simp only [FileTask.effect, hwrote, if_true, stored_of_wrote hwrote]

/-- A file command that is queued. -/
theorem submit_file (sessionId : UInt64) (h : Within cwd member u (behind cwd server out)) (hmember : member u.text)
    (hu : isPlain u.text = true) {f : Filename} (hf : isPlain f.text = true) (t : FileTask) (hcalls : t.calls = .succeeding) :
    let effect := t.effect ((behind cwd server out).store cwd u.text f.text)
    ∃ l, submit (serverEnv cwd server u.text) ⟨[], out⟩ (t.task sessionId u f) = .again l ∧
      sentBytes l.output = sentBytes out ++ responseText effect.2 ∧ Serving cwd member (behind cwd server l.output) ∧
      ((behind cwd server out).drive cwd).Becomes u.text f.text effect.1 ((behind cwd server l.output).drive cwd) := by
  intro effect
  obtain ⟨hserving, hbecomes, hresponse⟩ := file_drive h.toServing hmember hu hf sessionId t
  rw [hcalls] at hserving hbecomes hresponse
  obtain ⟨l, hl, hsent, hbehind⟩ := submit_sends cwd server u ⟨[], out⟩ (t.task sessionId u f)
  refine ⟨l, hl, ?_, ?_, ?_⟩
  · rw [hsent, hresponse]
  · rw [hbehind]
    exact hserving
  · rw [hbehind]
    exact hbecomes

/-- A command other than `QUIT` is answered as the drive answers it, and the loop goes on. -/
theorem perform_answers (sessionId : UInt64) (h : Within cwd member u (behind cwd server out)) (hmember : member u.text)
    (hu : isPlain u.text = true) {r : Request} (hr : Allowed r) (hquit : r ≠ .quit) :
    ∃ l reply, perform (serverEnv cwd server u.text) ⟨sessionId, u.text⟩ ⟨[], out⟩ r = .again l ∧
      sentBytes l.output = sentBytes out ++ reply ∧ Within cwd member u (behind cwd server l.output) ∧
      ((behind cwd server out).drive cwd).Answers u r reply ((behind cwd server l.output).drive cwd) := by
  cases r with
  | quit => exact absurd rfl hquit
  | upload header payload size =>
    obtain ⟨hplain, hlt⟩ := hr
    have hfilesize := filesize_eq size hlt
    have hcheck := check_iff h hmember hlt
    have hmalloc : (serverEnv cwd server u.text).malloc out header.filesize = true := by
      have hn : (UInt64.ofNat payload.length).toNat = payload.length := UInt64.toNat_ofNat_of_lt' (hlt.trans (by decide))
      rw [hfilesize]
      exact decide_eq_true (by rw [hn]; omega)
    by_cases hquota : ((behind cwd server out).drive cwd).charged u.text + payload.length ≤
        ((behind cwd server out).drive cwd).limit u.text
    · have hpasses : (serverEnv cwd server u.text).checkQuota out header.filesize = true := by
        rw [hfilesize]
        exact hcheck.mpr hquota
      have hperform : perform (serverEnv cwd server u.text) ⟨sessionId, u.text⟩ ⟨[], out⟩ (.upload header payload size) =
          submit (serverEnv cwd server u.text) ⟨[], out⟩ ((FileTask.upload ⟨payload, hlt⟩ ⟨none, false⟩).task sessionId u
            header.filename) := by
        rw [task_upload, ← hfilesize]
        simp only [perform, hpasses, hmalloc, Bool.not_true, Bool.false_eq_true, if_false]
      obtain ⟨l, hl, hsent, hserving, hbecomes⟩ :=
        submit_file sessionId h hmember hu hplain (.upload ⟨payload, hlt⟩ ⟨none, false⟩) rfl
      rw [effect_whole] at hsent hbecomes
      refine ⟨l, _, hperform.trans hl, hsent, h.becomes hserving hbecomes hquota, ?_⟩
      exact (if_pos hquota).mpr ⟨rfl, hbecomes⟩
    · have hfails : (serverEnv cwd server u.text).checkQuota out header.filesize = false := by
        rw [hfilesize]
        exact Bool.eq_false_iff.mpr fun hpasses => hquota (hcheck.mp hpasses)
      have hsame : behind cwd server (out ++ [.sent (ascii "UPLOAD ERROR: Quota exceeded\n")]) = behind cwd server out :=
        behind_sent _
      refine ⟨Loop.emit ⟨[], out⟩ (.sent (ascii "UPLOAD ERROR: Quota exceeded\n")), _, ?_,
        Handlers.sentBytes_emit ⟨[], out⟩ _, ?_, ?_⟩
      · simp only [perform, hfails, Bool.not_false, if_true]
      · rw [Loop.emit_output, hsame]
        exact h
      · rw [Loop.emit_output, hsame]
        exact (if_neg hquota).mpr ⟨rfl, rfl⟩
  | download f =>
    obtain ⟨l, hl, hsent, hserving, hbecomes⟩ := submit_file sessionId h hmember hu hr .download rfl
    rw [task_download] at hl
    cases hfile : ((behind cwd server out).store cwd u.text f.text).file with
    | some data =>
      simp only [FileTask.effect, hfile] at hsent hbecomes
      have hsame := hbecomes.same
      exact ⟨l, _, hl, hsent, h.stays hserving hsame, hsame, by simp only [Server.drive, hfile]; rfl⟩
    | none =>
      simp only [FileTask.effect, hfile] at hsent hbecomes
      have hsame := hbecomes.same
      exact ⟨l, _, hl, hsent, h.stays hserving hsame, hsame, by simp only [Server.drive, hfile]; rfl⟩
  | delete f =>
    obtain ⟨l, hl, hsent, hserving, hbecomes⟩ := submit_file sessionId h hmember hu hr .delete rfl
    rw [task_delete] at hl
    cases hfile : ((behind cwd server out).store cwd u.text f.text).file with
    | some data =>
      simp only [FileTask.effect, hfile] at hsent hbecomes
      refine ⟨l, _, hl, hsent, h.becomes hserving hbecomes h.within, ?_⟩
      simp only [Drive.Answers, Server.drive, hfile]
      exact ⟨rfl, hbecomes⟩
    | none =>
      simp only [FileTask.effect, hfile] at hsent hbecomes
      have hsame := hbecomes.same
      refine ⟨l, _, hl, hsent, h.stays hserving hsame, ?_⟩
      simp only [Drive.Answers, Server.drive, hfile]
      exact ⟨rfl, hsame⟩
  | list =>
    have htask : task ⟨sessionId, u.text⟩ .list [] 0 none = ⟨.list, sessionId, u.text, [], 0, none⟩ := by
      rw [task, List.take_of_length_le u.length_le]
    obtain ⟨l, hl, hsent, hbehind⟩ := submit_sends cwd server u ⟨[], out⟩ ⟨.list, sessionId, u.text, [], 0, none⟩
    obtain ⟨hserving, _, _, hmessage, names, hnodup, hnames, hlists, hwhole⟩ := list_serves h.toServing hmember hu sessionId
    have hsame := list_drive h.toServing hmember hu sessionId
    rw [← htask] at hl
    rw [← hbehind] at hserving hsame
    rw [responseText, hmessage, List.append_nil] at hsent
    exact ⟨l, _, hl, hsent, h.stays hserving hsame, hsame, names, hnodup, hnames, hlists, hwhole⟩

/-- The commands that the loop takes are answered as the drive answers them. -/
theorem performAll_answers (hmember : member u.text) (hu : isPlain u.text = true) {requests : List Request}
    (hallowed : ∀ r ∈ requests, Allowed r) (h : Within cwd member u (behind cwd server out)) :
    let final := performAll (serverEnv cwd server u.text) ⟨sessionId, u.text⟩ out requests
    ∃ answers : List (Request × Bytes), answers.map Prod.fst = heard requests ∧
      sentBytes final = sentBytes out ++ answers.flatMap Prod.snd ∧ Within cwd member u (behind cwd server final) ∧
      Meets (Drive.Answers u) ((behind cwd server out).drive cwd) answers ((behind cwd server final).drive cwd) := by
  induction requests generalizing out with
  | nil => exact ⟨[], rfl, (List.append_nil _).symm, h, .nil _⟩
  | cons r requests ih =>
    intro final
    by_cases hquit : r = .quit
    · subst hquit
      have hsame : behind cwd server final = behind cwd server out := behind_sent (ascii "Goodbye!\n")
      refine ⟨[(.quit, ascii "Goodbye!\n")], rfl, ?_, hsame ▸ h, ?_⟩
      · exact Handlers.sentBytes_emit ⟨[], out⟩ (ascii "Goodbye!\n")
      · rw [hsame]
        exact .cons ⟨rfl, rfl⟩ (.nil _)
    · obtain ⟨l, reply, hl, hsent, hwithin, hanswer⟩ :=
        perform_answers sessionId h hmember hu (hallowed r (List.mem_cons_self ..)) hquit
      have hfinal : final = performAll (serverEnv cwd server u.text) ⟨sessionId, u.text⟩ l.output requests := by
        simp only [final, performAll, hl]
      obtain ⟨answers, hheard, hreplies, hend, hmeets⟩ :=
        ih (fun r' hr' => hallowed r' (List.mem_cons_of_mem r hr')) hwithin
      refine ⟨(r, reply) :: answers, ?_, ?_, hfinal ▸ hend, hfinal ▸ .cons hanswer hmeets⟩
      · rw [List.map_cons, hheard]
        cases r with
        | quit => exact absurd rfl hquit
        | _ => rfl
      · rw [hfinal, hreplies, hsent, List.append_assoc]
        rfl

end

/-- The line "UPLOAD report 3". -/
def reportHeader : UploadHeader := ⟨report, ascii "3", by decide, by decide +kernel⟩

/-- An upload, a download of the same name, and the end. -/
def reportRequests : List Request :=
  [.upload reportHeader (ascii "abc") (by decide), .download report, .quit]

/-- The payload comes in a segment of its own. -/
def reportInput : Input := [.data reportHeader.line, .data (ascii "abc"), .data (downloadLine report), .data quitLine]

theorem reportRequests_framed :
    Framed (serverEnv [] freshServer nameAlice.text) ⟨1, nameAlice.text⟩ [] reportRequests reportInput :=
  .accepted [] reportHeader (ascii "abc") (by decide) _ _ 0 [ascii "abc"] ⟨by decide +kernel, by decide +kernel⟩
    (Nat.zero_le _) (.inl rfl) (by decide +kernel) ⟨by decide, by decide⟩
    (.line _ (.download report) _ _ (fun _ _ _ => Request.noConfusion)
      (.line _ .quit _ _ (fun _ _ _ => Request.noConfusion) (.done _)))

theorem within_fresh : Within [] (fun name => name = nameAlice.text ∨ name = nameBob.text) nameAlice freshServer :=
  ⟨serving_fresh, by decide +kernel, by decide +kernel⟩

example : sentBytes (serve (serverEnv [] freshServer nameAlice.text) ⟨1, nameAlice.text⟩ reportInput) =
    ascii "UPLOAD OK\n" ++ ascii "abc" ++ ascii "\nDOWNLOAD OK\n" ++ ascii "Goodbye!\n" := by decide +kernel

end Stash.Client.Connection
