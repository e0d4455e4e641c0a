import Stash.Threads.Requests

/-! The payload behind an `UPLOAD` line: what goes into the task of an accepted upload, and
where the loop reads its next command after a rejected one. -/
namespace Stash.Threads
open Foundation.CText Foundation.Scanf Utils.NetworkUtils

/-- The size that the parser reads from the line. -/
def UploadHeader.filesize (header : UploadHeader) : UInt64 := strtoul false header.digits

theorem UploadHeader.filesize_toNat {header : UploadHeader} (h : header.filesize.toNat < 2 ^ 63) :
    header.filesize.toNat = header.size := by
  unfold filesize strtoul at *
  unfold size
  split at h
  · exact absurd h (by decide)
  · rename_i hlt
    simp only [hlt, Bool.false_eq_true, if_false]
    exact UInt64.toNat_ofNat_of_lt' (by simpa using hlt)

theorem UploadHeader.line_ne_nil (header : UploadHeader) : header.line ≠ [] := by
  simp [line, ascii]

/-- The line ends at its only newline. -/
theorem UploadHeader.line_eq (header : UploadHeader) :
    ∃ body, header.line = body ++ [10] ∧ (10 : UInt8) ∉ body := by
  refine ⟨ascii "UPLOAD " ++ header.filename.text ++ ascii " " ++ header.digits, rfl, ?_⟩
  simp only [List.mem_append, not_or]
  refine ⟨⟨⟨by decide, fun h => ?_⟩, by decide⟩, fun h => ?_⟩
  · exact absurd (header.filename.no_space 10 h) (by decide)
  · exact absurd (header.digits_only 10 h) (by decide)

/-- What the loop takes over from the command buffer: everything behind the line unless it
begins with NUL. -/
theorem leftover_header (header : UploadHeader) (extra : Bytes) (filesize : Nat) :
    leftover (header.line ++ extra) filesize =
      if extra.head? = some 0 then [] else extra.take filesize := by
  obtain ⟨body, hline, hbody⟩ := header.line_eq
  have hstr : strchr 10 (cstr (header.line ++ extra)) = some body.length := by
    rw [cstr_append header.no_nul, hline, List.append_assoc]
    exact strchr_append hbody
  have hlen : header.line.length = body.length + 1 := by simp [hline]
  have hget : (header.line ++ extra ++ [0])[body.length + 1]? = (extra ++ [0]).head? := by
    rw [← hlen, List.append_assoc, List.getElem?_append_right (le_refl _)]
    simp [List.head?_eq_getElem?]
  have hdrop : (header.line ++ extra).drop (body.length + 1) = extra := by
    rw [← hlen, List.drop_left]
  simp only [leftover, hstr, hget, hdrop]
  cases extra with
  | nil => simp
  | cons c extra => simp

/-- Of `k` payload bytes in the buffer, all are taken over or none. -/
theorem leftover_payload (header : UploadHeader) {payload : Bytes} {k : Nat} (hk : k ≤ payload.length) :
    leftover (header.line ++ payload.take k) payload.length =
      if k = 0 ∨ payload.head? ≠ some 0 then payload.take k else [] := by
  have htake : (payload.take k).take payload.length = payload.take k := by
    rw [List.take_take, Nat.min_eq_right hk]
  rw [leftover_header, htake, List.head?_take]
  by_cases hk0 : k = 0
  · simp [hk0]
  · by_cases hhead : payload.head? = some 0 <;> simp [hk0, hhead]

/-- `recv_full` supplies what the buffer lacks, or the upload is answered with an error. -/
theorem receiveUpload_spec (filesize : Nat) (chunk : Bytes) (input : Input) :
    if filesize - (leftover chunk filesize).length ≤ (pending input).length then
      ∃ rest, receiveUpload filesize chunk input = (.ok (leftover chunk filesize ++
          (pending input).take (filesize - (leftover chunk filesize).length)), rest) ∧
        pending rest = (pending input).drop (filesize - (leftover chunk filesize).length)
    else ∃ text rest, receiveUpload filesize chunk input = (.error text, rest) := by
  unfold receiveUpload
  by_cases hlt : (leftover chunk filesize).length < filesize
  · obtain ⟨hret, hgot, hrest⟩ := recvFull_spec
      (show filesize - (leftover chunk filesize).length ≠ 0 by omega) input
    simp only [hlt, if_true]
    rw [hret, hgot]
    have hnot : ¬ ((((pending input).take (filesize - (leftover chunk filesize).length)).length : Nat) : Int) < 0 := by
      omega
    simp only [hnot, if_false]
    split
    · rename_i hle
      have hfull : ((pending input).take (filesize - (leftover chunk filesize).length)).length =
          filesize - (leftover chunk filesize).length := by
        rw [List.length_take, Nat.min_eq_left hle]
      rw [hfull]
      simpa using hrest hle
    · rename_i hgt
      have hshort : ((((pending input).take (filesize - (leftover chunk filesize).length)).length : Nat) : Int) ≠
          ((filesize - (leftover chunk filesize).length : Nat) : Int) := by
        rw [List.length_take]
        omega
      simp only [hshort, ne_eq, not_false_iff, if_true]
      exact ⟨_, _, rfl⟩
  · have hzero : filesize - (leftover chunk filesize).length = 0 := by omega
    simp [hlt, hzero]

/-- A task that the queue accepts is what the loop does next. -/
theorem submit_queued {env : Env} {l : Loop} {t : Task} (h : env.push l.output t = true) :
    l.output ++ [.queued t] <+: (submit env l t).loop.output ∧ (submit env l t).loop.input = l.input := by
  have message (m : Loop) (text : Bytes) :
      m.output <+: (sendResponseMessage env m text).loop.output ∧
        (sendResponseMessage env m text).loop.input = m.input := by
    unfold sendResponseMessage
    split
    · split <;> simp [Next.loop]
    · simp [Next.loop]
  unfold submit
  rw [if_pos h]
  unfold sendResponse
  simp only
  split
  · simp [Next.loop]
  · split
    · split
      · simp [Next.loop]
      · obtain ⟨hout, hin⟩ := message ((l.emit (.queued t)).emit
          (.sent (env.response (l.emit (.queued t)).output).data))
          (env.response (l.emit (.queued t)).output).message
        exact ⟨List.IsPrefix.trans (by simp) hout, hin⟩
    · exact message (l.emit (.queued t)) _

theorem iteration_data (env : Env) (client : Client) {l : Loop} {chunk : Bytes} {rest : Input}
    (h : recv (commandSize - 1) l.input = (.data chunk, rest)) (hne : chunk ≠ []) :
    iteration env client l = handleCommand env client chunk (l.rest rest) := by
  obtain ⟨c, d, rfl⟩ := List.exists_cons_of_ne_nil hne
  simp only [iteration, h]

/-- The loop body on a whole line that passes both checks. -/
theorem handleCommand_upload {env : Env} (client : Client) (header : UploadHeader) (extra : Bytes) {l : Loop}
    (hquota : env.checkQuota l.output header.filesize = true)
    (hmalloc : env.malloc l.output header.filesize = true) :
    handleCommand env client (header.line ++ extra) l =
      queueUpload env client header.filename.text header.filesize l
        (receiveUpload header.filesize.toNat (header.line ++ extra) l.input) := by
  have hparse : parseCommand (cstr (header.line ++ extra)) =
      .upload header.filename.text header.filesize := by
    rw [cstr_append header.no_nul, parseCommand_header, UploadHeader.filesize]
  simp only [handleCommand, hparse, hquota, hmalloc, Bool.not_true, Bool.false_eq_true, if_false]

/-- The pass queues an upload of exactly this payload and leaves exactly `later` unread. -/
def QueuesUpload (env : Env) (client : Client) (header : UploadHeader) (payload later : Bytes)
    (l : Loop) : Prop :=
  l.output ++ [.queued (task client .upload header.filename.text (UInt64.ofNat payload.length)
      (some payload))] <+: (iteration env client l).loop.output ∧
    pending (iteration env client l).loop.input = later

instance (env : Env) (client : Client) (header : UploadHeader) (payload later : Bytes) (l : Loop) :
    Decidable (QueuesUpload env client header payload later l) := by
  unfold QueuesUpload; infer_instance

/-- Payload fidelity: for every accepted upload, every payload and every delivery in which
the first `recv` returns the line and `k` payload bytes, the queued task carries the
payload and nothing else is consumed if and only if the buffer holds no payload byte or
the first one is not NUL. -/
theorem upload_payload_iff (env : Env) (client : Client) (header : UploadHeader)
    (payload later : Bytes) (hsize : payload.length = header.size) (l : Loop) (k : Nat)
    (hk : k ≤ payload.length) (rest : Input)
    (hrecv : recv (commandSize - 1) l.input = (.data (header.line ++ payload.take k), rest))
    (hrest : pending rest = payload.drop k ++ later)
    (hquota : env.checkQuota l.output header.filesize = true)
    (hmalloc : env.malloc l.output header.filesize = true)
    (hpush : ∀ t, env.push l.output t = true) :
    QueuesUpload env client header payload later l ↔ k = 0 ∨ payload.head? ≠ some 0 := by
  have hn : header.filesize.toNat = payload.length := by
    rw [hsize]
    exact UploadHeader.filesize_toNat (env.malloc_bound _ _ hmalloc)
  have hofNat : UInt64.ofNat payload.length = header.filesize := by
    rw [← hn, UInt64.ofNat_toNat]
  unfold QueuesUpload
  rw [hofNat, iteration_data env client hrecv (by simp [header.line_ne_nil]),
    handleCommand_upload client header _ (l := l.rest rest) hquota hmalloc]
  have hspec := receiveUpload_spec header.filesize.toNat (header.line ++ payload.take k) rest
  rw [hn, leftover_payload header hk, hrest] at hspec
  have hlen : (payload.drop k ++ later).length = payload.length - k + later.length := by simp
  rw [hn, Loop.rest_input]
  by_cases hgood : k = 0 ∨ payload.head? ≠ some 0
  · have hneed : payload.length - (payload.take k).length = payload.length - k := by
      rw [List.length_take, Nat.min_eq_left hk]
    rw [if_pos hgood, hneed, hlen, if_pos (by omega), List.take_left' (by simp),
      List.drop_left' (by simp), List.take_append_drop] at hspec
    obtain ⟨input, hok, hleft⟩ := hspec
    obtain ⟨hout, hin⟩ := submit_queued (l := (l.rest rest).rest input)
      (hpush (task client .upload header.filename.text header.filesize (some payload)))
    rw [hok, queueUpload, hin]
    exact iff_of_true ⟨hout, hleft⟩ hgood
  · have hk0 : k ≠ 0 := fun h => hgood (.inl h)
    rw [if_neg hgood, List.length_nil, Nat.sub_zero, hlen, List.nil_append] at hspec
    refine iff_of_false ?_ hgood
    rintro ⟨hout, hleft⟩
    split at hspec
    · obtain ⟨input, hok, hdrop⟩ := hspec
      rw [hok, queueUpload, (submit_queued (l := (l.rest rest).rest input) (hpush _)).2] at hleft
      have hshort := congrArg List.length (hdrop.symm.trans hleft)
      rw [List.length_drop, hlen] at hshort
      omega
    · obtain ⟨text, input, herr⟩ := hspec
      simp [herr, queueUpload, Next.loop] at hout

/-- A server on which every check passes and every upload is answered OK. -/
def generous : Env where
  checkQuota _ _ := true
  malloc _ n := decide (n.toNat < 2 ^ 63)
  malloc_bound _ _ h := of_decide_eq_true h
  push _ _ := true
  response _ := ⟨.success, ascii "UPLOAD OK\n", []⟩
  isActive _ := true
  taken _ text := text.length

/-- The line "UPLOAD a 2". -/
def twoBytes : UploadHeader :=
  ⟨⟨ascii "a", by decide, by decide, by decide +kernel, by decide⟩, ascii "2", by decide, by decide +kernel⟩

def alice : Client := ⟨1, ascii "alice"⟩

theorem upload_payload_two_bytes :
    QueuesUpload generous alice twoBytes [65, 66] (ascii "LIST\n")
        ⟨[.data (twoBytes.line ++ [65]), .failed .eintr, .data (66 :: ascii "LIST\n")], []⟩ ↔
      1 = 0 ∨ ([65, 66] : Bytes).head? ≠ some 0 :=
  upload_payload_iff generous alice twoBytes [65, 66] (ascii "LIST\n") (by decide)
    ⟨[.data (twoBytes.line ++ [65]), .failed .eintr, .data (66 :: ascii "LIST\n")], []⟩ 1 (by decide)
    [.failed .eintr, .data (66 :: ascii "LIST\n")] (by decide) (by decide) rfl (by decide) fun _ => rfl

/-- The payload 0, 7 arrives together with its line. Both bytes are dropped, and the next
command is stored in their place. -/
theorem nul_payload_lost :
    ¬ ∀ (env : Env) (client : Client) (header : UploadHeader) (payload later : Bytes) (l : Loop)
      (k : Nat) (rest : Input), payload.length = header.size → k ≤ payload.length →
      recv (commandSize - 1) l.input = (.data (header.line ++ payload.take k), rest) →
      pending rest = payload.drop k ++ later →
      env.checkQuota l.output header.filesize = true → env.malloc l.output header.filesize = true →
      (∀ t, env.push l.output t = true) → QueuesUpload env client header payload later l := by
  intro h
  have hqueued := h generous alice twoBytes [0, 7] (ascii "LIST\n")
    ⟨[.data (twoBytes.line ++ [0, 7]), .data (ascii "LIST\n")], []⟩ 2 [.data (ascii "LIST\n")]
    (by decide) (by decide) (by decide) (by decide) rfl (by decide) fun _ => rfl
  revert hqueued
  decide +kernel

/-- The server turns down an upload of this size before it has received the payload. -/
def Rejects (env : Env) (out : List Output) (filesize : UInt64) : Prop :=
  env.checkQuota out filesize = false ∨ env.malloc out filesize = false

/-- The pass rejects the upload and the next one begins to read at `later`. -/
def ResumesAt (env : Env) (client : Client) (l : Loop) (later : Bytes) : Prop :=
  ∃ l' reason, iteration env client l = .again l' ∧ l'.output = l.output ++ [.sent reason] ∧
    pending l'.input = later

/-- A rejection leaves the rest of the stream as it is. -/
theorem iteration_rejected {env : Env} (client : Client) {l : Loop} {chunk : Bytes} {rest : Input}
    (hrecv : recv (commandSize - 1) l.input = (.data chunk, rest)) (hne : chunk ≠ [])
    {filename : Bytes} {filesize : UInt64}
    (hparse : parseCommand (cstr chunk) = .upload filename filesize)
    (hreject : Rejects env l.output filesize) :
    ∃ reason, iteration env client l = .again ((l.rest rest).emit (.sent reason)) := by
  rw [iteration_data env client hrecv hne]
  by_cases hquota : env.checkQuota l.output filesize = true
  · have hmalloc : env.malloc l.output filesize = false :=
      hreject.resolve_left (by simp [hquota])
    refine ⟨ascii "UPLOAD ERROR: Server memory allocation failed\n", ?_⟩
    simp [handleCommand, hparse, hquota, hmalloc]
  · refine ⟨ascii "UPLOAD ERROR: Quota exceeded\n", ?_⟩
    simp [handleCommand, hparse, hquota]

/-- The payload is not executed: for every rejected upload and every delivery of its line,
its payload and what the client sends later, the next command is read from the byte after
the payload if and only if the `recv` that returned the line returned the whole payload
with it and nothing more. -/
theorem rejected_upload_resumes_iff (env : Env) (client : Client) (header : UploadHeader)
    (payload later : Bytes) (hsize : payload.length = header.size) (l : Loop) (chunk : Bytes)
    (rest : Input) (hrecv : recv (commandSize - 1) l.input = (.data chunk, rest)) (hne : chunk ≠ [])
    (hstream : chunk ++ pending rest = header.line ++ payload ++ later) (filename : Bytes)
    (filesize : UInt64) (hparse : parseCommand (cstr chunk) = .upload filename filesize)
    (hreject : Rejects env l.output filesize) :
    ResumesAt env client l later ↔ chunk.length = header.line.length + header.size := by
  obtain ⟨reason, hiter⟩ := iteration_rejected client hrecv hne hparse hreject
  have hresume : ResumesAt env client l later ↔ pending rest = later := by
    constructor
    · rintro ⟨l', _, hl', _, hp⟩
      obtain rfl := Next.again.inj (hiter.symm.trans hl')
      exact hp
    · exact fun hp => ⟨_, reason, hiter, rfl, hp⟩
  rw [hresume, ← hsize, ← List.length_append]
  constructor
  · intro hp
    rw [hp] at hstream
    rw [List.append_cancel_right hstream]
  · exact fun hlen => (List.append_inj hstream hlen).2

/-- A server on which the quota of every user is used up. -/
def exhausted : Env := { generous with checkQuota := fun _ _ => false }

/-- The line "UPLOAD a 9". -/
def nineBytes : UploadHeader :=
  ⟨⟨ascii "a", by decide, by decide, by decide +kernel, by decide⟩, ascii "9", by decide, by decide +kernel⟩

theorem rejected_upload_with_payload :
    ResumesAt exhausted alice ⟨[.data (nineBytes.line ++ ascii "DELETE a\n")], []⟩ [] ↔
      (nineBytes.line ++ ascii "DELETE a\n").length = nineBytes.line.length + nineBytes.size :=
  rejected_upload_resumes_iff exhausted alice nineBytes (ascii "DELETE a\n") [] (by decide)
    ⟨[.data (nineBytes.line ++ ascii "DELETE a\n")], []⟩ (nineBytes.line ++ ascii "DELETE a\n") []
    (by decide) (by decide) (by decide) (ascii "a") 9 (by decide) (.inl rfl)

/-- A payload "DELETE a" that arrives behind its rejected line deletes the file. -/
theorem rejected_payload_executed :
    ¬ ∀ (env : Env) (client : Client) (header : UploadHeader) (payload later : Bytes) (l : Loop)
      (rest : Input), payload.length = header.size →
      recv (commandSize - 1) l.input = (.data header.line, rest) → pending rest = payload ++ later →
      Rejects env l.output header.filesize → ResumesAt env client l later := by
  intro h
  obtain ⟨l', reason, hiter, -, hleft⟩ := h exhausted alice nineBytes (ascii "DELETE a\n") []
    ⟨[.data nineBytes.line, .data (ascii "DELETE a\n")], []⟩ [.data (ascii "DELETE a\n")]
    (by decide) (by decide) (by decide) (.inl rfl)
  have hrest : pending (iteration exhausted alice
      ⟨[.data nineBytes.line, .data (ascii "DELETE a\n")], []⟩).loop.input = ascii "DELETE a\n" := by
    decide +kernel
  rw [hiter] at hrest
  exact absurd (hrest.symm.trans hleft) (by decide)

example : serve exhausted alice [.data nineBytes.line, .data (ascii "DELETE a\n")] =
    [.sent (ascii "UPLOAD ERROR: Quota exceeded\n"), .queued (task alice .delete (ascii "a") 0 none),
      .sent (ascii "UPLOAD OK\n")] := by decide +kernel

end Stash.Threads
