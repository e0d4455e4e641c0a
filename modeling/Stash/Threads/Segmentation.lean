import Stash.Threads.UploadFraming

/-! Commands and the segments in which they arrive. The loop takes one `recv` for one
command, so only deliveries that begin each command with its own `recv` give the intended
tasks and replies. -/
namespace Stash.Threads
open Foundation.CText Foundation.Scanf Utils.NetworkUtils

/-- A documented command of the file phase, with the payload of an upload. -/
inductive Request where
  | upload (header : UploadHeader) (payload : Bytes) (size : payload.length = header.size)
  | download (filename : Filename)
  | delete (filename : Filename)
  | list
  | quit

def Request.bytes : Request → Bytes
  | .upload header payload _ => header.line ++ payload
  | .download filename => downloadLine filename
  | .delete filename => deleteLine filename
  | .list => listLine
  | .quit => quitLine

def stream (requests : List Request) : Bytes := requests.flatMap Request.bytes

/-- A way of cutting a stream into non-empty segments. -/
def Cut (segments : List Bytes) (bytes : Bytes) : Prop :=
  (∀ segment ∈ segments, segment ≠ []) ∧ segments.flatten = bytes

def arrivals (segments : List Bytes) : Input := segments.map RecvEvent.data

def invalidReply : Output := .sent (ascii "ERROR: Invalid command\n")

theorem sendResponseMessage_output (env : Env) (l : Loop) (text : Bytes) :
    l.output <+: (sendResponseMessage env l text).loop.output := by
  unfold sendResponseMessage
  split
  · split <;> simp [Next.loop]
  · simp [Next.loop]

theorem sendResponse_output (env : Env) (l : Loop) : l.output <+: (sendResponse env l).loop.output := by
  unfold sendResponse
  simp only
  split
  · simp [Next.loop]
  · split
    · split
      · simp [Next.loop]
      · exact List.IsPrefix.trans (by simp) (sendResponseMessage_output env (l.emit _) _)
    · exact sendResponseMessage_output env l _

theorem submit_output (env : Env) (l : Loop) (t : Task) :
    ∃ o, o ≠ invalidReply ∧ l.output ++ [o] <+: (submit env l t).loop.output := by
  unfold submit
  split
  · exact ⟨.queued t, by simp [invalidReply], sendResponse_output env (l.emit (.queued t))⟩
  · exact ⟨_, by decide, List.prefix_refl _⟩

theorem receiveUpload_error {filesize : Nat} {chunk : Bytes} {input rest : Input} {text : Bytes}
    (h : receiveUpload filesize chunk input = (.error text, rest)) :
    text = ascii "UPLOAD ERROR: Network receive error\n" ∨
      text = ascii "UPLOAD ERROR: Incomplete data transfer\n" := by
  unfold receiveUpload at h
  simp only at h
  split at h
  · split at h
    · exact .inl (Except.error.inj (Prod.mk.inj h).1).symm
    · split at h
      · exact .inr (Except.error.inj (Prod.mk.inj h).1).symm
      · cases (Prod.mk.inj h).1
  · cases (Prod.mk.inj h).1

/-- Whatever the parser recognises is answered by something else than the error for
invalid commands. -/
theorem handleCommand_recognised (env : Env) (client : Client) {chunk : Bytes} (l : Loop)
    (h : parseCommand (cstr chunk) ≠ .invalid) :
    ∃ o, o ≠ invalidReply ∧ l.output ++ [o] <+: (handleCommand env client chunk l).loop.output := by
  unfold handleCommand
  cases hparse : parseCommand (cstr chunk) with
  | quit => exact ⟨_, by decide, List.prefix_refl _⟩
  | upload filename filesize =>
    simp only
    split
    · exact ⟨_, by decide, List.prefix_refl _⟩
    · split
      · exact ⟨_, by decide, List.prefix_refl _⟩
      · cases hr : receiveUpload filesize.toNat chunk l.input with
        | mk result input =>
          cases result with
          | ok data => exact submit_output env (l.rest input) _
          | error text =>
            refine ⟨.sent text, ?_, List.prefix_refl _⟩
            rcases receiveUpload_error hr with rfl | rfl <;> decide
  | download filename => exact submit_output env l _
  | delete filename => exact submit_output env l _
  | list => exact submit_output env l _
  | invalid => exact absurd hparse h

theorem handleCommand_output (env : Env) (client : Client) (chunk : Bytes) (l : Loop) :
    l.output <+: (handleCommand env client chunk l).loop.output := by
  by_cases h : parseCommand (cstr chunk) = .invalid
  · simp [handleCommand, h, Next.loop]
  · obtain ⟨o, _, ho⟩ := handleCommand_recognised env client l h
    exact List.IsPrefix.trans (by simp) ho

theorem iteration_output (env : Env) (client : Client) (l : Loop) :
    l.output <+: (iteration env client l).loop.output := by
  unfold iteration
  split
  · exact List.prefix_refl _
  · exact List.prefix_refl _
  · rename_i chunk input _ _
    exact handleCommand_output env client chunk (l.rest input)

theorem fileLoop_output (env : Env) (client : Client) (fuel : Nat) (l : Loop) :
    l.output <+: (fileLoop env client fuel l).output := by
  induction fuel generalizing l with
  | zero => exact List.prefix_refl _
  | succ fuel ih =>
    have hstep := iteration_output env client l
    unfold fileLoop
    split
    · rename_i l' hnext
      rwa [hnext] at hstep
    · rename_i l' hnext
      rw [hnext] at hstep
      exact hstep.trans (ih l')

/-- What the first segment makes the loop do stands first among its outputs. -/
theorem serve_first (env : Env) (client : Client) {segment : Bytes} (rest : Input)
    (hne : segment ≠ []) (hfit : segment.length ≤ commandSize - 1) :
    (handleCommand env client segment ⟨rest, []⟩).loop.output <+:
      serve env client (.data segment :: rest) := by
  have hrecv : recv (commandSize - 1) (.data segment :: rest) = (.data segment, rest) := by
    rw [recv_data hne, if_pos hfit, List.take_of_length_le hfit]
  have hiter : iteration env client ⟨.data segment :: rest, []⟩ = handleCommand env client segment ⟨rest, []⟩ :=
    iteration_data env client hrecv hne
  unfold serve fileLoop
  rw [hiter]
  cases handleCommand env client segment ⟨rest, []⟩ with
  | disconnect l => exact List.prefix_refl _
  | again l => exact fileLoop_output env client _ l

private theorem head_of_prefix {o : Output} {out : List Output} (h : [o] <+: out) : out.head? = some o := by
  obtain ⟨tail, rfl⟩ := h
  rfl

/-- The first byte of a command alone is not recognised. -/
theorem Request.first_byte (r : Request) :
    ∃ c tail, r.bytes = c :: tail ∧ parseCommand (cstr [c]) = .invalid := by
  cases r with
  | upload header payload size => exact ⟨85, _, rfl, by decide⟩
  | download filename => exact ⟨68, _, rfl, by decide⟩
  | delete filename => exact ⟨68, _, rfl, by decide⟩
  | list => exact ⟨76, _, rfl, by decide⟩
  | quit => exact ⟨81, _, rfl, by decide⟩

theorem downloadLine_no_nul (filename : Filename) : (0 : UInt8) ∉ downloadLine filename := by
  simp only [downloadLine, List.mem_append, not_or]
  exact ⟨⟨by decide, filename.no_nul⟩, by decide⟩

theorem deleteLine_no_nul (filename : Filename) : (0 : UInt8) ∉ deleteLine filename := by
  simp only [deleteLine, List.mem_append, not_or]
  exact ⟨⟨by decide, filename.no_nul⟩, by decide⟩

theorem downloadLine_length (filename : Filename) : (downloadLine filename).length ≤ commandSize - 1 := by
  have hl := filename.length_le
  have h9 : (ascii "DOWNLOAD ").length = 9 := by decide
  have h1 : (ascii "\n").length = 1 := by decide
  simp only [downloadLine, List.length_append, h9, h1, commandSize]
  omega

theorem deleteLine_length (filename : Filename) : (deleteLine filename).length ≤ commandSize - 1 := by
  have hl := filename.length_le
  have h7 : (ascii "DELETE ").length = 7 := by decide
  have h1 : (ascii "\n").length = 1 := by decide
  simp only [deleteLine, List.length_append, h7, h1, commandSize]
  omega

/-- Enough of a command to be recognised fits into one `recv`: the line, or the line of an
upload up to the first digit of its size. -/
theorem Request.recognised (r : Request) :
    ∃ segment tail, r.bytes = segment ++ tail ∧ segment ≠ [] ∧ segment.length ≤ commandSize - 1 ∧
      parseCommand (cstr segment) ≠ .invalid := by
  cases r with
  | upload header payload size =>
    obtain ⟨⟨text, hne, hle, hspace, hnul⟩, digits, hdne, hdigits⟩ := header
    obtain ⟨d, digits, rfl⟩ := List.exists_cons_of_ne_nil hdne
    have hd := hdigits d (by simp)
    have hbytes : (0 : UInt8) ∉ ascii "UPLOAD " ++ text ++ ascii " " ++ [d] := by
      simp only [List.mem_append, not_or]
      refine ⟨⟨⟨by decide, hnul⟩, by decide⟩, ?_⟩
      simpa using (isdigit_ne_nul hd).symm
    refine ⟨ascii "UPLOAD " ++ text ++ ascii " " ++ [d], digits ++ ascii "\n" ++ payload, ?_, by simp, ?_, ?_⟩
    · simp [Request.bytes, UploadHeader.line]
    · have h7 : (ascii "UPLOAD ").length = 7 := by decide
      have h1 : (ascii " ").length = 1 := by decide
      simp only [List.length_append, List.length_singleton, h7, h1, commandSize]
      omega
    · have hparse := parseCommand_upload ⟨text, hne, hle, hspace, hnul⟩ (List.cons_ne_nil d [])
        (by simpa using hd) (show ∀ c ∈ ([] : Bytes).head?, isdigit c = false by simp)
      rw [cstr_of_no_nul hbytes]
      rw [List.append_nil] at hparse
      rw [hparse]
      simp
  | download filename =>
    refine ⟨downloadLine filename, [], by simp [Request.bytes], by simp [downloadLine, ascii],
      downloadLine_length filename, ?_⟩
    rw [cstr_of_no_nul (downloadLine_no_nul filename), parseCommand_download]
    simp
  | delete filename =>
    refine ⟨deleteLine filename, [], by simp [Request.bytes], by simp [deleteLine, ascii],
      deleteLine_length filename, ?_⟩
    rw [cstr_of_no_nul (deleteLine_no_nul filename), parseCommand_delete]
    simp
  | list => exact ⟨listLine, [], rfl, by decide, by decide, by decide⟩
  | quit => exact ⟨quitLine, [], rfl, by decide, by decide, by decide⟩

/-- A first segment and, when there is one, the rest of the stream. -/
def cutAfter (segment tail : Bytes) : List Bytes := if tail = [] then [segment] else [segment, tail]

theorem cutAfter_cut {segment : Bytes} (h : segment ≠ []) (tail : Bytes) :
    Cut (cutAfter segment tail) (segment ++ tail) := by
  unfold cutAfter Cut
  split
  · rename_i ht
    simp [h, ht]
  · rename_i ht
    simp [h, ht]

theorem arrivals_cutAfter (segment tail : Bytes) :
    ∃ rest, arrivals (cutAfter segment tail) = .data segment :: rest := by
  unfold cutAfter
  split <;> exact ⟨_, rfl⟩

/-- Every stream of at least one command has two cuts that give different replies: the
first byte alone, or enough to recognise the first command. -/
theorem segmentation_matters (env : Env) (client : Client) (r : Request) (requests : List Request) :
    ∃ cut cut', Cut cut (stream (r :: requests)) ∧ Cut cut' (stream (r :: requests)) ∧
      serve env client (arrivals cut) ≠ serve env client (arrivals cut') := by
  obtain ⟨c, tail, hfirst, hinvalid⟩ := r.first_byte
  obtain ⟨segment, tail', hbytes, hne, hfit, hvalid⟩ := r.recognised
  have hstream : stream (r :: requests) = [c] ++ (tail ++ stream requests) := by
    simp [stream, hfirst]
  have hstream' : stream (r :: requests) = segment ++ (tail' ++ stream requests) := by
    simp [stream, hbytes]
  refine ⟨cutAfter [c] (tail ++ stream requests), cutAfter segment (tail' ++ stream requests), ?_, ?_, ?_⟩
  · rw [hstream]
    exact cutAfter_cut (by simp) _
  · rw [hstream']
    exact cutAfter_cut hne _
  · intro hserve
    obtain ⟨rest, hrest⟩ := arrivals_cutAfter [c] (tail ++ stream requests)
    obtain ⟨rest', hrest'⟩ := arrivals_cutAfter segment (tail' ++ stream requests)
    rw [hrest, hrest'] at hserve
    have hbad := serve_first env client rest (List.cons_ne_nil c []) (Nat.le_of_ble_eq_true rfl)
    simp only [handleCommand, hinvalid, Next.loop, Loop.emit_output, List.nil_append] at hbad
    obtain ⟨o, ho, hgood⟩ := handleCommand_recognised env client ⟨rest', []⟩ hvalid
    have hgood := head_of_prefix (hgood.trans (serve_first env client rest' hne hfit))
    rw [← hserve, head_of_prefix hbad] at hgood
    exact ho (Option.some.inj hgood).symm

def Next.rest (next : Next) (input : Input) : Next :=
  match next with
  | .again l => .again (l.rest input)
  | .disconnect l => .disconnect (l.rest input)

/-- The intended answer to a command, whatever the connection holds behind it. -/
def perform (env : Env) (client : Client) (l : Loop) : Request → Next
  | .upload header payload _ =>
    if !env.checkQuota l.output header.filesize then
      .again (l.emit (.sent (ascii "UPLOAD ERROR: Quota exceeded\n")))
    else if !env.malloc l.output header.filesize then
      .again (l.emit (.sent (ascii "UPLOAD ERROR: Server memory allocation failed\n")))
    else submit env l (task client .upload header.filename.text header.filesize (some payload))
  | .download filename => submit env l (task client .download filename.text 0 none)
  | .delete filename => submit env l (task client .delete filename.text 0 none)
  | .list => submit env l (task client .list [] 0 none)
  | .quit => .disconnect (l.emit (.sent (ascii "Goodbye!\n")))

/-- The commands one after the other, until the connection ends. -/
def performAll (env : Env) (client : Client) : List Output → List Request → List Output
  | out, [] => out
  | out, r :: requests =>
    match perform env client ⟨[], out⟩ r with
    | .again l => performAll env client l.output requests
    | .disconnect l => l.output

def Accepts (env : Env) (out : List Output) (header : UploadHeader) : Prop :=
  env.checkQuota out header.filesize = true ∧ env.malloc out header.filesize = true

/-- Deliveries that begin each command with a `recv` of its own: it returns the whole line,
and of an upload as much of the payload as the loop can take from there. -/
inductive Framed (env : Env) (client : Client) : List Output → List Request → Input → Prop where
  | done (out : List Output) : Framed env client out [] []
  | line (out : List Output) (r : Request) (requests : List Request) (input : Input)
    (single : ∀ header payload size, r ≠ .upload header payload size)
    (next : Framed env client (perform env client ⟨[], out⟩ r).loop.output requests input) :
    Framed env client out (r :: requests) (.data r.bytes :: input)
  | accepted (out : List Output) (header : UploadHeader) (payload : Bytes)
    (size : payload.length = header.size) (requests : List Request) (input : Input) (k : Nat)
    (pieces : List Bytes) (accepts : Accepts env out header) (within : k ≤ payload.length)
    (taken : k = 0 ∨ payload.head? ≠ some 0)
    (fits : (header.line ++ payload.take k).length ≤ commandSize - 1)
    (cut : Cut pieces (payload.drop k))
    (next : Framed env client
      (perform env client ⟨[], out⟩ (.upload header payload size)).loop.output requests input) :
    Framed env client out (.upload header payload size :: requests)
      (.data (header.line ++ payload.take k) :: (arrivals pieces ++ input))
  | rejected (out : List Output) (header : UploadHeader) (payload : Bytes)
    (size : payload.length = header.size) (requests : List Request) (input : Input)
    (rejects : ¬ Accepts env out header)
    (fits : (header.line ++ payload).length ≤ commandSize - 1)
    (next : Framed env client
      (perform env client ⟨[], out⟩ (.upload header payload size)).loop.output requests input) :
    Framed env client out (.upload header payload size :: requests)
      (.data (header.line ++ payload) :: input)

theorem Next.rest_ite (c : Prop) [Decidable c] (a b : Next) (input : Input) :
    (if c then a else b).rest input = if c then a.rest input else b.rest input := by
  split <;> rfl

theorem sendResponseMessage_rest (env : Env) (l : Loop) (input : Input) (text : Bytes) :
    sendResponseMessage env (l.rest input) text = (sendResponseMessage env l text).rest input := by
  simp only [sendResponseMessage, Next.rest_ite, Loop.rest_output]
  rfl

theorem sendResponse_rest (env : Env) (l : Loop) (input : Input) :
    sendResponse env (l.rest input) = (sendResponse env l).rest input := by
  simp only [sendResponse, Next.rest_ite, Loop.rest_output, ← sendResponseMessage_rest]
  rfl

theorem submit_rest (env : Env) (l : Loop) (input : Input) (t : Task) :
    submit env (l.rest input) t = (submit env l t).rest input := by
  simp only [submit, Next.rest_ite, Loop.rest_output, ← sendResponse_rest]
  rfl

/-- What is answered does not depend on what is still to be read. -/
theorem perform_rest (env : Env) (client : Client) (out : List Output) (input : Input) (r : Request) :
    perform env client ⟨input, out⟩ r = (perform env client ⟨[], out⟩ r).rest input := by
  cases r with
  | upload header payload size =>
    simp only [perform]
    split
    · rfl
    · split
      · rfl
      · exact submit_rest env ⟨[], out⟩ input _
  | download filename => exact submit_rest env ⟨[], out⟩ input _
  | delete filename => exact submit_rest env ⟨[], out⟩ input _
  | list => exact submit_rest env ⟨[], out⟩ input _
  | quit => rfl

theorem recvFullLoop_arrivals {pieces : List Bytes} (hne : ∀ piece ∈ pieces, piece ≠ []) (buf : Bytes)
    (input : Input) {len fuel : Nat} (hlen : buf.length + pieces.flatten.length = len)
    (hfuel : pieces.length < fuel) :
    recvFullLoop len fuel buf (arrivals pieces ++ input) = (buf ++ pieces.flatten, input) := by
  induction pieces generalizing buf fuel with
  | nil =>
    obtain ⟨fuel, rfl⟩ := Nat.exists_eq_add_one_of_ne_zero (Nat.ne_zero_of_lt hfuel)
    have hfull : ¬ buf.length < len := by simpa using hlen.ge
    simp [recvFullLoop, hfull, arrivals]
  | cons piece pieces ih =>
    obtain ⟨fuel, rfl⟩ := Nat.exists_eq_add_one_of_ne_zero (Nat.ne_zero_of_lt hfuel)
    have hpiece := hne piece (by simp)
    have hpos := List.length_pos_iff.mpr hpiece
    simp only [List.flatten_cons, List.length_append] at hlen
    have hlt : buf.length < len := by omega
    have hrecv : recv (len - buf.length) (arrivals (piece :: pieces) ++ input) =
        (.data piece, arrivals pieces ++ input) := by
      have hle : piece.length ≤ len - buf.length := by omega
      change recv _ (.data piece :: (arrivals pieces ++ input)) = _
      rw [recv_data hpiece, if_pos hle, List.take_of_length_le hle]
    obtain ⟨c, d, rfl⟩ := List.exists_cons_of_ne_nil hpiece
    have hnext := ih (fun p hp => hne p (by simp [hp])) (buf ++ c :: d)
      (by rw [List.length_append]; omega) (by simpa using hfuel)
    simp only [recvFullLoop, hlt, if_true, hrecv, hnext, List.flatten_cons, List.append_assoc]

theorem length_le_inputSize (pieces : List Bytes) (input : Input) :
    pieces.length ≤ inputSize (arrivals pieces ++ input) := by
  induction pieces with
  | nil => exact Nat.zero_le _
  | cons piece pieces ih =>
    change pieces.length + 1 ≤ 1 + piece.length + inputSize (arrivals pieces ++ input)
    omega

theorem inputSize_arrivals (pieces : List Bytes) (input : Input) :
    inputSize input ≤ inputSize (arrivals pieces ++ input) := by
  induction pieces with
  | nil => exact le_refl _
  | cons piece pieces ih =>
    change inputSize input ≤ 1 + piece.length + inputSize (arrivals pieces ++ input)
    omega

/-- A payload of which the buffer holds a usable part is completed from its pieces. -/
theorem receiveUpload_pieces (header : UploadHeader) {payload : Bytes} {k : Nat} (hk : k ≤ payload.length)
    (htaken : k = 0 ∨ payload.head? ≠ some 0) {pieces : List Bytes} (hcut : Cut pieces (payload.drop k))
    (input : Input) :
    receiveUpload payload.length (header.line ++ payload.take k) (arrivals pieces ++ input) =
      (.ok payload, input) := by
  have htake : (payload.take k).length = k := by rw [List.length_take, Nat.min_eq_left hk]
  have hpieces : pieces.flatten.length = payload.length - k := by rw [hcut.2, List.length_drop]
  unfold receiveUpload
  rw [leftover_payload header hk, if_pos htaken]
  simp only [htake]
  by_cases hlt : k < payload.length
  · have hloop := recvFullLoop_arrivals hcut.1 [] input (show ([] : Bytes).length + _ = payload.length - k by
      simpa using hpieces) (Nat.lt_succ_of_le (length_le_inputSize pieces input))
    have hzero : payload.length - k ≠ 0 := by omega
    have hnot : ¬ ((payload.length - k : Nat) : Int) < 0 := by omega
    simp only [hlt, if_true, recvFull, hzero, if_false, hloop, List.nil_append, hpieces, hnot, ne_eq,
      not_true]
    rw [hcut.2, List.take_append_drop]
  · have hnil : pieces = [] := by
      cases pieces with
      | nil => rfl
      | cons piece pieces =>
        have hpos := List.length_pos_iff.mpr (hcut.1 piece (by simp))
        simp only [List.flatten_cons, List.length_append] at hpieces
        omega
    have hall : payload.take k = payload := List.take_of_length_le (by omega)
    simp [hlt, hnil, hall, arrivals]

theorem iteration_segment {env : Env} {client : Client} {segment : Bytes} (out : List Output) (input : Input)
    (hne : segment ≠ []) (hfit : segment.length ≤ commandSize - 1) :
    iteration env client ⟨.data segment :: input, out⟩ = handleCommand env client segment ⟨input, out⟩ := by
  refine iteration_data env client ?_ hne
  rw [recv_data hne, if_pos hfit, List.take_of_length_le hfit]

/-- A line that arrives alone is performed. -/
theorem iteration_line (env : Env) (client : Client) (out : List Output) (input : Input) {r : Request}
    (single : ∀ header payload size, r ≠ .upload header payload size) :
    iteration env client ⟨.data r.bytes :: input, out⟩ = perform env client ⟨input, out⟩ r := by
  cases r with
  | upload header payload size => exact absurd rfl (single header payload size)
  | download filename =>
    rw [Request.bytes, iteration_segment out input (by simp [downloadLine, ascii]) (downloadLine_length filename)]
    simp only [handleCommand, cstr_of_no_nul (downloadLine_no_nul filename), parseCommand_download, perform]
  | delete filename =>
    rw [Request.bytes, iteration_segment out input (by simp [deleteLine, ascii]) (deleteLine_length filename)]
    simp only [handleCommand, cstr_of_no_nul (deleteLine_no_nul filename), parseCommand_delete, perform]
  | list =>
    rw [Request.bytes, iteration_segment out input (by decide) (by decide)]
    rfl
  | quit =>
    rw [Request.bytes, iteration_segment out input (by decide) (by decide)]
    rfl

/-- An accepted upload whose payload comes in usable parts is performed. -/
theorem iteration_accepted {env : Env} (client : Client) {out : List Output} {header : UploadHeader}
    {payload : Bytes} (size : payload.length = header.size) {k : Nat} {pieces : List Bytes}
    (accepts : Accepts env out header) (within : k ≤ payload.length)
    (taken : k = 0 ∨ payload.head? ≠ some 0)
    (fits : (header.line ++ payload.take k).length ≤ commandSize - 1)
    (cut : Cut pieces (payload.drop k)) (input : Input) :
    iteration env client ⟨.data (header.line ++ payload.take k) :: (arrivals pieces ++ input), out⟩ =
      perform env client ⟨input, out⟩ (.upload header payload size) := by
  obtain ⟨hquota, hmalloc⟩ := accepts
  have hn : header.filesize.toNat = payload.length := by
    rw [size]
    exact UploadHeader.filesize_toNat (env.malloc_bound _ _ hmalloc)
  rw [iteration_segment out _ (by simp [header.line_ne_nil]) fits,
    handleCommand_upload client header _ (l := ⟨arrivals pieces ++ input, out⟩) hquota hmalloc]
  simp only [hn, receiveUpload_pieces header within taken cut, queueUpload, perform, hquota, hmalloc,
    Bool.not_true, Bool.false_eq_true, if_false]
  rfl

/-- A rejected upload whose payload comes with its line is performed. -/
theorem iteration_rejected_whole {env : Env} (client : Client) {out : List Output} {header : UploadHeader}
    {payload : Bytes} (size : payload.length = header.size) (rejects : ¬ Accepts env out header)
    (fits : (header.line ++ payload).length ≤ commandSize - 1) (input : Input) :
    iteration env client ⟨.data (header.line ++ payload) :: input, out⟩ =
      perform env client ⟨input, out⟩ (.upload header payload size) := by
  have hparse : parseCommand (cstr (header.line ++ payload)) =
      .upload header.filename.text header.filesize := by
    rw [cstr_append header.no_nul, parseCommand_header, UploadHeader.filesize]
  rw [iteration_segment out input (by simp [header.line_ne_nil]) fits]
  by_cases hquota : env.checkQuota out header.filesize = true
  · have hmalloc : env.malloc out header.filesize ≠ true := fun h => rejects ⟨hquota, h⟩
    simp [handleCommand, perform, hparse, hquota, hmalloc]
  · simp [handleCommand, perform, hparse, hquota]

/-- One pass that performs a command, then the rest of the run. -/
private theorem fileLoop_perform {env : Env} {client : Client} {out : List Output} {r : Request}
    {requests : List Request} {whole input : Input}
    (hpass : iteration env client ⟨whole, out⟩ = perform env client ⟨input, out⟩ r)
    (hsize : inputSize input < inputSize whole)
    (ih : ∀ fuel, inputSize input < fuel →
      (fileLoop env client fuel ⟨input, (perform env client ⟨[], out⟩ r).loop.output⟩).output =
        performAll env client (perform env client ⟨[], out⟩ r).loop.output requests)
    {fuel : Nat} (hfuel : inputSize whole < fuel) :
    (fileLoop env client fuel ⟨whole, out⟩).output = performAll env client out (r :: requests) := by
  obtain ⟨fuel, rfl⟩ := Nat.exists_eq_add_one_of_ne_zero (Nat.ne_zero_of_lt hfuel)
  unfold fileLoop performAll
  rw [hpass, perform_rest]
  cases hnext : perform env client ⟨[], out⟩ r with
  | disconnect l => rfl
  | again l =>
    rw [hnext] at ih
    exact ih fuel (by omega)

/-- In a framed delivery every command is answered as intended. -/
theorem framed_output {env : Env} {client : Client} {out : List Output} {requests : List Request}
    {input : Input} (h : Framed env client out requests input) (fuel : Nat) (hfuel : inputSize input < fuel) :
    (fileLoop env client fuel ⟨input, out⟩).output = performAll env client out requests := by
  induction h generalizing fuel with
  | done out =>
    obtain ⟨fuel, rfl⟩ := Nat.exists_eq_add_one_of_ne_zero (Nat.ne_zero_of_lt hfuel)
    rfl
  | line out r requests input single next ih =>
    exact fileLoop_perform (iteration_line env client out input single)
      (by simp only [inputSize]; omega) ih hfuel
  | accepted out header payload size requests input k pieces accepts within taken fits cut next ih =>
    refine fileLoop_perform (iteration_accepted client size accepts within taken fits cut input) ?_ ih hfuel
    have hle := inputSize_arrivals pieces input
    simp only [inputSize]
    omega
  | rejected out header payload size requests input rejects fits next ih =>
    exact fileLoop_perform (iteration_rejected_whole client size rejects fits input)
      (by simp only [inputSize]; omega) ih hfuel

/-- Segmentation independence. All cuts of a stream of commands give the same tasks and
replies if and only if the stream holds no command; two deliveries that are framed both
give the intended ones. -/
theorem segmentation_independent_iff (env : Env) (client : Client) (requests : List Request) :
    ((∀ cut cut', Cut cut (stream requests) → Cut cut' (stream requests) →
        serve env client (arrivals cut) = serve env client (arrivals cut')) ↔ requests = []) ∧
      ∀ input, Framed env client [] requests input →
        serve env client input = performAll env client [] requests := by
  refine ⟨⟨fun h => ?_, ?_⟩, fun input h => framed_output h _ (Nat.lt_succ_self _)⟩
  · cases requests with
    | nil => rfl
    | cons r requests =>
      obtain ⟨cut, cut', hcut, hcut', hne⟩ := segmentation_matters env client r requests
      exact absurd (h cut cut' hcut hcut') hne
  · rintro rfl cut cut' hcut hcut'
    have empty (c : List Bytes) (hc : Cut c (stream [])) : c = [] := by
      cases c with
      | nil => rfl
      | cons segment c =>
        have hne := hc.1 segment (by simp)
        have hflat : segment ++ c.flatten = [] := hc.2
        exact absurd (List.append_eq_nil_iff.mp hflat).1 hne
    rw [empty cut hcut, empty cut' hcut']

/-- The command LIST in one segment, and with its first byte in a segment of its own. -/
theorem list_split_in_two :
    ¬ ∀ (env : Env) (client : Client) (requests : List Request) (cut cut' : List Bytes),
      Cut cut (stream requests) → Cut cut' (stream requests) →
        serve env client (arrivals cut) = serve env client (arrivals cut') := by
  intro h
  have heq := h generous alice [.list] [ascii "LIST\n"] [ascii "L", ascii "IST\n"]
    ⟨by decide, by decide⟩ ⟨by decide, by decide⟩
  revert heq
  decide +kernel

end Stash.Threads
