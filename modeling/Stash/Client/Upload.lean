import Stash.Client.Handlers
import Stash.Utils.FullTransfers

/-! `handle_upload` of the client up to the reply: the command, and then the file in chunks, each with
a single `send`. The results of the sends are a list, the first of them for the command. -/
namespace Stash.Client.Upload
open Foundation.CText Foundation.Transfers Threads Utils.FullTransfers

/-- The size of `buf`. -/
def chunkSize : Nat := 4096

/-- The command, with the size that `ftell` returned. -/
def uploadCommand (path : Filename) (filesize : Int) : Bytes :=
  snprintf Handlers.cmdBufferSize
    (ascii "UPLOAD " ++ Handlers.basename path.text ++ ascii " " ++ ascii (toString filesize) ++ ascii "\n")

/-- What `fread` has still to deliver, `total_sent`, and what has been put on the connection. -/
structure Uploading where
  left : Bytes
  totalSent : Nat
  wire : Bytes
  deriving DecidableEq, Repr

/-- The loop of `handle_upload`: the next chunk is read, and a single `send` takes `n` bytes of it. -/
def sendLoop : Transfer SendResult Uploading where
  verdict
    | .failed _ => .stop
    | .sent n => .moved n
  unfinished t := t.left != []
  advance t n :=
    let chunk := t.left.take chunkSize
    if 0 < n ∧ n ≤ chunk.length then some ⟨t.left.drop chunkSize, t.totalSent + n, t.wire ++ chunk.take n⟩
    else none

/-- The command is sent without a look at the result. -/
def sendCommand (command : Bytes) : SendResult → Option Bytes
  | .failed _ => some []
  | .sent n => if 0 < n ∧ n ≤ command.length then some (command.take n) else none

/-- Whether the handler goes on to wait for the reply, and what it has sent by then. -/
structure Outcome where
  waits : Bool
  totalSent : Nat
  wire : Bytes
  deriving DecidableEq, Repr

/-- `handle_upload` up to the reply, where `none` is a file that cannot be opened. It has not come so
far when the results end before, or when one of them is none that its call can have. -/
def handleUpload (path : Filename) (file : Option Bytes) (results : List SendResult) : Option Outcome :=
  match file, results with
  | none, _ => some ⟨false, 0, []⟩
  | some _, [] => none
  | some content, result :: results => do
    let wire ← sendCommand (uploadCommand path content.length) result
    let (t, _) ← sendLoop.loop results ⟨content, 0, wire⟩
    return ⟨!sendLoop.unfinished t, t.totalSent, t.wire⟩

/-- What `fread` delivers, one chunk after the other. -/
def chunks (content : Bytes) : List Bytes :=
  if _hne : content = [] then [] else content.take chunkSize :: chunks (content.drop chunkSize)
termination_by content.length
decreasing_by
  have hlength := List.length_pos_iff.mpr _hne
  have hsize : 0 < chunkSize := by decide
  rw [List.length_drop]
  omega

/-- If the handler waits for the reply, the server gets the command and behind it the file, which has
the size that the command says. -/
def SendsFile (path : Filename) (content : Bytes) (out : Outcome) : Prop :=
  out.waits = true → out.wire = uploadCommand path content.length ++ content

/-- The `send` takes all that it is offered. -/
def whole (offered : Bytes) : SendResult := .sent offered.length

/-- No send is short: not that of the command, and none of a chunk. -/
def TakesAll (path : Filename) (content : Bytes) (results : List SendResult) : Prop :=
  (uploadCommand path content.length :: chunks content).map whole <+: results

/-- The send of a chunk fails, and the handler returns. -/
def FailsInFile (content : Bytes) (results : List SendResult) : Prop :=
  ∃ i < (chunks content).length, ∃ errno, results[i + 1]? = some (.failed errno)

@[simp] theorem chunks_nil : chunks [] = [] := by
  rw [chunks, dif_pos rfl]

theorem chunks_of_ne {content : Bytes} (h : content ≠ []) :
    chunks content = content.take chunkSize :: chunks (content.drop chunkSize) := by
  rw [chunks, dif_neg h]

theorem flatten_chunks (content : Bytes) : (chunks content).flatten = content := by
  induction content using chunks.induct with
  | case1 => rw [chunks_nil, List.flatten_nil]
  | case2 content hne ih => rw [chunks_of_ne hne, List.flatten_cons, ih, List.take_append_drop]

/-- The result of a send that takes no more than it is offered. -/
def Fits (result : SendResult) (offered : Bytes) : Prop := ∃ n ≤ offered.length, result = .sent n

/-- What such sends put on the connection. -/
def taken (results : List SendResult) (offers : List Bytes) : Bytes :=
  (List.zipWith (fun result offered => match result with
    | .sent n => offered.take n
    | .failed _ => []) results offers).flatten

variable {results used rest : List SendResult} {offers done : List Bytes} {content : Bytes}

theorem taken_cons (n : Nat) (offered : Bytes) :
    taken (.sent n :: results) (offered :: offers) = offered.take n ++ taken results offers := rfl

theorem taken_concat (h : used.length = done.length) (n : Nat) (offered : Bytes) :
    taken (used ++ [.sent n]) (done ++ [offered]) = taken used done ++ offered.take n := by
  rw [taken, List.zipWith_append h, List.flatten_append]
  simp [taken]

/-- Sends take no more than they are offered, and all of it only when none is short. -/
theorem length_taken_le (h : List.Forall₂ Fits results offers) :
    (taken results offers).length ≤ offers.flatten.length ∧
      ((taken results offers).length = offers.flatten.length → results = offers.map whole) := by
  induction h with
  | nil => exact ⟨Nat.le_refl _, fun _ => rfl⟩
  | @cons result offered results offers hfits _ ih =>
    obtain ⟨n, hn, rfl⟩ := hfits
    obtain ⟨hle, heq⟩ := ih
    rw [taken_cons, List.flatten_cons, List.length_append, List.length_append, List.length_take_of_le hn]
    refine ⟨by omega, fun hall => ?_⟩
    rw [List.map_cons, ← heq (by omega), whole, show n = offered.length by omega]

theorem taken_whole (offers : List Bytes) : taken (offers.map whole) offers = offers.flatten := by
  induction offers with
  | nil => rfl
  | cons offered offers ih => rw [List.map_cons, whole, taken_cons, List.take_length, ih, List.flatten_cons]

/-- Between two sends: so many chunks have been offered, one to each send. -/
structure Paired (content wire : Bytes) (results left : List SendResult) (t : Uploading)
    (used : List SendResult) (done : List Bytes) : Prop where
  results_eq : results = used ++ left
  chunks_eq : chunks content = done ++ chunks t.left
  fits : List.Forall₂ Fits used done
  wire_eq : t.wire = wire ++ taken used done

variable {wire : Bytes} {t t' : Uploading} {left : List SendResult}

theorem paired_start : Paired content wire results results ⟨content, 0, wire⟩ [] [] :=
  ⟨rfl, rfl, .nil, (List.append_nil _).symm⟩

theorem Paired.advance {result : SendResult} {n : Nat} (h : Paired content wire results (result :: left) t used done)
    (hverdict : sendLoop.verdict result = .moved n) (hadvance : sendLoop.advance t n = some t') :
    Paired content wire results left t' (used ++ [result]) (done ++ [t.left.take chunkSize]) := by
  obtain ⟨⟨hpos, hn⟩, hnext⟩ := Option.ite_none_right_eq_some.mp hadvance
  obtain rfl := Option.some.inj hnext
  have hne : t.left ≠ [] := by
    intro hnil
    rw [hnil] at hn
    exact absurd (Nat.lt_of_lt_of_le hpos hn) (by decide)
  cases result with
  | failed errno => cases hverdict
  | sent k =>
    obtain rfl : k = n := Verdict.moved.inj hverdict
    refine ⟨?_, ?_, ?_, ?_⟩
    · rw [h.results_eq, List.append_assoc, List.singleton_append]
    · rw [h.chunks_eq, chunks_of_ne hne, List.append_assoc, List.singleton_append]
    · exact List.rel_append h.fits (.cons ⟨k, hn, rfl⟩ .nil)
    · rw [taken_concat h.fits.length_eq, ← List.append_assoc, ← h.wire_eq]

/-- How the loop ends: every chunk has been offered to one send, or the send of a chunk fails. -/
inductive Ending (content wire : Bytes) (results rest : List SendResult) (t : Uploading) : Prop where
  | finished (used : List SendResult) (done : t.left = []) (results_eq : results = used ++ rest)
    (fits : List.Forall₂ Fits used (chunks content)) (wire_eq : t.wire = wire ++ taken used (chunks content))
  | failed (used : List SendResult) (errno : Errno) (short : t.left ≠ [])
    (results_eq : results = used ++ .failed errno :: rest) (fewer : used.length < (chunks content).length)

theorem sendLoop_ending (hrun : sendLoop.loop results ⟨content, 0, wire⟩ = some (t, rest)) :
    Ending content wire results rest t := by
  have hends : Transfer.Ended sendLoop
      (fun left t => ∃ used done, Paired content wire results left t used done) rest t := by
    refine Transfer.loop_rule ?_ ?_ ⟨[], [], paired_start⟩ hrun
    · intro result left t _ hagain
      cases result <;> cases hagain
    · rintro result left t n t' ⟨used, done, h⟩ hmoved hadvance
      exact ⟨_, _, h.advance hmoved hadvance⟩
  cases hends with
  | finished hdone hinv =>
    obtain ⟨used, done, h⟩ := hinv
    have hnil : t.left = [] := by simpa [sendLoop] using hdone
    have hall := h.chunks_eq
    rw [hnil, chunks_nil, List.append_nil] at hall
    subst hall
    exact .finished used hnil h.results_eq h.fits h.wire_eq
  | stopped last hstop hshort hinv =>
    obtain ⟨used, done, h⟩ := hinv
    have hne : t.left ≠ [] := by simpa [sendLoop] using hshort
    cases last with
    | sent n => cases hstop
    | failed errno =>
      refine .failed used errno hne h.results_eq ?_
      rw [h.chunks_eq, chunks_of_ne hne, List.length_append, List.length_cons, h.fits.length_eq]
      omega

theorem uploadCommand_ne_nil (path : Filename) (filesize : Int) : uploadCommand path filesize ≠ [] :=
  List.cons_ne_nil _ _

/-- Of the command no more is sent than there is, and all of it only by a send that takes it all. -/
theorem sendCommand_eq {command : Bytes} {result : SendResult} (hne : command ≠ [])
    (h : sendCommand command result = some wire) :
    wire.length ≤ command.length ∧ (wire.length = command.length → result = whole command) := by
  cases result with
  | failed errno =>
    obtain rfl := Option.some.inj h
    exact ⟨Nat.zero_le _, fun hnil => absurd (List.eq_nil_of_length_eq_zero hnil.symm) hne⟩
  | sent n =>
    obtain ⟨⟨_, hn⟩, hwire⟩ := Option.ite_none_right_eq_some.mp h
    obtain rfl := Option.some.inj hwire
    rw [List.length_take_of_le hn]
    exact ⟨hn, fun hall => by rw [whole, hall]⟩

theorem sendCommand_whole {command : Bytes} (hne : command ≠ []) :
    sendCommand command (whole command) = some command := by
  rw [whole, sendCommand, if_pos ⟨List.length_pos_iff.mpr hne, Nat.le_refl _⟩, List.take_length]

theorem forall_sent (h : List.Forall₂ Fits used offers) : ∀ result ∈ used, ∀ errno, result ≠ .failed errno := by
  induction h with
  | nil => exact fun _ hmem => absurd hmem List.not_mem_nil
  | cons hfits _ ih =>
    obtain ⟨n, _, rfl⟩ := hfits
    exact List.forall_mem_cons.mpr ⟨fun _ => SendResult.noConfusion, ih⟩

/-- What the handler does behind `fopen`. -/
theorem handleUpload_eq {path : Filename} {out : Outcome}
    (h : handleUpload path (some content) results = some out) :
    ∃ result behind rest wire t, results = result :: behind ∧
      sendCommand (uploadCommand path content.length) result = some wire ∧
        Ending content wire behind rest t ∧ out = ⟨!sendLoop.unfinished t, t.totalSent, t.wire⟩ := by
  cases results with
  | nil => cases h
  | cons result behind =>
    obtain ⟨wire, hwire, h⟩ := Option.bind_eq_some_iff.mp h
    obtain ⟨⟨t, rest⟩, hloop, h⟩ := Option.bind_eq_some_iff.mp h
    exact ⟨result, behind, rest, wire, t, rfl, hwire, sendLoop_ending hloop, (Option.some.inj h).symm⟩

/-- Behind a send to each chunk, what is on the connection is the command and the file exactly if no
send was short. -/
theorem takesAll_iff {path : Filename} {result : SendResult}
    (hwire : sendCommand (uploadCommand path content.length) result = some wire)
    (hfits : List.Forall₂ Fits used (chunks content)) :
    wire ++ taken used (chunks content) = uploadCommand path content.length ++ content ↔
      TakesAll path content (result :: (used ++ rest)) := by
  have hcommand := uploadCommand_ne_nil path content.length
  rw [TakesAll, List.map_cons]
  constructor
  · intro hput
    obtain ⟨hle, hwhole⟩ := sendCommand_eq hcommand hwire
    obtain ⟨htaken, hall⟩ := length_taken_le hfits
    rw [flatten_chunks] at htaken hall
    have hlength := congrArg List.length hput
    rw [List.length_append, List.length_append] at hlength
    rw [hall (by omega), hwhole (by omega)]
    exact List.cons_prefix_cons.mpr ⟨rfl, List.prefix_append _ _⟩
  · intro hall
    obtain ⟨rfl, hused⟩ := List.cons_prefix_cons.mp hall
    rw [sendCommand_whole hcommand] at hwire
    obtain rfl := Option.some.inj hwire
    have hlength : ((chunks content).map whole).length = used.length := by
      rw [List.length_map, hfits.length_eq]
    have hprefix := List.prefix_of_prefix_length_le hused (List.prefix_append used rest) (Nat.le_of_eq hlength)
    rw [← hprefix.eq_of_length hlength, taken_whole, flatten_chunks]

theorem not_failsInFile {result : SendResult} (hfits : List.Forall₂ Fits used (chunks content)) :
    ¬ FailsInFile content (result :: (used ++ rest)) := by
  rintro ⟨i, hi, errno, hget⟩
  rw [← hfits.length_eq] at hi
  rw [List.getElem?_cons_succ, List.getElem?_append_left hi] at hget
  exact absurd rfl (forall_sent hfits _ (List.mem_of_getElem? hget) errno)

theorem failsInFile {result : SendResult} {errno : Errno} (hfewer : used.length < (chunks content).length) :
    FailsInFile content (result :: (used ++ .failed errno :: rest)) := by
  refine ⟨used.length, hfewer, errno, ?_⟩
  rw [List.getElem?_cons_succ, List.getElem?_append_right (Nat.le_refl _), Nat.sub_self]
  rfl

/-- The handler sends exactly the file, before it waits for the reply, if and only if no send is
short or the send of a chunk fails. -/
theorem sends_file_iff {path : Filename} {content : Bytes} {results : List SendResult} {out : Outcome}
    (h : handleUpload path (some content) results = some out) :
    SendsFile path content out ↔ TakesAll path content results ∨ FailsInFile content results := by
  obtain ⟨result, behind, rest, wire, t, rfl, hwire, hending, rfl⟩ := handleUpload_eq h
  cases hending with
  | finished used hdone hresults hfits hput =>
    subst hresults
    have hwaits : (!sendLoop.unfinished t) = true := by simp [sendLoop, hdone]
    rw [or_iff_left (not_failsInFile hfits), ← takesAll_iff hwire hfits, ← hput]
    exact ⟨fun hsends => hsends hwaits, fun hall _ => hall⟩
  | failed used errno hshort hresults hfewer =>
    subst hresults
    have hreturns : (!sendLoop.unfinished t) = false := by simp [sendLoop, hshort]
    refine iff_of_true (fun hwaits => ?_) (.inr (failsInFile hfewer))
    exact absurd hwaits (Bool.eq_false_iff.mp hreturns)

def fileF : Filename := ⟨ascii "f", by decide, by decide, by decide +kernel, by decide⟩

theorem sends_file_two_bytes :
    SendsFile fileF (ascii "ab") ⟨true, 2, ascii "UPLOAD f 2\nab"⟩ ↔
      TakesAll fileF (ascii "ab") [.sent 11, .sent 2] ∨ FailsInFile (ascii "ab") [.sent 11, .sent 2] :=
  sends_file_iff (by decide +kernel)

/-- The connection takes one of two bytes. The handler waits for the reply, and the server for the
other byte. -/
theorem short_send_skips :
    ¬ ∀ (path : Filename) (content : Bytes) (results : List SendResult) (out : Outcome),
      handleUpload path (some content) results = some out → SendsFile path content out := by
  intro h
  have hrun : handleUpload fileF (some (ascii "ab")) [.sent 11, .sent 1] =
      some ⟨true, 1, ascii "UPLOAD f 2\na"⟩ := by decide +kernel
  exact absurd (h _ _ _ _ hrun rfl) (by decide +kernel)

end Stash.Client.Upload
