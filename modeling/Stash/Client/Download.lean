import Stash.Threads.ClientThread

/-! The client's side of a download: data is read until a text marker shows up in the
buffer. The buffer is searched as a C string, with whatever earlier reads left in it. -/
namespace Stash.Client
open Foundation.CText Utils.NetworkUtils Threads

def bufferSize : Nat := 8192

/-- The message that ends a successful download. -/
def okMessage : Bytes := ascii "\nDOWNLOAD OK\n"

/-- The bytes that the server sends: the file and the message. -/
def reply (content : Bytes) : Bytes := content ++ okMessage

/-- What the socket gets of an output of the server's loop. -/
def onSocket : Output → Bytes
  | .sent text => text
  | .queued _ => []

/-- The server answers a successful download with the reply, over a connection that takes
everything it is given. -/
theorem sendResponse_reply {env : Env} {l : Loop} {content : Bytes}
    (hresponse : env.response l.output = ⟨.success, okMessage, content⟩)
    (hactive : env.isActive l.output = true) (htaken : ∀ out text, env.taken out text = text.length) :
    ∃ sent, (sendResponse env l).loop.output = l.output ++ sent ∧
      (sent.map onSocket).flatten = reply content := by
  have hfull (text : Bytes) (hne : text ≠ []) : sendFull text.length text = text.length := by
    simp [sendFull, hne]
  have hmessage (m : Loop) : (sendResponseMessage env m okMessage).loop.output =
      m.output ++ [.sent okMessage] := by
    have hnot : ¬ ((okMessage.length : Nat) : Int) < 0 := by omega
    rw [sendResponseMessage, if_pos (by decide), htaken, hfull _ (by decide), if_neg hnot]
    rfl
  unfold sendResponse
  simp only [hresponse, hactive, Bool.not_true, Bool.false_eq_true, if_false, htaken]
  by_cases hempty : content = []
  · refine ⟨[.sent okMessage], ?_, ?_⟩
    · simp [hempty, hmessage]
    · simp [hempty, onSocket, reply]
  · have hpos := List.length_pos_iff.mpr hempty
    refine ⟨[.sent content, .sent okMessage], ?_, ?_⟩
    · simp [hpos, hfull content hempty, hmessage]
    · simp [onSocket, reply]

/-- `recv` into the buffer at the head of a memory area. -/
def overlay (chunk memory : Bytes) : Bytes := chunk ++ memory.drop chunk.length

/-- The first marker of the three that the string in memory holds. -/
def endMarker (memory : Bytes) : Option Nat :=
  match strstr (ascii "\nDOWNLOAD OK") (cstr memory) with
  | some d => some d
  | none =>
    match strstr (ascii "DOWNLOAD FAILED") (cstr memory) with
    | some d => some d
    | none => strstr (ascii "ERROR") (cstr memory)

/-- What has been written to the local file and, when a marker was found, the message. -/
structure Download where
  written : Bytes
  serverMessage : Option Bytes
  deriving DecidableEq, Repr

/-- The receive loop over the results of `recv`, with the results that are left. An empty
result is the end of the connection; when no more results come, the client waits. -/
def downloadLoop (memory written : Bytes) : List Bytes → Option (Download × List Bytes)
  | [] => none
  | [] :: rest => some (⟨written, none⟩, rest)
  | chunk :: rest =>
    match endMarker (overlay chunk memory) with
    | some d => some (⟨written ++ (overlay chunk memory).take d,
        some ((cstr (overlay chunk memory)).drop d)⟩, rest)
    | none => downloadLoop (overlay chunk memory) (written ++ chunk) rest

/-- What is left of the reply when the local file cannot be created. -/
def drainReply (memory : Bytes) : List Bytes → Option (List Bytes)
  | [] => none
  | [] :: rest => some rest
  | chunk :: rest =>
    if (strstr (ascii "DOWNLOAD") (cstr (overlay chunk memory))).isSome ||
        (strstr (ascii "ERROR") (cstr (overlay chunk memory))).isSome then some rest
    else drainReply (overlay chunk memory) rest

def Download.success (download : Download) : Bool :=
  match download.serverMessage with
  | some message => 0 < download.written.length && (strstr (ascii "DOWNLOAD OK") message).isSome
  | none => false

/-- How `handle_download` ends: the download, if the local file could be created, and the
results of `recv` that it has not taken. -/
inductive Outcome where
  | waiting
  | notCreated (rest : List Bytes)
  | finished (download : Download) (rest : List Bytes)
  deriving DecidableEq, Repr

/-- `memory` is the buffer, and what lies behind it, before the first `recv`. -/
def handleDownload (fopen : Bool) (memory : Bytes) (results : List Bytes) : Outcome :=
  if fopen then
    match downloadLoop memory [] results with
    | some (download, rest) => .finished download rest
    | none => .waiting
  else
    match drainReply memory results with
    | some rest => .notCreated rest
    | none => .waiting

/-- The local file holds the stored bytes, nothing of the reply is left, success is reported. -/
def RoundTrip (memory content : Bytes) (results : List Bytes) : Prop :=
  ∃ download, handleDownload true memory results = .finished download [] ∧
    download.written = content ∧ download.success = true

/-- None of these reads leaves a marker in the buffer. -/
def Silent (memory : Bytes) : List Bytes → Prop
  | [] => True
  | chunk :: rest => endMarker (overlay chunk memory) = none ∧ Silent (overlay chunk memory) rest

/-- The memory after a series of reads. -/
def overlayAll (memory : Bytes) : List Bytes → Bytes
  | [] => memory
  | chunk :: rest => overlayAll (overlay chunk memory) rest

/-- A way in which the reply can be received. -/
structure Segments (content : Bytes) (results : List Bytes) : Prop where
  nonempty : ∀ chunk ∈ results, chunk ≠ []
  fits : ∀ chunk ∈ results, chunk.length ≤ bufferSize
  whole : results.flatten = reply content

variable {memory written : Bytes}

theorem downloadLoop_silent {earlier : List Bytes} (hne : ∀ chunk ∈ earlier, chunk ≠ [])
    (h : Silent memory earlier) (rest : List Bytes) :
    downloadLoop memory written (earlier ++ rest) =
      downloadLoop (overlayAll memory earlier) (written ++ earlier.flatten) rest := by
  induction earlier generalizing memory written with
  | nil => simp [overlayAll]
  | cons chunk earlier ih =>
    obtain ⟨c, tail, rfl⟩ := List.exists_cons_of_ne_nil (hne chunk (by simp))
    simp only [List.cons_append, downloadLoop, h.1, overlayAll, List.flatten_cons]
    rw [ih (fun d hd => hne d (by simp [hd])) h.2, List.append_assoc]
    rfl

/-- A loop that takes every result and finds a marker finds it in the last one. -/
theorem downloadLoop_found {results : List Bytes} (hne : ∀ chunk ∈ results, chunk ≠ [])
    {download : Download} {message : Bytes} (hmessage : download.serverMessage = some message)
    (h : downloadLoop memory written results = some (download, [])) :
    ∃ earlier last d, results = earlier ++ [last] ∧ Silent memory earlier ∧
      endMarker (overlay last (overlayAll memory earlier)) = some d ∧
      download.written = written ++ earlier.flatten ++ (overlay last (overlayAll memory earlier)).take d := by
  induction results generalizing memory written with
  | nil => cases h
  | cons chunk results ih =>
    obtain ⟨c, tail, rfl⟩ := List.exists_cons_of_ne_nil (hne chunk (by simp))
    unfold downloadLoop at h
    cases hmark : endMarker (overlay (c :: tail) memory) with
    | some d =>
      simp only [hmark, Option.some.injEq, Prod.mk.injEq] at h
      obtain ⟨rfl, rfl⟩ := h
      exact ⟨[], c :: tail, d, rfl, trivial, hmark, by simp [overlayAll]⟩
    | none =>
      simp only [hmark] at h
      obtain ⟨earlier, last, d, rfl, hsilent, hd, hwritten⟩ := ih (fun e he => hne e (by simp [he])) h
      exact ⟨(c :: tail) :: earlier, last, d, rfl, ⟨hmark, hsilent⟩, hd, by simp [hwritten, overlayAll]⟩

theorem endMarker_lt {d : Nat} (h : endMarker memory = some d) : d < (cstr memory).length := by
  have within {needle : Bytes} (hne : needle ≠ []) (hs : strstr needle (cstr memory) = some d) :
      d < (cstr memory).length := by
    obtain ⟨hp, _, _⟩ := strstr_eq_some.mp hs
    by_contra hlong
    rw [List.drop_eq_nil_of_le (by omega)] at hp
    exact hne (List.prefix_nil.mp hp)
  unfold endMarker at h
  split at h
  · rename_i e he
    obtain rfl := Option.some.inj h
    exact within (by decide) he
  · split at h
    · rename_i e he
      obtain rfl := Option.some.inj h
      exact within (by decide) he
    · exact within (by decide) h

theorem cstr_overlay_reply {x : Bytes} (hx : (0 : UInt8) ∉ x) (memory : Bytes) :
    ∃ stale, cstr (overlay (x ++ okMessage) memory) = x ++ ascii "\nDOWNLOAD OK" ++ stale := by
  have hnul : (0 : UInt8) ∉ x ++ okMessage := by
    simp only [List.mem_append, not_or]
    exact ⟨hx, by decide⟩
  have hsplit : okMessage = ascii "\nDOWNLOAD OK" ++ [10] := by decide
  refine ⟨[10] ++ cstr (memory.drop (x ++ okMessage).length), ?_⟩
  rw [overlay, cstr_append hnul, hsplit]
  simp only [List.append_assoc]

private theorem strstr_marker (x stale : Bytes) :
    strstr (ascii "\nDOWNLOAD OK") (x ++ ascii "\nDOWNLOAD OK" ++ stale) = some x.length ↔
      ¬ ascii "\nDOWNLOAD OK" <:+: x := by
  have hsplit : ascii "\nDOWNLOAD OK" = 10 :: ascii "DOWNLOAD OK" := by decide
  rw [hsplit]
  exact strstr_append_eq_some (by decide)

/-- In the last read the end of the file is found exactly when the file's part of it holds
no NUL and not the marker itself. -/
theorem endMarker_reply (x memory : Bytes) :
    endMarker (overlay (x ++ okMessage) memory) = some x.length ↔
      (0 : UInt8) ∉ x ∧ ¬ ascii "\nDOWNLOAD OK" <:+: x := by
  constructor
  · intro h
    have hx : (0 : UInt8) ∉ x := by
      intro hmem
      obtain ⟨before, after, rfl⟩ := List.append_of_mem hmem
      have hlt := endMarker_lt h
      have hle := cstr_length_le before (after ++ okMessage ++
        memory.drop (before ++ 0 :: after ++ okMessage).length)
      simp only [overlay, List.append_assoc, List.cons_append, List.length_append, List.length_cons] at hlt hle
      omega
    obtain ⟨stale, hstr⟩ := cstr_overlay_reply hx memory
    refine ⟨hx, (strstr_marker x stale).mp ?_⟩
    rw [← hstr]
    unfold endMarker at h
    split at h
    · rename_i d hd
      rw [hd, h]
    · rename_i hnone
      rw [hstr] at hnone
      exact absurd (by simp) (strstr_eq_none.mp hnone x.length (by simp))
  · rintro ⟨hx, hmarker⟩
    obtain ⟨stale, hstr⟩ := cstr_overlay_reply hx memory
    have hfound := (strstr_marker x stale).mpr hmarker
    rw [← hstr] at hfound
    simp only [endMarker, hfound]

/-- When the bytes written up to the marker are the file, the last read is a part of the
file and the whole message. -/
theorem last_segment {content before last : Bytes} {d : Nat}
    (hwhole : before ++ last = reply content) (hd : endMarker (overlay last memory) = some d)
    (hfile : before ++ (overlay last memory).take d = content) : last = last.take d ++ okMessage ∧ d ≤ last.length := by
  have hlong : (cstr (overlay last memory)).length ≤ (overlay last memory).length :=
    (List.takeWhile_prefix _).length_le
  have htaken : ((overlay last memory).take d).length = d := by
    rw [List.length_take, Nat.min_eq_left (by have := endMarker_lt hd; omega)]
  have hlen := congrArg List.length hwhole
  rw [reply, ← hfile] at hlen
  simp only [List.length_append, htaken] at hlen
  have hle : d ≤ last.length := by omega
  have htake : (overlay last memory).take d = last.take d := by
    rw [overlay, List.take_append_of_le_length hle]
  refine ⟨?_, hle⟩
  rw [reply, ← hfile, htake, List.append_assoc] at hwhole
  exact List.append_cancel_left hwhole

theorem strstr_ok_message (stale : Bytes) :
    (strstr (ascii "DOWNLOAD OK") (ascii "\nDOWNLOAD OK" ++ stale)).isSome = true := by
  cases h : strstr (ascii "DOWNLOAD OK") (ascii "\nDOWNLOAD OK" ++ stale) with
  | some d => rfl
  | none =>
    have hsplit : ascii "\nDOWNLOAD OK" = 10 :: ascii "DOWNLOAD OK" := by decide
    rw [hsplit] at h
    exact absurd (List.prefix_append _ _) (strstr_eq_none.mp h 1 (by simp))

/-- Download round trip: for every file, every segmentation of the reply and every former
content of the buffer, the file arrives, the reply is used up and success is reported if
and only if the file is not empty, the last read returns the whole message behind a part
of the file that holds neither NUL nor the marker, and no earlier read shows a marker. -/
theorem round_trip_iff (memory content : Bytes) (results : List Bytes) (h : Segments content results) :
    RoundTrip memory content results ↔
      content ≠ [] ∧ ∃ earlier x, results = earlier ++ [x ++ okMessage] ∧ Silent memory earlier ∧
        (0 : UInt8) ∉ x ∧ ¬ ascii "\nDOWNLOAD OK" <:+: x := by
  constructor
  · rintro ⟨download, hrun, hwritten, hsuccess⟩
    have hloop : downloadLoop memory [] results = some (download, []) := by
      unfold handleDownload at hrun
      cases hl : downloadLoop memory [] results with
      | none => simp [hl] at hrun
      | some found =>
        obtain ⟨found, rest⟩ := found
        simp only [hl, if_true, Outcome.finished.injEq] at hrun
        rw [hrun.1, hrun.2]
    unfold Download.success at hsuccess
    cases hm : download.serverMessage with
    | none => simp [hm] at hsuccess
    | some message =>
      simp only [hm, Bool.and_eq_true, decide_eq_true_eq] at hsuccess
      have hne : content ≠ [] := by
        rw [← hwritten]
        exact List.length_pos_iff.mp hsuccess.1
      obtain ⟨earlier, last, d, rfl, hsilent, hd, hfile⟩ := downloadLoop_found h.nonempty hm hloop
      have hwhole := h.whole
      simp only [List.flatten_append, List.flatten_singleton] at hwhole
      rw [hwritten, List.nil_append] at hfile
      obtain ⟨hlast, hle⟩ := last_segment hwhole hd hfile.symm
      rw [hlast] at hd
      have hmark := (endMarker_reply (last.take d) _).mp (by rwa [List.length_take, Nat.min_eq_left hle])
      exact ⟨hne, earlier, last.take d, by rw [← hlast], hsilent, hmark⟩
  · rintro ⟨hne, earlier, x, rfl, hsilent, hnul, hmarker⟩
    have hfile : earlier.flatten ++ x = content := by
      have hwhole := h.whole
      simp only [List.flatten_append, List.flatten_singleton, reply, ← List.append_assoc] at hwhole
      exact List.append_cancel_right hwhole
    have hfound := (endMarker_reply x (overlayAll memory earlier)).mpr ⟨hnul, hmarker⟩
    obtain ⟨stale, hstr⟩ := cstr_overlay_reply hnul (overlayAll memory earlier)
    obtain ⟨c, tail, hcons⟩ := List.exists_cons_of_ne_nil (h.nonempty (x ++ okMessage) (by simp))
    have htake : (overlay (x ++ okMessage) (overlayAll memory earlier)).take x.length = x := by
      rw [overlay, List.append_assoc, List.take_left]
    have hloop : downloadLoop memory [] (earlier ++ [x ++ okMessage]) =
        some (⟨content, some (ascii "\nDOWNLOAD OK" ++ stale)⟩, []) := by
      rw [downloadLoop_silent (fun chunk hc => h.nonempty chunk (by simp [hc])) hsilent, List.nil_append]
      rw [hcons] at hfound hstr htake ⊢
      simp only [downloadLoop, hfound, htake, hfile, hstr]
      rw [List.append_assoc, List.drop_left]
    refine ⟨⟨content, some (ascii "\nDOWNLOAD OK" ++ stale)⟩, ?_, rfl, ?_⟩
    · rw [handleDownload, if_pos rfl, hloop]
    · have hpos := List.length_pos_iff.mpr hne
      simp only [Download.success, strstr_ok_message, hpos, decide_true, Bool.and_self]

/-- A buffer that holds zeros. -/
def cleared : Bytes := List.replicate bufferSize 0

/-- The five bytes "hello" that arrive with the message. -/
theorem round_trip_hello :
    RoundTrip cleared (ascii "hello") [ascii "hello\nDOWNLOAD OK\n"] ↔
      ascii "hello" ≠ [] ∧ ∃ earlier x, [ascii "hello\nDOWNLOAD OK\n"] = earlier ++ [x ++ okMessage] ∧
        Silent cleared earlier ∧ (0 : UInt8) ∉ x ∧ ¬ ascii "\nDOWNLOAD OK" <:+: x :=
  round_trip_iff cleared (ascii "hello") [ascii "hello\nDOWNLOAD OK\n"] ⟨by decide, by decide, by decide⟩

/-- A NUL in the file hides the marker behind it: the client goes on waiting. -/
theorem nul_hides_the_end :
    ¬ ∀ (memory content : Bytes) (results : List Bytes), bufferSize ≤ memory.length →
      Segments content results → RoundTrip memory content results := by
  intro h
  obtain ⟨download, hrun, -⟩ := h cleared [97, 0, 98] [[97, 0, 98] ++ okMessage]
    (by simp [cleared]) ⟨by decide, by decide, by decide⟩
  have hwaiting : handleDownload true cleared [[97, 0, 98] ++ okMessage] = .waiting := by decide +kernel
  rw [hwaiting] at hrun
  cases hrun

end Stash.Client
