import Stash.Foundation.Transfers
import Stash.Utils.NetworkUtils

/-! `recv_full` and `send_full` call by call. The results of the calls of `recv` or `send` are a
list, in any order; the loops keep the memory of the buffer and what is left of the stream. -/
namespace Stash.Utils.FullTransfers
open Foundation.CText Foundation.Transfers
open NetworkUtils (Input pending pending_data recvFull_spec)

/-- `errno` behind a call that returns less than zero. -/
inductive Errno where
  | eintr
  | eagain
  | ewouldblock
  | epipe
  | other
  deriving DecidableEq, Repr

inductive RecvResult where
  | received (n : Nat)
  | closed
  | failed (errno : Errno)
  deriving DecidableEq, Repr

inductive SendResult where
  | sent (n : Nat)
  | failed (errno : Errno)
  deriving DecidableEq, Repr

/-- `total_received`, the buffer, and what is still to come on the stream. -/
structure Receiving where
  total : Nat
  buffer : Bytes
  stream : Bytes
  deriving DecidableEq, Repr

/-- A `recv` at `buf + total_received` that returns `n`. -/
def Receiving.receive (t : Receiving) (n : Nat) : Receiving :=
  ⟨t.total + n, t.buffer.take t.total ++ t.stream.take n ++ t.buffer.drop (t.total + n), t.stream.drop n⟩

/-- The loop of `recv_full`. A call asks for what is missing, and gets no more than there is. -/
def recvFullLoop (len : Nat) : Transfer RecvResult Receiving where
  verdict
    | .failed .eintr => .again
    | .failed .eagain | .failed .ewouldblock => .again
    | .failed _ => .stop
    | .closed => .stop
    | .received n => .moved n
  unfinished t := t.total < len
  advance t n := if 0 < n ∧ n ≤ len - t.total ∧ n ≤ t.stream.length then some (t.receive n) else none

/-- `recv_full` with the value that it returns, and the results that it does not come to. -/
def recvFull (len : Nat) (results : List RecvResult) (buffer stream : Bytes) :
    Option (Int × Receiving × List RecvResult) :=
  if len = 0 then some (-1, ⟨0, buffer, stream⟩, results)
  else ((recvFullLoop len).loop results ⟨0, buffer, stream⟩).map fun (t, rest) => (t.total, t, rest)

/-- `total_sent`, and what has been put on the connection. -/
structure Sending where
  total : Nat
  wire : Bytes
  deriving DecidableEq, Repr

/-- A `send` from `buf + total_sent` that returns `n`. -/
def Sending.send (t : Sending) (buffer : Bytes) (n : Nat) : Sending :=
  ⟨t.total + n, t.wire ++ (buffer.drop t.total).take n⟩

/-- The loop of `send_full`. -/
def sendFullLoop (len : Nat) (buffer : Bytes) : Transfer SendResult Sending where
  verdict
    | .failed .eintr => .again
    | .failed .eagain | .failed .ewouldblock => .again
    | .failed .epipe => .stop
    | .failed _ => .stop
    | .sent n => .moved n
  unfinished t := t.total < len
  advance t n := if 0 < n ∧ n ≤ len - t.total then some (t.send buffer n) else none

/-- `send_full` with the value that it returns, and the results that it does not come to. -/
def sendFull (len : Nat) (results : List SendResult) (buffer wire : Bytes) :
    Option (Int × Sending × List SendResult) :=
  if len = 0 then some (-1, ⟨0, wire⟩, results)
  else ((sendFullLoop len buffer).loop results ⟨0, wire⟩).map fun (t, rest) => (t.total, t, rest)

/-- The call is not made again. -/
def Errno.hard : Errno → Bool
  | .eintr | .eagain | .ewouldblock => false
  | .epipe | .other => true

/-- End of stream, or a hard error. -/
def RecvResult.Final (result : RecvResult) : Prop :=
  result = .closed ∨ ∃ errno, result = .failed errno ∧ errno.hard = true

/-- A hard error. -/
def SendResult.Final (result : SendResult) : Prop := ∃ errno, result = .failed errno ∧ errno.hard = true

theorem recv_final {len : Nat} {result : RecvResult} (h : (recvFullLoop len).verdict result = .stop) :
    result.Final := by
  cases result with
  | received n => cases h
  | closed => exact .inl rfl
  | failed errno => exact .inr ⟨errno, rfl, by cases errno <;> first | rfl | cases h⟩

theorem send_final {len : Nat} {buffer : Bytes} {result : SendResult}
    (h : (sendFullLoop len buffer).verdict result = .stop) : result.Final := by
  cases result with
  | sent n => cases h
  | failed errno => exact ⟨errno, rfl, by cases errno <;> first | rfl | cases h⟩

section Recv
variable {len : Nat} {buffer stream : Bytes} {t t' : Receiving} {results rest : List RecvResult}

/-- The beginning of the buffer is the beginning of the stream, and nothing else has changed. -/
structure Received (len : Nat) (buffer stream : Bytes) (t : Receiving) : Prop where
  total_le : t.total ≤ len
  arrived : t.total ≤ stream.length
  buffer_eq : t.buffer = stream.take t.total ++ buffer.drop t.total
  stream_eq : t.stream = stream.drop t.total

theorem received_start : Received len buffer stream ⟨0, buffer, stream⟩ :=
  ⟨Nat.zero_le _, Nat.zero_le _, rfl, rfl⟩

theorem Received.taken (h : Received len buffer stream t) : t.buffer.take t.total = stream.take t.total := by
  rw [h.buffer_eq, List.take_left' (List.length_take_of_le h.arrived)]

theorem Received.complete (h : Received len buffer stream t) (hdone : (recvFullLoop len).unfinished t = false) :
    t.total = len :=
  Nat.le_antisymm h.total_le (Nat.le_of_not_lt (of_decide_eq_false hdone))

theorem Received.advance {n : Nat} (h : Received len buffer stream t)
    (hadvance : (recvFullLoop len).advance t n = some t') : Received len buffer stream t' := by
  obtain ⟨⟨_, hlen, hn⟩, hreceive⟩ := Option.ite_none_right_eq_some.mp hadvance
  obtain rfl := Option.some.inj hreceive
  have htaken : (stream.take t.total).length = t.total := List.length_take_of_le h.arrived
  have hbehind : t.buffer.drop (t.total + n) = buffer.drop (t.total + n) := by
    rw [← List.drop_drop, h.buffer_eq, List.drop_left' htaken, List.drop_drop]
  have harrived := h.arrived
  have htotal := h.total_le
  rw [h.stream_eq, List.length_drop] at hn
  refine ⟨?_, ?_, ?_, ?_⟩
  · simp only [Receiving.receive]
    omega
  · simp only [Receiving.receive]
    omega
  · simp only [Receiving.receive]
    rw [h.taken, hbehind, h.stream_eq, ← List.take_add]
  · simp only [Receiving.receive]
    rw [h.stream_eq, List.drop_drop]

/-- `recv_full` has returned `t.total`: so many bytes went from the stream to the beginning of the
buffer and nothing else changed, and it is all of them unless the last result was a final one. -/
structure PrefixReceived (len : Nat) (results : List RecvResult) (buffer stream : Bytes) (value : Int)
    (t : Receiving) (rest : List RecvResult) : Prop extends Received len buffer stream t where
  returned : value = t.total
  complete : t.total = len ∨ ∃ last, last :: rest <:+ results ∧ last.Final

theorem recvFull_prefix (hlen : 1 ≤ len) {value : Int}
    (hrun : recvFull len results buffer stream = some (value, t, rest)) :
    PrefixReceived len results buffer stream value t rest := by
  rw [recvFull, if_neg (Nat.one_le_iff_ne_zero.mp hlen)] at hrun
  obtain ⟨⟨u, left⟩, hloop, heq⟩ := Option.map_eq_some_iff.mp hrun
  cases heq
  obtain ⟨hreceived, hends⟩ := Transfer.loop_invariant (fun _ _ _ => Received.advance) received_start hloop
  refine ⟨hreceived, rfl, ?_⟩
  rcases hends with hdone | ⟨last, hlast, hstop⟩
  · exact .inl (hreceived.complete hdone)
  · exact .inr ⟨last, hlast, recv_final hstop⟩

/-- The kinds of errors that the rest of the server tells apart. -/
def Errno.kind : Errno → NetworkUtils.Errno
  | .eintr => .eintr
  | .eagain | .ewouldblock => .eagain
  | .epipe | .other => .hard

/-- What successive calls of `recv` find, as the rest of the server has it. -/
def found : Bytes → List RecvResult → Input
  | _, [] => []
  | stream, .received n :: rest => .data (stream.take n) :: found (stream.drop n) rest
  | stream, .closed :: rest => .data [] :: found stream rest
  | stream, .failed errno :: rest => .failed errno.kind :: found stream rest

private theorem pending_again {result : RecvResult} (h : (recvFullLoop len).verdict result = .again) :
    pending (found stream (result :: rest)) = pending (found stream rest) := by
  cases result with
  | received n => cases h
  | closed => cases h
  | failed errno => cases errno <;> first | rfl | cases h

private theorem pending_stop {result : RecvResult} (h : (recvFullLoop len).verdict result = .stop) :
    pending (found stream (result :: rest)) = [] := by
  cases result with
  | received n => cases h
  | closed => rfl
  | failed errno => cases errno <;> first | rfl | cases h

private theorem pending_moved {result : RecvResult} {n : Nat}
    (h : (recvFullLoop len).verdict result = .moved n) (hn : 0 < n) (hle : n ≤ stream.length) :
    pending (found stream (result :: rest)) = stream.take n ++ pending (found (stream.drop n) rest) := by
  cases result with
  | received k =>
    obtain rfl : k = n := Verdict.moved.inj h
    have hne : stream.take k ≠ [] := List.ne_nil_of_length_pos (by rw [List.length_take_of_le hle]; exact hn)
    rw [found, pending_data hne]
  | closed => cases h
  | failed errno => cases errno <;> cases h

/-- `recv_full` as the rest of the server has it returns the same value and the same bytes. -/
theorem recvFull_eq (hlen : 1 ≤ len) {value : Int}
    (hrun : recvFull len results buffer stream = some (value, t, rest)) :
    (NetworkUtils.recvFull len (found stream results)).1 = value ∧
      (NetworkUtils.recvFull len (found stream results)).2.1 = t.buffer.take t.total := by
  have hpos : len ≠ 0 := Nat.one_le_iff_ne_zero.mp hlen
  rw [recvFull, if_neg hpos] at hrun
  obtain ⟨⟨u, left⟩, hloop, heq⟩ := Option.map_eq_some_iff.mp hrun
  cases heq
  have hends : Transfer.Ended (recvFullLoop len) (fun left u => Received len buffer stream u ∧
      pending (found stream results) = stream.take u.total ++ pending (found u.stream left)) rest t := by
    refine Transfer.loop_rule ?_ ?_ ⟨received_start, rfl⟩ hloop
    · rintro result left u ⟨hreceived, hfound⟩ hagain
      exact ⟨hreceived, by rw [hfound, pending_again hagain]⟩
    · rintro result left u n u' ⟨hreceived, hfound⟩ hmoved hadvance
      obtain ⟨⟨hn, _, hle⟩, hreceive⟩ := Option.ite_none_right_eq_some.mp hadvance
      refine ⟨hreceived.advance hadvance, ?_⟩
      obtain rfl := Option.some.inj hreceive
      rw [hfound, pending_moved hmoved hn hle, ← List.append_assoc, hreceived.stream_eq, ← List.take_add]
      simp only [Receiving.receive, hreceived.stream_eq, List.drop_drop]
  have htake : (pending (found stream results)).take len = stream.take t.total := by
    cases hends with
    | finished hdone hinv =>
      rw [hinv.2, List.take_left' (by rw [List.length_take_of_le hinv.1.arrived, hinv.1.complete hdone])]
    | stopped last hstop _ hinv =>
      rw [hinv.2, pending_stop hstop, List.append_nil, List.take_take, Nat.min_eq_right hinv.1.total_le]
  have hreceived := (Transfer.loop_invariant (fun _ _ _ => Received.advance) received_start hloop).1
  obtain ⟨hvalue, hbytes, _⟩ := recvFull_spec hpos (found stream results)
  rw [hbytes, htake] at hvalue
  refine ⟨?_, ?_⟩
  · rw [hvalue, List.length_take_of_le hreceived.arrived]
  · rw [hbytes, htake, hreceived.taken]

end Recv

section Send
variable {len : Nat} {buffer wire : Bytes} {t t' : Sending} {results rest : List SendResult}

/-- The beginning of the buffer has been put on the connection, and nothing else. -/
structure Sent (len : Nat) (buffer wire : Bytes) (t : Sending) : Prop where
  total_le : t.total ≤ len
  wire_eq : t.wire = wire ++ buffer.take t.total

theorem sent_start : Sent len buffer wire ⟨0, wire⟩ := ⟨Nat.zero_le _, (List.append_nil _).symm⟩

theorem Sent.complete (h : Sent len buffer wire t) (hdone : (sendFullLoop len buffer).unfinished t = false) :
    t.total = len :=
  Nat.le_antisymm h.total_le (Nat.le_of_not_lt (of_decide_eq_false hdone))

theorem Sent.advance {n : Nat} (h : Sent len buffer wire t)
    (hadvance : (sendFullLoop len buffer).advance t n = some t') : Sent len buffer wire t' := by
  obtain ⟨⟨_, hlen⟩, hsend⟩ := Option.ite_none_right_eq_some.mp hadvance
  obtain rfl := Option.some.inj hsend
  have htotal := h.total_le
  refine ⟨?_, ?_⟩
  · simp only [Sending.send]
    omega
  · simp only [Sending.send]
    rw [h.wire_eq, List.append_assoc, ← List.take_add]

/-- `send_full` has returned `t.total`: so many bytes from the beginning of the buffer were sent, and
it is all of them unless the last result was a hard error. -/
structure PrefixSent (len : Nat) (results : List SendResult) (buffer wire : Bytes) (value : Int)
    (t : Sending) (rest : List SendResult) : Prop extends Sent len buffer wire t where
  returned : value = t.total
  complete : t.total = len ∨ ∃ last, last :: rest <:+ results ∧ last.Final

theorem sendFull_prefix (hlen : 1 ≤ len) {value : Int}
    (hrun : sendFull len results buffer wire = some (value, t, rest)) :
    PrefixSent len results buffer wire value t rest := by
  rw [sendFull, if_neg (Nat.one_le_iff_ne_zero.mp hlen)] at hrun
  obtain ⟨⟨u, left⟩, hloop, heq⟩ := Option.map_eq_some_iff.mp hrun
  cases heq
  obtain ⟨hsent, hends⟩ := Transfer.loop_invariant (fun _ _ _ => Sent.advance) sent_start hloop
  refine ⟨hsent, rfl, ?_⟩
  rcases hends with hdone | ⟨last, hlast, hstop⟩
  · exact .inl (hsent.complete hdone)
  · exact .inr ⟨last, hlast, send_final hstop⟩

/-- `send_full` as the rest of the server has it, for a connection that takes so many bytes. -/
theorem sendFull_eq (hlen : 1 ≤ len) (hbuffer : len ≤ buffer.length) {value : Int}
    (hrun : sendFull len results buffer wire = some (value, t, rest)) :
    NetworkUtils.sendFull t.total (buffer.take len) = value := by
  have hsent := sendFull_prefix hlen hrun
  have hlength : (buffer.take len).length = len := List.length_take_of_le hbuffer
  have hne : buffer.take len ≠ [] := List.ne_nil_of_length_pos (by omega)
  rw [NetworkUtils.sendFull, if_neg hne, hlength, Nat.min_eq_left hsent.total_le, hsent.returned]

end Send

/-- Whatever the calls of `recv` and `send` come to, the two functions transfer an exact prefix. -/
theorem full_transfers {len : Nat} (hlen : 1 ≤ len) :
    (∀ (results : List RecvResult) (buffer stream : Bytes) (value : Int) (t : Receiving) (rest : List RecvResult),
      recvFull len results buffer stream = some (value, t, rest) →
        PrefixReceived len results buffer stream value t rest) ∧
    (∀ (results : List SendResult) (buffer wire : Bytes) (value : Int) (t : Sending) (rest : List SendResult),
      sendFull len results buffer wire = some (value, t, rest) →
        PrefixSent len results buffer wire value t rest) :=
  ⟨fun _ _ _ _ _ _ => recvFull_prefix hlen, fun _ _ _ _ _ _ => sendFull_prefix hlen⟩

/-- One byte, a signal, and the other two; a byte, and the connection breaks. -/
theorem full_transfers_three :
    PrefixReceived 3 [.received 1, .failed .eintr, .received 2] (ascii "xxxxx") (ascii "abcd") 3
        ⟨3, ascii "abcxx", ascii "d"⟩ [] ∧
      PrefixSent 3 [.sent 1, .failed .epipe] (ascii "abc") [] 1 ⟨1, ascii "a"⟩ [] :=
  ⟨(full_transfers (by decide)).1 _ _ _ _ _ _ (by decide), (full_transfers (by decide)).2 _ _ _ _ _ _ (by decide)⟩

end Stash.Utils.FullTransfers
