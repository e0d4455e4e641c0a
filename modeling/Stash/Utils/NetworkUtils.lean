import Stash.Foundation.CText

/-! Sockets as the server reads and writes them, and the full transfers over them. An input
is the list of what successive `recv` calls find: data that has arrived, or a failure. -/
namespace Stash.Utils.NetworkUtils
open Foundation.CText

inductive Errno where
  | eintr
  | eagain
  | hard
  deriving DecidableEq, Repr

/-- Data of length zero is the end of the stream. -/
inductive RecvEvent where
  | data (chunk : Bytes)
  | failed (errno : Errno)
  deriving DecidableEq, Repr

abbrev Input := List RecvEvent

inductive RecvResult where
  | data (chunk : Bytes)
  | failed (errno : Errno)
  deriving DecidableEq, Repr

/-- One `recv` of at most `len` bytes, with what the socket holds afterwards. Data beyond
`len` stays, and a stream that has ended stays at its end. -/
def recv (len : Nat) : Input → RecvResult × Input
  | [] => (.data [], [])
  | .failed errno :: rest => (.failed errno, rest)
  | .data [] :: rest => (.data [], .data [] :: rest)
  | .data chunk :: rest =>
    (.data (chunk.take len), if chunk.length ≤ len then rest else .data (chunk.drop len) :: rest)

/-- A bound on the number of calls of `recv` that find something. -/
def inputSize : Input → Nat
  | [] => 0
  | .failed _ :: rest => 1 + inputSize rest
  | .data chunk :: rest => 1 + chunk.length + inputSize rest

/-- The bytes that arrive before the stream ends or fails for good. -/
def pending : Input → Bytes
  | [] => []
  | .data [] :: _ => []
  | .data chunk :: rest => chunk ++ pending rest
  | .failed .hard :: _ => []
  | .failed _ :: rest => pending rest

/-- The loop of `recv_full`: the bytes in the buffer and the socket when it ends. -/
def recvFullLoop (len : Nat) : Nat → Bytes → Input → Bytes × Input
  | 0, buf, input => (buf, input)
  | fuel + 1, buf, input =>
    if buf.length < len then
      match recv (len - buf.length) input with
      | (.failed .eintr, input) => recvFullLoop len fuel buf input
      | (.failed .eagain, input) => recvFullLoop len fuel buf input
      | (.failed .hard, input) => (buf, input)
      | (.data [], input) => (buf, input)
      | (.data chunk, input) => recvFullLoop len fuel (buf ++ chunk) input
    else (buf, input)

/-- `recv_full`: its return value, the bytes received and the socket afterwards. -/
def recvFull (len : Nat) (input : Input) : Int × Bytes × Input :=
  if len = 0 then (-1, [], input)
  else
    let (buf, input) := recvFullLoop len (inputSize input + 1) [] input
    (buf.length, buf, input)

/-- `send_full`, where the connection takes `taken` bytes before it fails for good. -/
def sendFull (taken : Nat) (buffer : Bytes) : Int :=
  if buffer = [] then -1 else (min taken buffer.length : Nat)

theorem recv_data {len : Nat} {chunk : Bytes} (h : chunk ≠ []) (rest : Input) :
    recv len (.data chunk :: rest) = (.data (chunk.take len),
      if chunk.length ≤ len then rest else .data (chunk.drop len) :: rest) := by
  cases chunk with
  | nil => exact absurd rfl h
  | cons c chunk => rfl

theorem pending_data {chunk : Bytes} (h : chunk ≠ []) (rest : Input) :
    pending (.data chunk :: rest) = chunk ++ pending rest := by
  cases chunk with
  | nil => exact absurd rfl h
  | cons c chunk => rfl

/-- A `recv` that returns data takes it from the front of the stream. -/
theorem recv_some {len : Nat} {input rest : Input} {chunk : Bytes} (hlen : 0 < len)
    (h : recv len input = (.data chunk, rest)) (hne : chunk ≠ []) :
    chunk.length ≤ len ∧ pending input = chunk ++ pending rest ∧ inputSize rest < inputSize input := by
  match input with
  | [] => simp [recv, eq_comm, hne] at h
  | .failed _ :: _ => simp [recv] at h
  | .data [] :: _ => simp [recv, eq_comm, hne] at h
  | .data (c :: d) :: tail =>
    rw [recv_data (by simp)] at h
    obtain ⟨hc, hr⟩ := Prod.mk.inj h
    obtain rfl := RecvResult.data.inj hc
    rw [pending_data (by simp)]
    subst hr
    refine ⟨List.length_take_le _ _, ?_, ?_⟩
    · split
      · rename_i hle
        rw [List.take_of_length_le hle]
      · rename_i hgt
        rw [pending_data (by simpa using hgt), ← List.append_assoc, List.take_append_drop]
    · split
      · simp only [inputSize, List.length_cons]
        omega
      · simp only [inputSize, List.length_drop, List.length_cons]
        omega

/-- The loop appends the next bytes of the stream, as many as it was asked for or as many
as there are. -/
theorem recvFullLoop_spec {len fuel : Nat} (buf : Bytes) {input : Input}
    (hfuel : inputSize input < fuel) (hbuf : buf.length ≤ len) :
    (recvFullLoop len fuel buf input).1 = buf ++ (pending input).take (len - buf.length) ∧
      (len - buf.length ≤ (pending input).length →
        pending (recvFullLoop len fuel buf input).2 = (pending input).drop (len - buf.length)) := by
  induction fuel generalizing buf input with
  | zero => omega
  | succ fuel ih =>
    unfold recvFullLoop
    by_cases hlt : buf.length < len
    · simp only [hlt, if_true]
      cases hrecv : recv (len - buf.length) input with
      | mk result rest =>
        cases result with
        | failed errno =>
          match input with
          | [] => simp [recv] at hrecv
          | .data [] :: _ => simp [recv] at hrecv
          | .data (c :: d) :: _ => simp [recv] at hrecv
          | .failed e :: tail =>
            simp only [recv, Prod.mk.injEq, RecvResult.failed.injEq] at hrecv
            obtain ⟨rfl, rfl⟩ := hrecv
            simp only [inputSize] at hfuel
            cases e with
            | eintr => exact ih buf (by omega) hbuf
            | eagain => exact ih buf (by omega) hbuf
            | hard =>
              simp only [pending, List.take_nil, List.append_nil, List.length_nil, List.drop_nil, true_and]
              omega
        | data chunk =>
          by_cases hne : chunk = []
          · subst hne
            have hend : pending input = [] := by
              match input with
              | [] => rfl
              | .data [] :: _ => rfl
              | .failed _ :: _ => simp [recv] at hrecv
              | .data (c :: d) :: _ =>
                have hpos : len - buf.length ≠ 0 := by omega
                simp [recv, hpos] at hrecv
            simp only [hend, List.take_nil, List.append_nil, List.length_nil, List.drop_nil, true_and]
            omega
          · obtain ⟨hle, hpend, hsize⟩ := recv_some (by omega) hrecv hne
            obtain ⟨c, d, rfl⟩ := List.exists_cons_of_ne_nil hne
            obtain ⟨hbuf', hrest⟩ := ih (buf ++ c :: d) (Nat.lt_of_lt_of_le hsize (by omega))
              (by rw [List.length_append]; omega)
            have hsub : len - (buf ++ c :: d).length = len - buf.length - (c :: d).length := by
              simp only [List.length_append]
              omega
            rw [hsub] at hbuf' hrest
            rw [hpend]
            refine ⟨?_, fun henough => ?_⟩
            · rw [hbuf', List.take_append, List.take_of_length_le hle, List.append_assoc]
            · rw [List.drop_append, List.drop_eq_nil_of_le hle, List.nil_append]
              apply hrest
              simp only [List.length_append] at henough ⊢
              omega
    · simp only [hlt, if_false]
      have hzero : len - buf.length = 0 := by omega
      simp [hzero]

/-- `recv_full` returns the next `len` bytes of the stream, or all of it when it is shorter,
and leaves the stream behind the bytes it returned. -/
theorem recvFull_spec {len : Nat} (h : len ≠ 0) (input : Input) :
    (recvFull len input).1 = (recvFull len input).2.1.length ∧
      (recvFull len input).2.1 = (pending input).take len ∧
      (len ≤ (pending input).length →
        pending (recvFull len input).2.2 = (pending input).drop len) := by
  have hspec := recvFullLoop_spec [] (Nat.lt_succ_self (inputSize input)) (Nat.zero_le len)
  simp only [List.nil_append, List.length_nil, Nat.sub_zero] at hspec
  simpa only [recvFull, h, if_false, true_and] using hspec

end Stash.Utils.NetworkUtils
