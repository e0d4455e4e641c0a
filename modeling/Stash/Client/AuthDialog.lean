import Stash.Client.Download
import Stash.Foundation.Runs
import Stash.Threads.Credentials

/-! The client's `authenticate` and the client thread of the server, with the bytes in flight
between them. A `recv` takes any part of what has arrived, so the network may cut and join what
was sent as it likes. -/
namespace Stash.Client
open Foundation.CText Foundation.Runs Threads Auth

/-- Where `authenticate` is: in one of its three calls of `recv_response`, at the menu of the
terminal, or back in its caller. -/
inductive ClientPlace where
  | welcome
  | choosing
  | answer
  | menu
  | returned (authenticated : Bool)
  deriving DecidableEq, Repr

/-- What the server goes on with when a text is out. -/
inductive Afterwards where
  | authenticate
  | menu
  | commands
  | close
  deriving DecidableEq, Repr

/-- The server sends a text, or is in a `recv`: for an authentication command, for a file command
or for the payload of an upload. -/
inductive ServerPlace where
  | sending (text : Bytes) (next : Afterwards)
  | authenticating
  | commands
  | receiving (missing : Nat)
  | closed
  deriving DecidableEq, Repr

structure Dialog where
  client : ClientPlace
  server : ServerPlace
  toClient : Bytes
  toServer : Bytes
  deriving DecidableEq, Repr

/-- What a client thread sends for a task, or because the queue is full. -/
structure Answer where
  text : Bytes
  ne_nil : text ≠ []

/-- The number in a move is how many bytes a call transfers. -/
inductive Move where
  | clientRecv (k : Nat)
  | choose (choice : AuthChoice) (username password : Typed)
  | giveUp
  | serverSend (k : Nat)
  | authCommand (k : Nat) (calls : AuthCalls) (db : Connection)
  | command (k : Nat) (quota malloc : Bool) (answer : Answer)
  | payload (k : Nat) (answer : Answer)
  | hangUp

def welcomeText : Bytes :=
  ascii "Welcome to StashCLI Server :))\nPlease authenticate first:\nSIGNUP <username> <password>\nLOGIN <username> <password>\n"

def fileMenu : Bytes :=
  ascii "\nAuthenticated! Available commands:\nUPLOAD <filename> <size>\nDOWNLOAD <filename>\nDELETE <filename>\nLIST\nQUIT\n"

/-- The test of `authenticate` on what `recv` left in its buffer. -/
def success (response : Bytes) : Bool :=
  (strstr (ascii "SIGNUP OK") (cstr response)).isSome || (strstr (ascii "LOGIN OK") (cstr response)).isSome

def Afterwards.start : Afterwards → ServerPlace
  | .authenticate => .authenticating
  | .menu => .sending fileMenu .commands
  | .commands => .commands
  | .close => .closed

/-- The rest of a text, or what comes after it. -/
def sendRest (rest : Bytes) (next : Afterwards) : ServerPlace := if rest = [] then next.start else .sending rest next

/-- The answer of the authentication loop, and whether the loop is left behind it. -/
def answerPlace : AuthReply → ServerPlace
  | .signupOk => .sending AuthReply.signupOk.text .menu
  | .loginOk => .sending AuthReply.loginOk.text .menu
  | reply => .sending reply.text .authenticate

/-- The payload that an accepted upload still waits for. -/
def missing (chunk : Bytes) (filesize : UInt64) : Nat := filesize.toNat - (leftover chunk filesize.toNat).length

def receive (missing : Nat) (answer : Answer) : ServerPlace :=
  if missing = 0 then .sending answer.text .commands else .receiving missing

/-- The file operation loop on the bytes of one `recv`. -/
def commandPlace (chunk : Bytes) (quota malloc : Bool) (answer : Answer) : ServerPlace :=
  match parseCommand (cstr chunk) with
  | .quit => .sending (ascii "Goodbye!\n") .close
  | .upload _ filesize =>
    if !quota then .sending (ascii "UPLOAD ERROR: Quota exceeded\n") .commands
    else if !malloc then .sending (ascii "UPLOAD ERROR: Server memory allocation failed\n") .commands
    else receive (missing chunk filesize) answer
  | .download _ | .delete _ | .list => .sending answer.text .commands
  | .invalid => .sending (ascii "ERROR: Invalid command\n") .commands

/-- What `recv_response` returns decides: success, another attempt, or nothing at all. -/
def clientNext (place : ClientPlace) (response : Bytes) : Option ClientPlace :=
  match place with
  | .welcome => some .choosing
  | .answer => if response = [] then some (.returned false) else if success response then some .menu else some .choosing
  | .menu => some (.returned true)
  | .choosing | .returned _ => none

namespace Dialog

def start : Dialog := ⟨.welcome, .sending welcomeText .authenticate, [], []⟩

/-- A `recv` of the server with room for `size` bytes takes `k` of them. -/
def serverTakes (d : Dialog) (size k : Nat) (place : Bytes → ServerPlace) : Option Dialog :=
  if 0 < k ∧ k ≤ size ∧ k ≤ d.toServer.length then
    some { d with server := place (d.toServer.take k), toServer := d.toServer.drop k }
  else none

def step (hashPassword : Bytes → Bytes) (d : Dialog) : Move → Option Dialog
  | .clientRecv k =>
    if d.toClient = [] ∧ d.server ≠ .closed then none
    else if (k = 0 ↔ d.toClient = []) ∧ k ≤ bufferSize - 1 ∧ k ≤ d.toClient.length then
      (clientNext d.client (d.toClient.take k)).map fun place =>
        { d with client := place, toClient := d.toClient.drop k }
    else none
  | .choose choice username password =>
    match d.client with
    | .choosing => some { d with
        client := .answer, toServer := d.toServer ++ authLine choice username.text password.text }
    | _ => none
  | .giveUp =>
    match d.client with
    | .choosing => some { d with client := .returned false }
    | _ => none
  | .serverSend k =>
    match d.server with
    | .sending text next =>
      if 0 < k ∧ k ≤ text.length then
        some { d with server := sendRest (text.drop k) next, toClient := d.toClient ++ text.take k }
      else none
    | _ => none
  | .authCommand k calls db =>
    match d.server with
    | .authenticating =>
      d.serverTakes (commandSize - 1) k fun chunk => answerPlace (answerAuth hashPassword calls db chunk).2
    | _ => none
  | .command k quota malloc answer =>
    match d.server with
    | .commands => d.serverTakes (commandSize - 1) k fun chunk => commandPlace chunk quota malloc answer
    | _ => none
  | .payload k answer =>
    match d.server with
    | .receiving missing => d.serverTakes missing k fun _ => receive (missing - k) answer
    | _ => none
  | .hangUp =>
    match d.client with
    | .returned _ => if d.toServer = [] then some { d with server := .closed } else none
    | _ => none

/-- The client is blocked in `recv`. -/
def ClientWaits (d : Dialog) : Prop := d.client = .welcome ∨ d.client = .answer ∨ d.client = .menu

/-- The server waits for a file command, or for the payload of one. -/
def InFileLoop (d : Dialog) : Prop := d.server = .commands ∨ ∃ missing, d.server = .receiving missing

/-- The server is blocked in `recv`. -/
def ServerWaits (d : Dialog) : Prop := d.server = .authenticating ∨ d.InFileLoop

def Deadlock (d : Dialog) : Prop := d.ClientWaits ∧ d.ServerWaits ∧ d.toClient = [] ∧ d.toServer = []

/-- The `recv` in which the client finds the OK leaves something in flight, when the server has
sent its menu and waits; and so does a `recv` of the file loop behind which the server waits for
a payload, when the client waits too and nothing is on its way to it. -/
def LeavesBytes (d : Dialog) : Move → Prop
  | .clientRecv k => d.client = .answer → success (d.toClient.take k) = true → d.InFileLoop →
      d.toClient.drop k ≠ [] ∨ d.toServer ≠ []
  | .command k quota malloc _ => d.ClientWaits → d.toClient = [] →
      (∃ filename filesize, parseCommand (cstr (d.toServer.take k)) = .upload filename filesize ∧
        quota = true ∧ malloc = true ∧ missing (d.toServer.take k) filesize ≠ 0) → d.toServer.drop k ≠ []
  | .payload k _ => d.ClientWaits → d.toClient = [] →
      (∀ missing, d.server = .receiving missing → k < missing) → d.toServer.drop k ≠ []
  | _ => True

/-- What one step can do, case by case. -/
inductive Steps (hashPassword : Bytes → Bytes) (d : Dialog) : Move → Dialog → Prop
  | clientRecv {k : Nat} {place : ClientPlace} (hk : k ≤ d.toClient.length)
      (hnext : clientNext d.client (d.toClient.take k) = some place) :
      Steps hashPassword d (.clientRecv k) { d with client := place, toClient := d.toClient.drop k }
  | choose {choice : AuthChoice} {username password : Typed} (hc : d.client = .choosing) :
      Steps hashPassword d (.choose choice username password)
        { d with client := .answer, toServer := d.toServer ++ authLine choice username.text password.text }
  | giveUp (hc : d.client = .choosing) : Steps hashPassword d .giveUp { d with client := .returned false }
  | serverSend {k : Nat} {text : Bytes} {next : Afterwards} (hs : d.server = .sending text next) (hpos : 0 < k)
      (hk : k ≤ text.length) : Steps hashPassword d (.serverSend k)
        { d with server := sendRest (text.drop k) next, toClient := d.toClient ++ text.take k }
  | authCommand {k : Nat} {calls : AuthCalls} {db : Connection} (hs : d.server = .authenticating) :
      Steps hashPassword d (.authCommand k calls db) { d with
        server := answerPlace (answerAuth hashPassword calls db (d.toServer.take k)).2
        toServer := d.toServer.drop k }
  | command {k : Nat} {quota malloc : Bool} {answer : Answer} (hs : d.server = .commands) :
      Steps hashPassword d (.command k quota malloc answer) { d with
        server := commandPlace (d.toServer.take k) quota malloc answer, toServer := d.toServer.drop k }
  | payload {k missing : Nat} {answer : Answer} (hs : d.server = .receiving missing) :
      Steps hashPassword d (.payload k answer) { d with
        server := receive (missing - k) answer, toServer := d.toServer.drop k }
  | hangUp : Steps hashPassword d .hangUp { d with server := .closed }

theorem serverTakes_some {d d' : Dialog} {size k : Nat} {place : Bytes → ServerPlace}
    (h : d.serverTakes size k place = some d') :
    d' = { d with server := place (d.toServer.take k), toServer := d.toServer.drop k } := by
  unfold serverTakes at h
  split at h
  · exact (Option.some.inj h).symm
  · cases h

theorem step_steps {hashPassword : Bytes → Bytes} {d d' : Dialog} {a : Move} (h : d.step hashPassword a = some d') :
    Steps hashPassword d a d' := by
  unfold step at h
  split at h
  · split at h
    · cases h
    · split at h
      · rename_i hk
        obtain ⟨place, hnext, rfl⟩ := Option.map_eq_some_iff.mp h
        exact .clientRecv hk.2.2 hnext
      · cases h
  · split at h
    · rename_i hc
      obtain rfl := Option.some.inj h
      exact .choose hc
    · cases h
  · split at h
    · rename_i hc
      obtain rfl := Option.some.inj h
      exact .giveUp hc
    · cases h
  · split at h
    · rename_i hs
      split at h
      · rename_i hk
        obtain rfl := Option.some.inj h
        exact .serverSend hs hk.1 hk.2
      · cases h
    · cases h
  · split at h
    · rename_i hs
      obtain rfl := serverTakes_some h
      exact .authCommand hs
    · cases h
  · split at h
    · rename_i hs
      obtain rfl := serverTakes_some h
      exact .command hs
    · cases h
  · split at h
    · rename_i hs
      obtain rfl := serverTakes_some h
      exact .payload hs
    · cases h
  · split at h
    · split at h
      · obtain rfl := Option.some.inj h
        exact .hangUp
      · cases h
    · cases h

end Dialog

/-- Whole lines without an OK in them. -/
structure Plain (text : Bytes) : Prop where
  signup : ¬ ascii "SIGNUP OK" <:+: text
  login : ¬ ascii "LOGIN OK" <:+: text
  lines : text = [] ∨ text.getLast? = some 10

theorem Plain.append {before after : Bytes} (h : Plain before) (h' : Plain after) : Plain (before ++ after) where
  signup hin := by
    rcases infix_append (by decide) h.lines hin with hbefore | hafter
    · exact h.signup hbefore
    · exact h'.signup hafter
  login hin := by
    rcases infix_append (by decide) h.lines hin with hbefore | hafter
    · exact h.login hbefore
    · exact h'.login hafter
  lines := by
    rcases h'.lines with rfl | hlast
    · rw [List.append_nil]
      exact h.lines
    · exact .inr (by rw [List.getLast?_append, hlast]; rfl)

theorem Plain.drop {text : Bytes} (h : Plain text) (k : Nat) : Plain (text.drop k) where
  signup hin := h.signup (hin.trans (List.drop_suffix k text).isInfix)
  login hin := h.login (hin.trans (List.drop_suffix k text).isInfix)
  lines := by
    by_cases hk : k < text.length
    · rcases h.lines with rfl | hlast
      · exact .inl List.drop_nil
      · exact .inr (by rw [List.getLast?_drop, if_neg (by omega), hlast])
    · exact .inl (List.drop_eq_nil_of_le (by omega))

/-- The client takes no part of such a text for a success. -/
theorem Plain.not_success {text : Bytes} (h : Plain text) (k : Nat) : success (text.take k) = false := by
  rw [success, Bool.or_eq_false_iff]
  have hin : cstr (text.take k) <:+: text := (cstr_isPrefix _).isInfix.trans (List.take_prefix k text).isInfix
  constructor
  · exact Bool.eq_false_iff.mpr fun hs => h.signup ((strstr_isInfix hs).trans hin)
  · exact Bool.eq_false_iff.mpr fun hs => h.login ((strstr_isInfix hs).trans hin)

/-- There is no OK in a text without a K. -/
theorem plain_of_not_mem {text : Bytes} (h : (75 : UInt8) ∉ text) (hlines : text.getLast? = some 10) : Plain text where
  signup hin := h (hin.subset (by decide))
  login hin := h (hin.subset (by decide))
  lines := .inr hlines

theorem welcomeText_plain : Plain welcomeText := plain_of_not_mem (by decide +kernel) (by decide +kernel)

/-- The loop goes on behind every answer but the two that let the user in. -/
theorem answerPlace_plain {reply : AuthReply} {text : Bytes} (h : answerPlace reply = .sending text .authenticate) :
    Plain text := by
  cases reply with
  | signupOk => cases h
  | loginOk => cases h
  | userAlreadyExists => cases h; exact plain_of_not_mem (by decide) (by decide)
  | signupFailed => cases h; exact plain_of_not_mem (by decide) (by decide)
  | userNotFound => cases h; exact plain_of_not_mem (by decide) (by decide)
  | invalidPassword => cases h; exact plain_of_not_mem (by decide) (by decide)
  | loginFailed => cases h; exact plain_of_not_mem (by decide) (by decide)
  | pleaseAuthenticate => cases h; exact plain_of_not_mem (by decide) (by decide)

theorem answerPlace_sending (reply : AuthReply) : ∃ text next, answerPlace reply = .sending text next := by
  cases reply <;> exact ⟨_, _, rfl⟩

/-- The file operation loop sends something, or it waits for the payload of an upload. -/
theorem commandPlace_cases (chunk : Bytes) (quota malloc : Bool) (answer : Answer) :
    (∃ text next, commandPlace chunk quota malloc answer = .sending text next ∧ next ≠ .authenticate) ∨
      ∃ filename filesize, parseCommand (cstr chunk) = .upload filename filesize ∧ quota = true ∧ malloc = true ∧
        missing chunk filesize ≠ 0 ∧ commandPlace chunk quota malloc answer = .receiving (missing chunk filesize) := by
  unfold commandPlace
  split
  · exact .inl ⟨_, _, rfl, by simp⟩
  · rename_i filename filesize hparse
    cases quota with
    | false => exact .inl ⟨_, _, rfl, by simp⟩
    | true =>
      cases malloc with
      | false => exact .inl ⟨_, _, rfl, by simp⟩
      | true =>
        simp only [Bool.not_true, Bool.false_eq_true, if_false, receive]
        split
        · exact .inl ⟨_, _, rfl, by simp⟩
        · rename_i hmissing
          exact .inr ⟨filename, filesize, hparse, trivial, trivial, hmissing, rfl⟩
  · exact .inl ⟨_, _, rfl, by simp⟩
  · exact .inl ⟨_, _, rfl, by simp⟩
  · exact .inl ⟨_, _, rfl, by simp⟩
  · exact .inl ⟨_, _, rfl, by simp⟩

theorem authLine_ne_nil (choice : AuthChoice) (username password : Bytes) : authLine choice username password ≠ [] := by
  cases choice with
  | signup => simp [authLine, snprintf, credentials, AuthChoice.keyword, ascii]
  | login => simp [authLine, snprintf, credentials, AuthChoice.keyword, ascii]

namespace Dialog
variable {hashPassword : Bytes → Bytes} {d d' : Dialog} {a : Move}

/-- As long as the user is not let in, no OK is on its way to the client. -/
structure NoOk (d : Dialog) : Prop where
  waiting : d.server = .authenticating → Plain d.toClient
  sending : ∀ text, d.server = .sending text .authenticate → Plain (d.toClient ++ text)

theorem noOk_start : NoOk start where
  waiting h := by cases h
  sending text h := by
    have htext : welcomeText = text := (ServerPlace.sending.inj h).1
    rw [← htext]
    exact welcomeText_plain

/-- Past the authentication loop there is nothing to keep. -/
theorem NoOk.of_ne (hwaiting : d.server ≠ .authenticating) (hsending : ∀ text, d.server ≠ .sending text .authenticate) :
    NoOk d := ⟨fun hs => absurd hs hwaiting, fun text hs => absurd hs (hsending text)⟩

theorem noOk_step (h : NoOk d) (hstep : Steps hashPassword d a d') : NoOk d' := by
  cases hstep with
  | @clientRecv k place hk hnext =>
    refine ⟨fun hs => (h.waiting hs).drop k, fun text hs => ?_⟩
    change Plain (d.toClient.drop k ++ text)
    rw [← List.drop_append_of_le_length hk]
    exact (h.sending text hs).drop k
  | choose hc => exact ⟨h.waiting, h.sending⟩
  | giveUp hc => exact ⟨h.waiting, h.sending⟩
  | @serverSend k text next hs hpos hk =>
    by_cases hrest : text.drop k = []
    · have hall : text.take k = text := List.take_of_length_le (List.drop_eq_nil_iff.mp hrest)
      simp only [sendRest, if_pos hrest, hall]
      cases next with
      | authenticate => exact ⟨fun _ => h.sending text hs, by simp [Afterwards.start]⟩
      | menu => exact .of_ne (by simp [Afterwards.start]) (by simp [Afterwards.start])
      | commands => exact .of_ne (by simp [Afterwards.start]) (by simp [Afterwards.start])
      | close => exact .of_ne (by simp [Afterwards.start]) (by simp [Afterwards.start])
    · simp only [sendRest, if_neg hrest]
      refine ⟨by simp, fun text' hs' => ?_⟩
      obtain ⟨rfl, rfl⟩ := ServerPlace.sending.inj hs'
      rw [List.append_assoc, List.take_append_drop]
      exact h.sending text hs
  | authCommand hs =>
    refine ⟨fun hs' => ?_, fun text hs' => (h.waiting hs).append (answerPlace_plain hs')⟩
    obtain ⟨text, next, heq⟩ := answerPlace_sending _
    rw [heq] at hs'
    cases hs'
  | @command k quota malloc answer hs =>
    rcases commandPlace_cases (d.toServer.take k) quota malloc answer with
      ⟨text, next, heq, hne⟩ | ⟨_, _, _, _, _, _, heq⟩
    · rw [heq]
      exact .of_ne (by simp) (by simp [hne])
    · rw [heq]
      exact .of_ne (by simp) (by simp)
  | payload hs =>
    unfold receive
    split
    · exact .of_ne (by simp) (by simp)
    · exact .of_ne (by simp) (by simp)
  | hangUp => exact .of_ne (by simp) (by simp)

/-- A step that leaves the right bytes in flight leads to no deadlock. -/
theorem not_deadlock_step (h : NoOk d) (hleaves : LeavesBytes d a) (hstep : Steps hashPassword d a d') :
    ¬ Deadlock d' := by
  rintro ⟨hclient, hserver, htoClient, htoServer⟩
  cases hstep with
  | @clientRecv k place hk hnext =>
    cases hplace : d.client with
    | answer =>
      rw [hplace] at hnext
      simp only [clientNext] at hnext
      split at hnext
      · obtain rfl := Option.some.inj hnext
        simp [ClientWaits] at hclient
      · split at hnext
        · rename_i hsuccess
          rcases hserver with hs | hloop
          · rw [(h.waiting hs).not_success k] at hsuccess
            cases hsuccess
          · rcases hleaves hplace hsuccess hloop with hleft | hleft
            · exact hleft htoClient
            · exact hleft htoServer
        · obtain rfl := Option.some.inj hnext
          simp [ClientWaits] at hclient
    | welcome =>
      rw [hplace] at hnext
      obtain rfl := Option.some.inj hnext
      simp [ClientWaits] at hclient
    | menu =>
      rw [hplace] at hnext
      obtain rfl := Option.some.inj hnext
      simp [ClientWaits] at hclient
    | choosing => rw [hplace] at hnext; cases hnext
    | returned authenticated => rw [hplace] at hnext; cases hnext
  | @choose choice username password hc =>
    exact authLine_ne_nil choice _ _ (List.append_eq_nil_iff.mp htoServer).2
  | giveUp hc => simp [ClientWaits] at hclient
  | @serverSend k text next hs hpos hk =>
    have hlength := congrArg List.length (List.append_eq_nil_iff.mp htoClient).2
    rw [List.length_take, List.length_nil] at hlength
    omega
  | @authCommand k calls db hs =>
    obtain ⟨text, next, heq⟩ := answerPlace_sending (answerAuth hashPassword calls db (d.toServer.take k)).2
    simp [ServerWaits, InFileLoop, heq] at hserver
  | @command k quota malloc answer hs =>
    rcases commandPlace_cases (d.toServer.take k) quota malloc answer with
      ⟨text, next, heq, _⟩ | ⟨filename, filesize, hparse, hquota, hmalloc, hmissing, _⟩
    · simp [ServerWaits, InFileLoop, heq] at hserver
    · exact hleaves hclient htoClient ⟨filename, filesize, hparse, hquota, hmalloc, hmissing⟩ htoServer
  | @payload k missing answer hs =>
    by_cases hmissing : missing - k = 0
    · simp [ServerWaits, InFileLoop, receive, hmissing] at hserver
    · refine hleaves hclient htoClient (fun missing' hs' => ?_) htoServer
      rw [hs] at hs'
      obtain rfl := ServerPlace.receiving.inj hs'
      omega
  | hangUp => simp [ServerWaits, InFileLoop] at hserver

/-- A step that takes the last bytes in flight where they are needed leads to one. -/
theorem leavesBytes_of_not_deadlock (hstep : Steps hashPassword d a d') (h : ¬ Deadlock d') : LeavesBytes d a := by
  cases hstep with
  | @clientRecv k place hk hnext =>
    intro hanswer hsuccess hloop
    by_contra hnone
    obtain ⟨hclient, hserver⟩ := not_or.mp hnone
    have hne : d.toClient.take k ≠ [] := by
      intro hnil
      rw [hnil] at hsuccess
      revert hsuccess
      decide
    rw [hanswer] at hnext
    simp only [clientNext, if_neg hne, hsuccess, if_true] at hnext
    obtain rfl := Option.some.inj hnext
    exact h ⟨.inr (.inr rfl), .inr hloop, not_not.mp hclient, not_not.mp hserver⟩
  | choose hc => trivial
  | giveUp hc => trivial
  | serverSend hs hpos hk => trivial
  | authCommand hs => trivial
  | @command k quota malloc answer hs =>
    rintro hclient htoClient ⟨filename, filesize, hparse, rfl, rfl, hmissing⟩ htoServer
    refine h ⟨hclient, .inr (.inr ⟨missing (d.toServer.take k) filesize, ?_⟩), htoClient, htoServer⟩
    simp [commandPlace, hparse, receive, hmissing]
  | @payload k missing answer hs =>
    intro hclient htoClient hlt htoServer
    have hleft : missing - k ≠ 0 := by
      have := hlt missing hs
      omega
    refine h ⟨hclient, .inr (.inr ⟨missing - k, ?_⟩), htoClient, htoServer⟩
    simp [receive, hleft]
  | hangUp => trivial

/-- Client and server come to wait for each other exactly in the runs in which some `recv` takes
the last bytes in flight that it should leave. -/
theorem authentication_deadlock_free_iff (hashPassword : Bytes → Bytes) (moves : List Move) :
    Always (step hashPassword) (fun d => ¬ Deadlock d) start moves ↔
      Along (step hashPassword) LeavesBytes start moves := by
  have keep : ∀ d a d', NoOk d ∧ ¬ Deadlock d → LeavesBytes d a → d.step hashPassword a = some d' →
      NoOk d' ∧ ¬ Deadlock d' := by
    intro d a d' h hleaves hstep
    exact ⟨noOk_step h.1 (step_steps hstep), not_deadlock_step h.1 hleaves (step_steps hstep)⟩
  have hstart : ¬ Deadlock start := by
    rintro ⟨_, hserver, _⟩
    simp [ServerWaits, InFileLoop, start] at hserver
  exact always_iff_along keep (fun d h => h.2)
    (fun d a d' _ hstep hnot => leavesBytes_of_not_deadlock (step_steps hstep) hnot) ⟨noOk_start, hstart⟩

end Dialog

/-- A sign-up whose OK and menu arrive in one `recv`. -/
def coalesced : List Move :=
  [.serverSend 115, .clientRecv 115, .choose .signup typedAlice typedPassword,
    .authCommand 22 quietAuth ⟨⟨[], []⟩, none⟩, .serverSend 10, .serverSend 109, .clientRecv 119]

/-- The client waits for a menu that it has read, the server for a command. -/
theorem menu_behind_ok : ¬ Always (Dialog.step exampleHash) (fun d => ¬ Dialog.Deadlock d) Dialog.start coalesced := by
  intro h
  have hrun : run (Dialog.step exampleHash) Dialog.start coalesced = some ⟨.menu, .commands, [], []⟩ := by decide +kernel
  exact h.last hrun ⟨.inr (.inr rfl), .inr (.inl rfl), rfl, rfl⟩

end Stash.Client
